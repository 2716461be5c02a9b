import JustWeather.Http.OneResponse
import JustWeather.Machine.Holdings

/-! # The sockets of a call

Every socket is closed before the next one is made: those to which no connection
comes about by `client_tcp_connect`, the other one by `http_client_get`, whichever
way the call ends.
-/

namespace JustWeather.Http

open CLib Machine

def FdEvent.dealing : FdEvent → Dealing Nat
  | opened fd => .take fd
  | closed fd => .give fd

/-- The descriptor over which an address is connected, if it is. -/
def Address.connected (a : Address) : Option Nat := if a.connect.succeeds then a.socket else none

variable {net : Network} {client : HttpClient} {url : Bytes}

/-- The first address that is connected gets the connection. -/
theorem connectLoop_fst (addresses : List Address) :
    (connectLoop addresses).1 = addresses.findSome? Address.connected := by
  induction addresses with
  | nil => rfl
  | cons a rest ih =>
      have here : a.connected = if a.connect.succeeds then a.socket else none := rfl
      rw [List.findSome?_cons, here]
      unfold connectLoop
      cases a.socket with
      | none => simpa using ih
      | some fd =>
          cases a.connect.succeeds with
          | true => rfl
          | false => exact ih

end JustWeather.Http
