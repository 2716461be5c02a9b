import JustWeather.CLib.Exec
import JustWeather.CLib.Strings

/-! # `client_tcp`

A connection is the descriptor stored in `tcp->fd`, `none` standing for -1. What
the kernel answers is given as a script per call; every descriptor opened or
closed is logged.
-/

namespace JustWeather.Http

open CLib

/-- The answers to `connect`, and to `select` and `getsockopt` after it. -/
inductive ConnectOutcome where
  | connected
  /-- `EINPROGRESS`. -/
  | pending (selected sockopt soError : Int)
  | refused
  deriving DecidableEq

/-- One resolved address: what `socket` returns for it, and how connecting goes. -/
structure Address where
  socket : Option Nat
  connect : ConnectOutcome
  deriving DecidableEq

inductive FdEvent where
  | opened (fd : Nat)
  | closed (fd : Nat)
  deriving DecidableEq

def ConnectOutcome.succeeds : ConnectOutcome → Bool
  | .connected => true
  | .pending selected sockopt soError => 0 < selected && sockopt = 0 && soError = 0
  | .refused => false

/-- The loop over the resolved addresses. -/
def connectLoop : List Address → Option Nat × List FdEvent
  | [] => (none, [])
  | a :: rest =>
      match a.socket with
      | none => connectLoop rest
      | some fd =>
          if a.connect.succeeds then (some fd, [.opened fd])
          else
            let (found, log) := connectLoop rest
            (found, .opened fd :: .closed fd :: log)

/-- `client_tcp_connect`: the new `tcp->fd` or failure. `resolved` is `none` when `getaddrinfo`
fails. -/
def clientTcpConnect (fd : Option Nat) (resolved : Option (List Address)) :
    Option Nat × List FdEvent :=
  match fd, resolved with
  | some _, _ => (none, [])
  | none, none => (none, [])
  | none, some addresses => connectLoop addresses

/-- What one call of `send` does. -/
inductive SendOutcome where
  /-- `EINTR`. -/
  | interrupted
  | failed
  | accepted (count : Nat)
  deriving DecidableEq

/-- The loop of `client_tcp_send` over what is left to send: its result, and the bytes accepted.
With the script at its end the call is still waiting. -/
def sendLoop : List SendOutcome → Bytes → Exec Int × Bytes
  | _, [] => (.returns 0, [])
  | [], _ :: _ => (.diverges, [])
  | .interrupted :: script, c :: data => sendLoop script (c :: data)
  | .failed :: _, _ :: _ => (.returns (-1), [])
  | .accepted count :: script, c :: data =>
      let (ret, rest) := sendLoop script ((c :: data).drop count)
      (ret, (c :: data).take count ++ rest)

def clientTcpSend (fd : Option Nat) (script : List SendOutcome) (data : Bytes) : Exec Int × Bytes :=
  if fd = none then (.returns (-1), []) else sendLoop script data

/-- What one call of `client_tcp_recv` meets; no bytes received is the end of the stream. -/
inductive RecvOutcome where
  | selectFailed
  | timedOut
  | recvFailed
  | received (data : Bytes)
  deriving DecidableEq

/-- `client_tcp_recv`; `none` is the result -1. -/
def clientTcpRecv (fd : Option Nat) : RecvOutcome → Option Bytes
  | .received data => if fd = none then none else some data
  | _ => none

/-- `client_tcp_close`: nothing happens to a connection that is not open. -/
def clientTcpClose : Option Nat → List FdEvent
  | none => []
  | some fd => [.closed fd]

end JustWeather.Http
