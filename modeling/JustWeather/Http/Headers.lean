import JustWeather.CLib.Scanf

/-! # `parse_headers`

The status line and the header lines of a received response. A header line is
named by the suffix of the buffer that starts at it, because both scans of its
value run on the whole rest of the buffer.
-/

namespace JustWeather.Http

open CLib

/-- The result of `parse_headers` and what it leaves in its out parameters. -/
structure Headers where
  ret : Int
  statusCode : Int
  contentLength : Nat
  chunked : Bool
  deriving DecidableEq

/-- `"HTTP/%*d.%*d %d"`. -/
def statusFormat : List Directive :=
  (ascii "HTTP/").map .literal ++
    [.integer false, .literal 46, .integer false, .blank, .integer true]

def isContentLength (current : Bytes) : Bool := startsNoCase (ascii "Content-Length:") current

def isTransferEncoding (current : Bytes) : Bool := startsNoCase (ascii "Transfer-Encoding:") current

/-- One turn of the header loop, at the line `current` starts with. -/
def headerLine (h : Headers) (current : Bytes) : Headers :=
  if isContentLength current then
    match readSize (current.drop 15) with
    | some n => { h with contentLength := n }
    | none => h
  else if isTransferEncoding current then
    if (strstr (ascii "chunked") current).isSome then { h with chunked := true } else h
  else h

theorem lineEnd_drop_lt {s e : Bytes} (h : strstr CRLF s = some e) :
    (e.drop 2).length < s.length := by
  have here := (strstr_some h).1.length_le
  have inside := strstr_length_le h
  simp only [CRLF, List.length_cons, List.length_nil] at here
  simp only [List.length_drop]
  omega

def headerLoop (h : Headers) (current : Bytes) : Headers :=
  match _found : strstr CRLF current with
  | none => h
  | some lineEnd =>
      if lineEnd.length = current.length then h
      else headerLoop (headerLine h current) (lineEnd.drop 2)
termination_by current.length
decreasing_by exact lineEnd_drop_lt _found

def parseHeaders (data : Bytes) : Headers :=
  match strstr CRLF data with
  | none => ⟨-1, 0, 0, false⟩
  | some lineEnd =>
      match sscanf statusFormat data with
      | [code] => headerLoop ⟨0, code, 0, false⟩ (lineEnd.drop 2)
      | _ => ⟨-1, 0, 0, false⟩

/-! ## The lines the loop visits -/

/-- The suffixes at which the loop reads a header line, in order. -/
def headerStarts (current : Bytes) : List Bytes :=
  match _found : strstr CRLF current with
  | none => []
  | some lineEnd =>
      if lineEnd.length = current.length then []
      else current :: headerStarts (lineEnd.drop 2)
termination_by current.length
decreasing_by exact lineEnd_drop_lt _found

theorem headerStarts_none {s : Bytes} (found : strstr CRLF s = none) : headerStarts s = [] := by
  rw [headerStarts]
  split
  · rfl
  · next e h => rw [found] at h; cases h

theorem headerStarts_some {s e : Bytes} (found : strstr CRLF s = some e) :
    headerStarts s = if e.length = s.length then [] else s :: headerStarts (e.drop 2) := by
  rw [headerStarts]
  split
  · next h => rw [found] at h; cases h
  · next e' h => rw [found] at h; cases h; rfl

/-- What a line does to `content_length`. -/
def lengthLine (n : Nat) (current : Bytes) : Nat :=
  if isContentLength current then (readSize (current.drop 15)).getD n else n

/-- The line sets the `chunked` flag. -/
def namesChunked (current : Bytes) : Bool :=
  !isContentLength current && isTransferEncoding current &&
    (strstr (ascii "chunked") current).isSome

theorem headerLine_eq (h : Headers) (current : Bytes) :
    headerLine h current = { h with
      contentLength := lengthLine h.contentLength current
      chunked := h.chunked || namesChunked current } := by
  cases hc : isContentLength current with
  | true =>
      cases hr : readSize (current.drop 15) <;> simp [headerLine, lengthLine, namesChunked, hc, hr]
  | false =>
      cases ht : isTransferEncoding current <;>
        cases hs : (strstr (ascii "chunked") current).isSome <;>
        simp [headerLine, lengthLine, namesChunked, hc, ht, hs]

/-- The two out parameters are computed independently, each by one pass over the lines. -/
theorem headerLoop_eq (h : Headers) (current : Bytes) :
    headerLoop h current = { h with
      contentLength := (headerStarts current).foldl lengthLine h.contentLength
      chunked := h.chunked || (headerStarts current).any namesChunked } := by
  fun_induction headerLoop h current with
  | case1 h current found => simp [headerStarts_none found]
  | case2 h current lineEnd found same => simp [headerStarts_some found, same]
  | case3 h current lineEnd found other ih =>
      rw [ih, headerLine_eq, headerStarts_some found, if_neg other]
      simp [Bool.or_assoc]

/-- The loop stops at the blank line. -/
theorem headerStarts_blank (s : Bytes) : headerStarts (CRLF ++ s) = [] := by
  have found : strstr CRLF (CRLF ++ s) = some (CRLF ++ s) := strstr_here (List.prefix_append _ _)
  rw [headerStarts_some found, if_pos rfl]

theorem headerStarts_line {line s : Bytes} (nonempty : line ≠ [])
    (found : strstr CRLF (line ++ (CRLF ++ s)) = some (CRLF ++ s)) :
    headerStarts (line ++ (CRLF ++ s)) = (line ++ (CRLF ++ s)) :: headerStarts s := by
  have short : (CRLF ++ s).length ≠ (line ++ (CRLF ++ s)).length := by
    have := List.length_pos_of_ne_nil nonempty
    simp only [List.length_append]
    omega
  rw [headerStarts_some found, if_neg short]
  rfl

end JustWeather.Http
