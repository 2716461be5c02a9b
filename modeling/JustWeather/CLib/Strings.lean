import Mathlib.Data.List.Basic
import Mathlib.Data.List.Infix
import Mathlib.Data.List.TakeWhile

/-! # Bytes and C strings

A pointer into a NUL-terminated buffer is the suffix it points at, the end of
the buffer standing for the terminator. Searches stop at a NUL byte, as the C
library's do, so the same list also models a buffer with NUL bytes inside.
-/

namespace JustWeather

/-- The bytes of a buffer or of a stream, in order. -/
abbrev Bytes := List UInt8

/-- The bytes of an ASCII literal. -/
def ascii (s : String) : Bytes := s.toList.map fun c => UInt8.ofNat c.toNat

def CR : UInt8 := 13
def LF : UInt8 := 10
def CRLF : Bytes := [CR, LF]

/-- A statement about the bytes of a text is decided over the text, not over all bytes. -/
instance decidableForallMem (s : Bytes) (p : UInt8 → Prop) [DecidablePred p] :
    Decidable (∀ c ∈ s, p c) :=
  List.decidableBAll p s

namespace CLib

/-- What a C function reads of a buffer: everything before the first NUL. -/
def cStr (s : Bytes) : Bytes := s.takeWhile (· ≠ 0)

/-- A run of bytes up to the first one that does not belong to it. -/
theorem takeWhile_append_stop {p : UInt8 → Bool} {s t : Bytes} (inside : ∀ c ∈ s, p c = true)
    (stop : ∀ c ∈ t.head?, p c = false) : (s ++ t).takeWhile p = s := by
  rw [List.takeWhile_append_of_pos inside]
  cases t with
  | nil => simp
  | cons c t => simp [stop c (by simp)]

theorem dropWhile_append_stop {p : UInt8 → Bool} {s t : Bytes} (inside : ∀ c ∈ s, p c = true)
    (stop : ∀ c ∈ t.head?, p c = false) : (s ++ t).dropWhile p = t := by
  rw [List.dropWhile_append_of_pos inside]
  cases t with
  | nil => rfl
  | cons c t => simp [stop c (by simp)]

theorem cStr_of_clean {s : Bytes} (h : 0 ∉ s) : cStr s = s := by
  rw [cStr, List.takeWhile_eq_self_iff]
  intro c hc
  simpa using fun (e : c = 0) => h (e ▸ hc)

/-- `isspace` in the C locale. -/
def isSpace (c : UInt8) : Bool := c == 32 || (9 ≤ c && c ≤ 13)

/-- `isdigit`. -/
def isDigit (c : UInt8) : Bool := 48 ≤ c && c ≤ 57

/-- `isalnum` in the C locale. -/
def isAlnum (c : UInt8) : Bool := isDigit c || (65 ≤ c && c ≤ 90) || (97 ≤ c && c ≤ 122)

/-- `tolower` in the C locale. -/
def toLower (c : UInt8) : UInt8 := if 65 ≤ c && c ≤ 90 then c + 32 else c

/-- `strncasecmp(s, name, strlen(name)) == 0`. -/
def startsNoCase (name s : Bytes) : Bool := (s.take name.length).map toLower == name.map toLower

/-- `strncmp(s, name, strlen(name)) == 0`. -/
def startsWith (name s : Bytes) : Bool := name.isPrefixOf s

/-- `strstr(s, needle)`: the suffix of `s` at the first occurrence. -/
def strstr (needle : Bytes) : Bytes → Option Bytes
  | [] => if needle.isPrefixOf [] then some [] else none
  | c :: s =>
      if needle.isPrefixOf (c :: s) then some (c :: s)
      else if c = 0 then none
      else strstr needle s

theorem strstr_cons_skip {needle : Bytes} {c : UInt8} {s : Bytes} (hc : c ≠ 0)
    (hn : ¬ needle <+: c :: s) : strstr needle (c :: s) = strstr needle s := by
  rw [strstr, if_neg (by simpa using hn), if_neg hc]

theorem strstr_here {needle s : Bytes} (h : needle <+: s) : strstr needle s = some s := by
  cases s with
  | nil => simp [strstr, List.prefix_nil.mp h]
  | cons c s => rw [strstr, if_pos (by simpa using h)]

/-- The needle's first byte does not occur in `p`, so the search walks over it. -/
theorem strstr_skip {n : UInt8} {needle p : Bytes} (s : Bytes) (clean : 0 ∉ p) (absent : n ∉ p) :
    strstr (n :: needle) (p ++ s) = strstr (n :: needle) s := by
  induction p with
  | nil => rfl
  | cons c p ih =>
      simp only [List.mem_cons, not_or] at clean absent
      rw [List.cons_append, strstr_cons_skip (Ne.symm clean.1), ih clean.2 absent.2]
      intro h
      exact absent.1 (List.cons_prefix_cons.mp h).1

theorem strstr_some {needle s t : Bytes} (h : strstr needle s = some t) :
    needle <+: t ∧ ∃ p, s = p ++ t := by
  induction s with
  | nil =>
      simp only [strstr] at h
      split at h
      · next hp => cases h; exact ⟨by simpa using hp, [], rfl⟩
      · cases h
  | cons c s ih =>
      simp only [strstr] at h
      split at h
      · next hp => cases h; exact ⟨by simpa using hp, [], rfl⟩
      · split at h
        · cases h
        · obtain ⟨hp, p, rfl⟩ := ih h
          exact ⟨hp, c :: p, rfl⟩

theorem strstr_length_le {needle s t : Bytes} (h : strstr needle s = some t) :
    t.length ≤ s.length := by
  obtain ⟨-, p, rfl⟩ := strstr_some h
  simp

/-- An occurrence found before the end is found whatever follows. -/
theorem strstr_append_some {needle s t : Bytes} (u : Bytes) (h : strstr needle s = some t) :
    strstr needle (s ++ u) = some (t ++ u) := by
  induction s with
  | nil =>
      obtain ⟨hp, p, hs⟩ := strstr_some h
      obtain ⟨rfl, rfl⟩ := List.append_eq_nil_iff.mp hs.symm
      exact strstr_here (hp.trans (List.prefix_append _ _))
  | cons c s ih =>
      by_cases hp : needle <+: c :: s
      · rw [strstr_here hp] at h
        cases h
        exact strstr_here (hp.trans (List.prefix_append _ _))
      · have hc : c ≠ 0 := by
          rintro rfl
          simp [strstr, hp] at h
        rw [strstr_cons_skip hc hp] at h
        have found := ih h
        by_cases hp' : needle <+: c :: (s ++ u)
        · exfalso
          obtain ⟨hn, p, rfl⟩ := strstr_some h
          have inside : needle <+: c :: (p ++ t) := by
            have short : needle.length ≤ (c :: (p ++ t)).length := by
              have := hn.length_le
              simp only [List.length_cons, List.length_append]
              omega
            exact List.prefix_of_prefix_length_le hp' (by simp) short
          exact hp inside
        · rw [List.cons_append, strstr_cons_skip hc hp', found]

/-- No occurrence straddles the end of a NUL-free `s` whose last byte is foreign to the needle. -/
theorem strstr_append_none {needle s : Bytes} {z : UInt8} (u : Bytes) (clean : 0 ∉ s ++ [z])
    (foreign : z ∉ needle) (h : strstr needle (s ++ [z]) = none) :
    strstr needle (s ++ [z] ++ u) = strstr needle u := by
  have nonempty : needle ≠ [] := by
    rintro rfl
    rw [strstr_here (List.nil_prefix)] at h
    cases h
  induction s with
  | nil =>
      simp only [List.nil_append, List.mem_singleton] at clean
      rw [List.nil_append, List.singleton_append, strstr_cons_skip (Ne.symm clean)]
      intro hp
      obtain ⟨n, needle, rfl⟩ := List.exists_cons_of_ne_nil nonempty
      rw [(List.cons_prefix_cons.mp hp).1] at foreign
      exact foreign List.mem_cons_self
  | cons c s ih =>
      simp only [List.cons_append, List.mem_cons, not_or] at clean
      have hp : ¬ needle <+: c :: (s ++ [z]) := by
        intro hp
        rw [List.cons_append, strstr_here hp] at h
        cases h
      rw [List.cons_append, strstr_cons_skip (Ne.symm clean.1) hp] at h
      rw [List.cons_append, List.cons_append, strstr_cons_skip (Ne.symm clean.1), ih clean.2 h]
      intro hp'
      have short : needle.length ≤ (c :: (s ++ [z])).length ∨
          (c :: (s ++ [z])).length ≤ needle.length := Nat.le_total _ _
      rcases short with short | long
      · exact hp (List.prefix_of_prefix_length_le hp'
          (by simp) short)
      · have whole : c :: (s ++ [z]) <+: needle := List.prefix_of_prefix_length_le
          (by simp) hp' long
        exact foreign (whole.subset (by simp))

/-- The first occurrence in `p ++ t`, when it lies in `t`, is the first one of `t`. -/
theorem strstr_of_append {needle p t e : Bytes} (h : strstr needle (p ++ t) = some e)
    (inside : e.length ≤ t.length) : strstr needle t = some e := by
  induction p with
  | nil => exact h
  | cons c p ih =>
      simp only [List.cons_append, strstr] at h
      split at h
      · cases h
        simp only [List.length_cons, List.length_append] at inside
        omega
      · split at h
        · cases h
        · exact ih h

/-- An occurrence is found, there or earlier. -/
theorem strstr_complete {needle p : Bytes} (r : Bytes) (clean : 0 ∉ p) :
    ∃ e, strstr needle (p ++ (needle ++ r)) = some e ∧ (needle ++ r).length ≤ e.length := by
  induction p with
  | nil => exact ⟨needle ++ r, strstr_here (List.prefix_append _ _), Nat.le_refl _⟩
  | cons c p ih =>
      simp only [List.mem_cons, not_or] at clean
      by_cases here : needle <+: c :: (p ++ (needle ++ r))
      · exact ⟨_, strstr_here here, by simp; omega⟩
      · obtain ⟨e, found, long⟩ := ih clean.2
        exact ⟨e, by rw [List.cons_append, strstr_cons_skip (Ne.symm clean.1) here, found], long⟩

/-- What is searched for stands before the first NUL byte. -/
theorem strstr_isSome {needle s : Bytes} (clean : 0 ∉ needle) (nonempty : needle ≠ []) :
    (strstr needle s).isSome = true ↔ needle <:+: cStr s := by
  induction s with
  | nil => simp [strstr, cStr, nonempty]
  | cons c s ih =>
      by_cases here : needle <+: c :: s
      · have inside : needle <+: cStr (c :: s) := by
          obtain ⟨t, split⟩ := here
          rw [← split, cStr, List.takeWhile_append_of_pos]
          · exact List.prefix_append _ _
          · intro d mem
            simpa using fun (nul : d = 0) => clean (nul ▸ mem)
        simp [strstr_here here, inside.isInfix]
      · by_cases nul : c = 0
        · subst nul
          simp [strstr, here, cStr, nonempty]
        · have outside : ¬ needle <+: c :: cStr s := fun part =>
            here (part.trans (List.cons_prefix_cons.mpr ⟨rfl, List.takeWhile_prefix _⟩))
          have behind : cStr (c :: s) = c :: cStr s := by simp [cStr, nul]
          rw [strstr_cons_skip nul here, ih, behind, List.infix_cons_iff]
          simp [outside]

/-- A name is compared with one line only: the comparison stops at a foreign byte. -/
theorem startsNoCase_line {name l : Bytes} {z : UInt8} (t : Bytes)
    (foreign : toLower z ∉ name.map toLower) :
    startsNoCase name (l ++ z :: t) = startsNoCase name l := by
  rcases Nat.le_or_ge name.length l.length with long | short
  · rw [startsNoCase, startsNoCase, List.take_append_of_le_length long]
  · rcases Nat.eq_or_lt_of_le short with same | less
    · rw [startsNoCase, startsNoCase, List.take_append_of_le_length same.ge]
    · have tooLong : startsNoCase name (l ++ z :: t) = false := by
        rw [startsNoCase, beq_eq_false_iff_ne]
        intro same
        refine foreign (same ▸ List.mem_map_of_mem ?_)
        rw [List.take_append, List.take_cons (by omega)]
        simp
      have tooShort : startsNoCase name l = false := by
        rw [startsNoCase, beq_eq_false_iff_ne]
        intro same
        have := congrArg List.length same
        simp only [List.length_map, List.length_take] at this
        omega
      rw [tooLong, tooShort]

/-- Bytes beyond one that the name does not contain play no part in the comparison. -/
theorem startsNoCase_append {name s : Bytes} {z : UInt8} (u : Bytes) (mem : z ∈ s)
    (foreign : toLower z ∉ name.map toLower) :
    startsNoCase name (s ++ u) = startsNoCase name s := by
  obtain ⟨l, t, rfl⟩ := List.append_of_mem mem
  rw [List.append_assoc, List.cons_append, startsNoCase_line _ foreign, startsNoCase_line _ foreign]

theorem startsNoCase_length {name s : Bytes} (h : startsNoCase name s = true) :
    name.length ≤ s.length := by
  rw [startsNoCase, beq_iff_eq] at h
  have := congrArg List.length h
  simp only [List.length_map, List.length_take] at this
  omega

theorem startsNoCase_head {d c : UInt8} {name s : Bytes}
    (h : startsNoCase (d :: name) (c :: s) = true) : toLower c = toLower d := by
  rw [startsNoCase, beq_iff_eq, List.length_cons, List.take_succ_cons, List.map_cons, List.map_cons] at h
  exact (List.cons.inj h).1

/-- The bytes compared are the name's, up to case. -/
theorem startsNoCase_take {name s : Bytes} {z : UInt8} (h : startsNoCase name s = true)
    (foreign : toLower z ∉ name.map toLower) : z ∉ s.take name.length := by
  rw [startsNoCase, beq_iff_eq] at h
  intro mem
  exact foreign (h ▸ List.mem_map_of_mem mem)

end CLib

end JustWeather
