import JustWeather.CLib.Exec
import JustWeather.CLib.Strings

/-! # Arrays of `char`

An array on the stack has a fixed size and any contents to begin with. A store
outside it, or reading it as a string when no NUL byte is in it, is undefined.
-/

namespace JustWeather.CLib

/-- `char buf[size]`. -/
abbrev Buffer (size : Nat) := Vector UInt8 size

namespace Buffer

variable {size : Nat}

/-- `buf[i] = c`. -/
def store (buf : Buffer size) (i : Int) (c : UInt8) : Exec (Buffer size) :=
  if inside : 0 ≤ i ∧ i < size then .returns (buf.set i.toNat c (by omega)) else .undefined

/-- Bytes stored one after another from `i` on. -/
def storeAll (buf : Buffer size) (i : Nat) : Bytes → Exec (Buffer size)
  | [] => pure buf
  | c :: cs => do
      let buf ← buf.store i c
      storeAll buf (i + 1) cs

/-- `strncpy(buf, s, n)`: `n` bytes are stored, those of the string and then NUL bytes. -/
def strncpy (buf : Buffer size) (s : Bytes) (n : Nat) : Exec (Buffer size) :=
  buf.storeAll 0 (s.take n ++ List.replicate (n - s.length) 0)

/-- `snprintf(&buf[i], n, ...)` of a format that makes this text: as much of it as fits `n` bytes
with the NUL byte behind it. -/
def snprintf (buf : Buffer size) (i n : Nat) (text : Bytes) : Exec (Buffer size) :=
  if n = 0 then pure buf else buf.storeAll i (text.take (n - 1) ++ [0])

/-- `strcpy(buf, s)`. -/
def strcpy (buf : Buffer size) (s : Bytes) : Exec (Buffer size) := buf.storeAll 0 (s ++ [0])

def Terminated (buf : Buffer size) : Prop := 0 ∈ buf.toList

instance (buf : Buffer size) : Decidable buf.Terminated := inferInstanceAs (Decidable (0 ∈ buf.toList))

/-- What a function reads that is given the buffer as a string. -/
def text (buf : Buffer size) : Exec Bytes :=
  if buf.Terminated then .returns (cStr buf.toList) else .undefined

/-- The buffer holds the string `s`. -/
def Holds (buf : Buffer size) (s : Bytes) : Prop := 0 ∉ s ∧ s ++ [0] <+: buf.toList

theorem Holds.terminated {buf : Buffer size} {s : Bytes} (h : buf.Holds s) : buf.Terminated :=
  h.2.subset (by simp)

theorem Holds.text {buf : Buffer size} {s : Bytes} (h : buf.Holds s) : buf.text = .returns s := by
  have read : cStr buf.toList = s := by
    obtain ⟨clean, rest, eq⟩ := h
    rw [← eq, List.append_assoc, cStr]
    refine takeWhile_append_stop (fun c mem => ?_) (by simp)
    simpa using fun (nul : c = 0) => clean (nul ▸ mem)
  rw [Buffer.text, if_pos h.terminated, read]

/-- A string is shorter than the buffer that holds it. -/
theorem Holds.length_lt {buf : Buffer size} {s : Bytes} (h : buf.Holds s) : s.length < size := by
  have := h.2.length_le
  simp only [List.length_append, List.length_singleton, Vector.length_toList] at this
  omega

theorem store_inside {buf : Buffer size} {i : Nat} (c : UInt8) (inside : i < size) :
    buf.store i c = .returns (buf.set i c inside) := by
  simp [store, inside]

/-- Bytes are stored in the place of as many others. -/
theorem storeAll_fits {buf : Buffer size} {front old back cs : Bytes}
    (split : buf.toList = front ++ (old ++ back)) (same : old.length = cs.length) :
    ∃ b, buf.storeAll front.length cs = .returns b ∧ b.toList = front ++ (cs ++ back) := by
  induction cs generalizing buf front old with
  | nil =>
      rw [List.length_nil, List.length_eq_zero_iff] at same
      exact ⟨buf, rfl, by rw [split, same]⟩
  | cons c cs ih =>
      obtain ⟨o, old, rfl⟩ := List.exists_cons_of_length_eq_add_one same
      have inside : front.length < size := by
        have := congrArg List.length split
        simp only [Vector.length_toList, List.length_append, List.length_cons] at this
        omega
      have after : (buf.set front.length c inside).toList = (front ++ [c]) ++ (old ++ back) := by
        rw [Vector.toList_set, split, List.set_append_right _ _ (Nat.le_refl _)]
        simp
      obtain ⟨b, stored, eq⟩ := ih after (by simpa using same)
      rw [List.length_append, List.length_singleton] at stored
      exact ⟨b, by rw [storeAll, store_inside c inside, Exec.returns_bind, stored], by simp [eq]⟩

/-- Bytes are stored behind others. -/
theorem storeAll_behind {buf : Buffer size} {front cs : Bytes} (before : front <+: buf.toList)
    (fits : front.length + cs.length ≤ size) :
    ∃ b, buf.storeAll front.length cs = .returns b ∧ front ++ cs <+: b.toList := by
  obtain ⟨behind, split⟩ := before
  have room := congrArg List.length split
  rw [List.length_append, Vector.length_toList] at room
  have cut : buf.toList = front ++ (behind.take cs.length ++ behind.drop cs.length) := by
    rw [List.take_append_drop, split]
  obtain ⟨b, stored, eq⟩ := storeAll_fits cut (List.length_take_of_le (by omega))
  refine ⟨b, stored, behind.drop cs.length, ?_⟩
  rw [eq, List.append_assoc]

theorem store_behind {buf : Buffer size} {front : Bytes} (before : front <+: buf.toList) (c : UInt8)
    (fits : front.length < size) :
    ∃ b, buf.store front.length c = .returns b ∧ front ++ [c] <+: b.toList := by
  have room : front.length + [c].length ≤ size := by rwa [List.length_singleton]
  obtain ⟨b, stored, kept⟩ := storeAll_behind before room
  rw [storeAll, store_inside c fits] at stored
  exact ⟨b, (store_inside c fits).trans stored, kept⟩

/-- A formatted text in the place of as many bytes and one more, which gets the NUL byte. -/
theorem snprintf_fits {buf : Buffer size} {front old back text : Bytes} {n : Nat}
    (split : buf.toList = front ++ (old ++ back)) (same : old.length = text.length + 1)
    (fits : text.length < n) :
    ∃ b, buf.snprintf front.length n text = .returns b ∧ b.toList = front ++ (text ++ 0 :: back) := by
  have whole : text.take (n - 1) = text := List.take_of_length_le (by omega)
  have room : old.length = (text ++ [0]).length := by simpa using same
  obtain ⟨b, stored, eq⟩ := storeAll_fits split room
  refine ⟨b, ?_, by simpa using eq⟩
  rw [snprintf, if_neg (by omega), whole]
  exact stored

/-- Bytes stored from the first one on. -/
theorem storeAll_start (buf : Buffer size) {cs : Bytes} (fits : cs.length ≤ size) :
    ∃ b, buf.storeAll 0 cs = .returns b ∧ b.toList = cs ++ buf.toList.drop cs.length :=
  have split : buf.toList = [] ++ (buf.toList.take cs.length ++ buf.toList.drop cs.length) :=
    (List.take_append_drop cs.length buf.toList).symm
  storeAll_fits split (List.length_take_of_le (by simpa using fits))

/-- A text formatted from the first byte on is in the array as a string. -/
theorem snprintf_holds (buf : Buffer size) {text : Bytes} {n : Nat} (clean : 0 ∉ text)
    (fits : text.length < n) (room : n ≤ size) :
    ∃ b, buf.snprintf 0 n text = .returns b ∧ b.Holds text := by
  have split : buf.toList = [] ++ (buf.toList.take (text.length + 1) ++
      buf.toList.drop (text.length + 1)) := (List.take_append_drop _ _).symm
  obtain ⟨b, formatted, eq⟩ := snprintf_fits split
    (List.length_take_of_le (by rw [Vector.length_toList]; omega)) fits
  refine ⟨b, formatted, clean, buf.toList.drop (text.length + 1), ?_⟩
  rw [eq, List.append_assoc]
  rfl

theorem storeAll_overflow {buf : Buffer size} {i : Nat} {cs : Bytes} (start : i ≤ size)
    (wide : size < i + cs.length) : buf.storeAll i cs = .undefined := by
  induction cs generalizing buf i with
  | nil =>
      rw [List.length_nil] at wide
      omega
  | cons c cs ih =>
      rw [List.length_cons] at wide
      by_cases inside : i < size
      · rw [storeAll, store_inside c inside, Exec.returns_bind]
        exact ih inside (by omega)
      · have out : buf.store i c = .undefined := by simp [store, inside]
        rw [storeAll, out]
        rfl

/-- A NUL byte stored behind a text ends it. -/
theorem store_holds {buf : Buffer size} {t back : Bytes} {o : UInt8}
    (split : buf.toList = t ++ o :: back) (clean : 0 ∉ t) :
    ∃ b, buf.store t.length 0 = .returns b ∧ b.Holds t := by
  have inside : t.length < size := by
    have := congrArg List.length split
    simp only [Vector.length_toList, List.length_append, List.length_cons] at this
    omega
  refine ⟨buf.set t.length 0 inside, store_inside 0 inside, clean, ?_⟩
  rw [Vector.toList_set, split, List.set_append_right _ _ (Nat.le_refl _)]
  simp

theorem strncpy_overflow {buf : Buffer size} {s : Bytes} {n : Nat} (wide : size < n) :
    buf.strncpy s n = .undefined := by
  refine storeAll_overflow (Nat.zero_le _) ?_
  simp only [List.length_append, List.length_take, List.length_replicate]
  omega

theorem strcpy_holds (buf : Buffer size) {s : Bytes} (clean : 0 ∉ s) (fits : s.length < size) :
    ∃ b, buf.strcpy s = .returns b ∧ b.Holds s := by
  have room : (s ++ [0]).length ≤ size := by simpa using Nat.succ_le_of_lt fits
  obtain ⟨b, stored, eq⟩ := storeAll_start buf room
  exact ⟨b, stored, clean, eq ▸ List.prefix_append _ _⟩

/-- `strncpy(buf, s, n); buf[n] = '\0';`. -/
theorem strncpy_holds (buf : Buffer size) {s : Bytes} {n : Nat} (clean : 0 ∉ s) (fits : n < size) :
    ∃ b b', buf.strncpy s n = .returns b ∧ b.store n 0 = .returns b' ∧ b'.Holds (s.take n) := by
  have len : (s.take n ++ List.replicate (n - s.length) 0).length = n := by
    simp only [List.length_append, List.length_take, List.length_replicate]
    omega
  obtain ⟨b, stored, eq⟩ := storeAll_start buf (len.trans_le fits.le)
  refine ⟨b, b.set n 0 fits, stored, store_inside 0 fits, fun mem => clean (List.mem_of_mem_take mem),
    ?_⟩
  obtain ⟨c, cs, rest⟩ : ∃ c cs, buf.toList.drop n = c :: cs :=
    List.exists_cons_of_ne_nil (by simpa using fits)
  rw [Vector.toList_set, eq, List.set_append_right _ _ len.le, len, rest, Nat.sub_self,
    List.append_assoc]
  refine (List.prefix_append_right_inj _).mpr ?_
  -- the string is followed by what fills it up, or else by the NUL byte stored last
  cases n - s.length with
  | zero => simp
  | succ k => simp [List.replicate_succ]

end Buffer

end JustWeather.CLib
