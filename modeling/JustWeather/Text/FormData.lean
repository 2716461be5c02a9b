import JustWeather.CLib.Numerals

/-! # Form data

A request target is read as a path and a list of named values. Nothing reads
like a text that it is only a part of: the reading of a proper prefix fails, has
fewer fields, or has a shorter last value.
-/

namespace JustWeather.Text

open CLib

/-- `+` is a space and `%XX` a byte; a `%` without two digits means nothing. -/
def formDecode : Bytes → Option Bytes
  | [] => some []
  | c :: s =>
      if c = 37 then
        match s with
        | h :: l :: s =>
            if isBase 16 h && isBase 16 l then
              (formDecode s).map (UInt8.ofNat (digitOf h * 16 + digitOf l) :: ·)
            else none
        | _ => none
      else (formDecode s).map ((if c = 43 then 32 else c) :: ·)

/-- The text before and behind the first `c`. -/
def cutAt (c : UInt8) : Bytes → Option (Bytes × Bytes)
  | [] => none
  | x :: s =>
      if x = c then some ([], s) else (cutAt c s).map fun (before, rest) => (x :: before, rest)

/-- `name=value`. -/
def formField (piece : Bytes) : Option (Bytes × Bytes) :=
  match cutAt 61 piece with
  | none => none
  | some (name, v) =>
      match formDecode name, formDecode v with
      | some name, some v => some (name, v)
      | _, _ => none

/-- Fields with `&` between them. -/
def formFields (query : Bytes) : Option (List (Bytes × Bytes)) := (query.splitOn 38).mapM formField

/-- The path up to the first `?`, and the fields behind it. -/
def readTarget (target : Bytes) : Option (Bytes × List (Bytes × Bytes)) :=
  match cutAt 63 target with
  | none => some (target, [])
  | some (path, query) => (formFields query).map (path, ·)

/-! ## Decoding -/

theorem formDecode_plain {c : UInt8} (s : Bytes) (plain : c ≠ 37) :
    formDecode (c :: s) = (formDecode s).map ((if c = 43 then 32 else c) :: ·) := by
  rw [formDecode.eq_def]
  exact if_neg plain

/-- A text without `+` and `%` decodes to itself. -/
theorem formDecode_self {s : Bytes} (plain : ∀ c ∈ s, c ≠ 37 ∧ c ≠ 43) : formDecode s = some s := by
  induction s with
  | nil => rfl
  | cons c s ih =>
      obtain ⟨here, rest⟩ := List.forall_mem_cons.mp plain
      rw [formDecode_plain s here.1, ih rest, if_neg here.2]
      rfl

theorem formDecode_escape {h l : UInt8} (s : Bytes) (hh : isBase 16 h = true)
    (hl : isBase 16 l = true) : formDecode (37 :: h :: l :: s) =
      (formDecode s).map (UInt8.ofNat (digitOf h * 16 + digitOf l) :: ·) := by
  simp [formDecode, hh, hl]

/-- What a text decodes to does not depend on what follows it. -/
theorem formDecode_append {s v : Bytes} (t : Bytes) (decoded : formDecode s = some v) :
    formDecode (s ++ t) = (formDecode t).map (v ++ ·) := by
  induction s using formDecode.induct generalizing v with
  | case1 =>
      cases decoded
      simp
  | case2 h l s digits ih =>
      simp only [Bool.and_eq_true] at digits
      rw [formDecode_escape s digits.1 digits.2, Option.map_eq_some_iff] at decoded
      obtain ⟨w, decoded, rfl⟩ := decoded
      simp only [List.cons_append]
      rw [formDecode_escape _ digits.1 digits.2, ih decoded, Option.map_map]
      rfl
  | case3 h l s digits =>
      simp [formDecode, digits] at decoded
  | case4 s short =>
      rcases s with _ | ⟨h, _ | ⟨l, s⟩⟩
      · simp [formDecode] at decoded
      · simp [formDecode] at decoded
      · exact absurd rfl (short h l s)
  | case5 c s plain ih =>
      rw [formDecode_plain s plain, Option.map_eq_some_iff] at decoded
      obtain ⟨w, decoded, rfl⟩ := decoded
      rw [List.cons_append, formDecode_plain _ plain, ih decoded, Option.map_map]
      rfl

theorem formDecode_eq_nil {s : Bytes} (h : formDecode s = some []) : s = [] := by
  cases s with
  | nil => rfl
  | cons c s =>
      exfalso
      rw [formDecode.eq_def] at h
      dsimp only at h
      split at h
      · split at h
        · split at h <;> simp at h
        · cases h
      · simp at h

theorem formDecode_prefix {p s v : Bytes} (part : p <+: s) (hp : formDecode p = some v)
    (hs : formDecode s = some v) : p = s := by
  obtain ⟨t, rfl⟩ := part
  rw [formDecode_append t hp, Option.map_eq_some_iff] at hs
  obtain ⟨w, decoded, same⟩ := hs
  rw [List.append_right_eq_self.mp same] at decoded
  rw [formDecode_eq_nil decoded, List.append_nil]

/-! ## Cutting -/

/-- The first `c` lies behind a text without one. -/
theorem cutAt_behind {c : UInt8} {p : Bytes} (s : Bytes) (absent : c ∉ p) :
    cutAt c (p ++ s) = (cutAt c s).map fun (before, rest) => (p ++ before, rest) := by
  induction p with
  | nil => simp
  | cons x p ih =>
      simp only [List.mem_cons, not_or] at absent
      rw [List.cons_append, cutAt, if_neg (Ne.symm absent.1), ih absent.2, Option.map_map]
      rfl

theorem cutAt_append {c : UInt8} {p : Bytes} (s : Bytes) (absent : c ∉ p) :
    cutAt c (p ++ c :: s) = some (p, s) := by
  rw [cutAt_behind _ absent]
  simp [cutAt]

theorem cutAt_some {c : UInt8} {s p t : Bytes} (h : cutAt c s = some (p, t)) :
    s = p ++ c :: t ∧ c ∉ p := by
  induction s generalizing p with
  | nil => cases h
  | cons x s ih =>
      rw [cutAt] at h
      split at h
      · next same =>
          cases h
          exact ⟨by rw [same]; rfl, by simp⟩
      · next other =>
          obtain ⟨⟨q, t⟩, found, eq⟩ := Option.map_eq_some_iff.mp h
          cases eq
          obtain ⟨rfl, absent⟩ := ih found
          exact ⟨rfl, by simp [absent, Ne.symm other]⟩

/-- The pieces of a text that stops inside one of the pieces. -/
private theorem splitOn_prefix {c : UInt8} {t s : Bytes} (part : t <+: s) :
    ∃ init p' p rest, s.splitOn c = init ++ p :: rest ∧ t.splitOn c = init ++ [p'] ∧ p' <+: p := by
  induction t generalizing s with
  | nil =>
      obtain ⟨p, rest, pieces⟩ := List.exists_cons_of_ne_nil (List.splitOn_ne_nil c s)
      exact ⟨[], [], p, rest, pieces, rfl, List.nil_prefix⟩
  | cons x t ih =>
      obtain ⟨s, rfl, inner⟩ := List.cons_prefix_iff.mp part
      obtain ⟨init, p', p, rest, ofS, ofT, hp⟩ := ih inner
      rw [List.splitOn_cons_eq_if_modifyHead, List.splitOn_cons_eq_if_modifyHead, ofS, ofT]
      by_cases cut : (x == c) = true
      · rw [if_pos cut, if_pos cut]
        exact ⟨[] :: init, p', p, rest, rfl, rfl, hp⟩
      · rw [if_neg cut, if_neg cut]
        cases init with
        | nil => exact ⟨[], x :: p', x :: p, rest, rfl, rfl, List.cons_prefix_cons.mpr ⟨rfl, hp⟩⟩
        | cons i init => exact ⟨(x :: i) :: init, p', p, rest, rfl, rfl, hp⟩

/-! ## Readings of a part -/

private theorem mapM_length {α β : Type} {f : α → Option β} {l : List α} {r : List β}
    (h : l.mapM f = some r) : r.length = l.length := by
  induction l generalizing r with
  | nil =>
      cases h
      rfl
  | cons a l ih =>
      simp only [List.mapM_cons, Option.bind_eq_bind, Option.bind_eq_some_iff] at h
      obtain ⟨b, -, r', hr, eq⟩ := h
      cases eq
      rw [List.length_cons, List.length_cons, ih hr]

private theorem mapM_snoc {α β : Type} {f : α → Option β} {l : List α} {a : α} {r : List β}
    (h : (l ++ [a]).mapM f = some r) :
    ∃ rs b, l.mapM f = some rs ∧ f a = some b ∧ r = rs ++ [b] := by
  simp only [List.mapM_append, List.mapM_cons, List.mapM_nil, Option.bind_eq_bind,
    Option.bind_eq_some_iff] at h
  obtain ⟨rs, hrs, last, ⟨b, hb, none, noneEq, lastEq⟩, eq⟩ := h
  cases noneEq
  cases lastEq
  cases eq
  exact ⟨rs, b, hrs, hb, rfl⟩

theorem formField_append {name v : Bytes} {n w : Bytes} (absent : 61 ∉ name)
    (hn : formDecode name = some n) (hv : formDecode v = some w) :
    formField (name ++ 61 :: v) = some (n, w) := by
  simp only [formField, cutAt_append v absent, hn, hv]

theorem formFields_single {piece : Bytes} {field : Bytes × Bytes} (absent : 38 ∉ piece)
    (h : formField piece = some field) : formFields piece = some [field] := by
  rw [formFields, List.splitOn_eq_singleton absent]
  simp [h]

/-- One more field. -/
theorem formFields_snoc {query piece : Bytes} {fields : List (Bytes × Bytes)} {field : Bytes × Bytes}
    (hq : formFields query = some fields) (absent : 38 ∉ piece) (h : formField piece = some field) :
    formFields (query ++ 38 :: piece) = some (fields ++ [field]) := by
  have single := formFields_single absent h
  rw [formFields] at hq single ⊢
  rw [List.splitOn_append_cons_self, List.mapM_append, hq, single]
  rfl

theorem readTarget_append {path query : Bytes} {fields : List (Bytes × Bytes)} (absent : 63 ∉ path)
    (h : formFields query = some fields) : readTarget (path ++ 63 :: query) = some (path, fields) := by
  simp [readTarget, cutAt_append query absent, h]

/-- A text in front of a path is read with it. -/
theorem readTarget_behind {front target path : Bytes} {fields : List (Bytes × Bytes)}
    (absent : 63 ∉ front) (h : readTarget target = some (path, fields)) :
    readTarget (front ++ target) = some (front ++ path, fields) := by
  unfold readTarget at h ⊢
  rw [cutAt_behind target absent]
  cases cut : cutAt 63 target with
  | none =>
      simp only [cut, Option.some.injEq, Prod.mk.injEq] at h
      rw [Option.map_none, h.1, h.2]
  | some halves =>
      simp only [cut, Option.map_some, Option.map_eq_some_iff, Prod.mk.injEq] at h ⊢
      obtain ⟨_, read, rfl, rfl⟩ := h
      exact ⟨_, read, rfl, rfl⟩

theorem formField_prefix {p s : Bytes} {field : Bytes × Bytes} (part : p <+: s)
    (hp : formField p = some field) (hs : formField s = some field) : p = s := by
  obtain ⟨t, rfl⟩ := part
  cases cut : cutAt 61 p with
  | none => simp [formField, cut] at hp
  | some halves =>
      obtain ⟨name, v⟩ := halves
      obtain ⟨rfl, absent⟩ := cutAt_some cut
      rw [List.append_assoc, List.cons_append] at hs
      simp only [formField, cutAt_append _ absent] at hp hs
      cases decodedName : formDecode name with
      | none => simp [decodedName] at hp
      | some n =>
          cases decodedV : formDecode v with
          | none => simp [decodedName, decodedV] at hp
          | some w =>
              simp only [decodedName, decodedV] at hp
              cases hp
              cases decodedS : formDecode (v ++ t) with
              | none => simp [decodedName, decodedS] at hs
              | some w' =>
                  simp only [decodedName, decodedS, Option.some.injEq, Prod.mk.injEq, true_and] at hs
                  subst hs
                  have := formDecode_prefix (List.prefix_append v t) decodedV decodedS
                  simp [List.self_eq_append_right.mp this]

theorem formFields_length {q : Bytes} {fields : List (Bytes × Bytes)}
    (h : formFields q = some fields) : fields.length = (q.splitOn 38).length := mapM_length h

theorem formFields_prefix {p s : Bytes} {fields : List (Bytes × Bytes)} (part : p <+: s)
    (hp : formFields p = some fields) (hs : formFields s = some fields) : p = s := by
  obtain ⟨init, last', last, rest, ofS, ofP, hlast⟩ := splitOn_prefix (c := 38) part
  have same := (formFields_length hp).symm.trans (formFields_length hs)
  have noRest : rest = [] := by
    rw [ofS, ofP] at same
    simp only [List.length_append, List.length_cons, List.length_nil] at same
    exact List.length_eq_zero_iff.mp (by omega)
  subst noRest
  rw [formFields, ofP] at hp
  rw [formFields, ofS] at hs
  obtain ⟨fieldsInit, field', hinit, hfield', rfl⟩ := mapM_snoc hp
  obtain ⟨_, field, hinit', hfield, eq⟩ := mapM_snoc hs
  obtain ⟨-, lastField⟩ := List.append_inj eq (by rw [mapM_length hinit, mapM_length hinit'])
  cases lastField
  calc p = [38].intercalate (p.splitOn 38) := (List.intercalate_splitOn 38).symm
    _ = [38].intercalate (s.splitOn 38) := by rw [ofP, ofS, formField_prefix hlast hfield' hfield]
    _ = s := List.intercalate_splitOn 38

/-- A target read like one that it is the start of is the whole of it. -/
theorem readTarget_prefix {p s : Bytes} {parts : Bytes × List (Bytes × Bytes)} (part : p <+: s)
    (hp : readTarget p = some parts) (hs : readTarget s = some parts) : p = s := by
  obtain ⟨t, rfl⟩ := part
  cases cut : cutAt 63 p with
  | none =>
      simp only [readTarget, cut, Option.some.injEq] at hp
      subst hp
      cases cutS : cutAt 63 (p ++ t) with
      | none => simpa [readTarget, cutS] using hs
      | some halves =>
          simp only [readTarget, cutS, Option.map_eq_some_iff] at hs
          obtain ⟨fields, hfields, eq⟩ := hs
          have := formFields_length hfields
          cases eq
          exact absurd (List.length_eq_zero_iff.mp this.symm) (List.splitOn_ne_nil 38 _)
  | some halves =>
      obtain ⟨path, query⟩ := halves
      obtain ⟨rfl, absent⟩ := cutAt_some cut
      rw [List.append_assoc, List.cons_append] at hs
      simp only [readTarget, cutAt_append _ absent, Option.map_eq_some_iff] at hp hs
      obtain ⟨fields, hfields, rfl⟩ := hp
      obtain ⟨_, hfields', eq⟩ := hs
      cases eq
      have := formFields_prefix (List.prefix_append query t) hfields hfields'
      simp [List.self_eq_append_right.mp this]

/-- The start of a target has no more fields. -/
theorem readTarget_prefix_length {p s : Bytes} {parts parts' : Bytes × List (Bytes × Bytes)}
    (part : p <+: s) (hp : readTarget p = some parts) (hs : readTarget s = some parts') :
    parts.2.length ≤ parts'.2.length := by
  obtain ⟨t, rfl⟩ := part
  cases cut : cutAt 63 p with
  | none =>
      simp only [readTarget, cut, Option.some.injEq] at hp
      subst hp
      exact Nat.zero_le _
  | some halves =>
      obtain ⟨path, query⟩ := halves
      obtain ⟨rfl, absent⟩ := cutAt_some cut
      rw [List.append_assoc, List.cons_append] at hs
      simp only [readTarget, cutAt_append _ absent, Option.map_eq_some_iff] at hp hs
      obtain ⟨fields, hfields, rfl⟩ := hp
      obtain ⟨fields', hfields', rfl⟩ := hs
      obtain ⟨init, _, last, rest, ofS, ofP, -⟩ :=
        splitOn_prefix (c := 38) (List.prefix_append query t)
      simp only [formFields_length hfields, formFields_length hfields', ofS, ofP]
      simp

end JustWeather.Text
