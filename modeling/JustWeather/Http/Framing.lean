import JustWeather.Http.Client

/-! # When the body has a say in the framing

`parse_headers` looks for its lines inside the header section, but reads the
status code, a length and the coding name with scans that do not stop there.
`SelfFramed` lists the sections whose scans all end inside; they are exactly
those for which no body can change the outcome.
-/

namespace JustWeather.Http

open CLib

/-- A header section: NUL-free and ending at its first blank line. -/
structure HeaderSection (h : Bytes) : Prop where
  clean : 0 ∉ h
  ends : strstr blankLine h = some blankLine

/-- What follows a line end inside a header section. -/
structure Open (u : Bytes) : Prop where
  clean : 0 ∉ u
  ends : strstr blankLine (CRLF ++ u) = some blankLine

theorem HeaderSection.firstLine {h : Bytes} (hs : HeaderSection h) :
    ∃ line u, h = line ++ (CRLF ++ u) ∧ strstr CRLF h = some (CRLF ++ u) ∧ Open u := by
  obtain ⟨-, p, hp⟩ := strstr_some hs.ends
  have clean := hs.clean
  rw [hp] at clean
  simp only [List.mem_append, not_or] at clean
  obtain ⟨e, found, long⟩ := @strstr_complete CRLF p CRLF clean.1
  obtain ⟨⟨u, rfl⟩, line, split⟩ := strstr_some found
  change p ++ blankLine = line ++ (CRLF ++ u) at split
  have whole : h = line ++ (CRLF ++ u) := hp.trans split
  refine ⟨line, u, whole, ?_, ?_, ?_⟩
  · rw [hp]
    exact found
  · have := hs.clean
    rw [whole] at this
    simp only [List.mem_append, not_or] at this
    exact this.2.2
  · have ends := hs.ends
    rw [whole] at ends
    exact strstr_of_append ends long

/-- Either the blank line is reached, or one more header line is. -/
theorem Open.cases {u : Bytes} (ho : Open u) :
    u = CRLF ∨ ∃ line v, line ≠ [] ∧ u = line ++ (CRLF ++ v) ∧
      strstr CRLF u = some (CRLF ++ v) ∧ Open v := by
  obtain ⟨-, p, hp⟩ := strstr_some ho.ends
  match p with
  | [] => exact .inl (List.append_cancel_left hp)
  | [c] =>
      exfalso
      simp only [CRLF, blankLine, List.cons_append, List.nil_append, List.cons.injEq] at hp
      exact absurd hp.2.1 (by decide)
  | c :: d :: p =>
      simp only [CRLF, List.cons_append, List.nil_append, List.cons.injEq] at hp
      obtain ⟨-, -, hu⟩ := hp
      have clean := ho.clean
      rw [hu] at clean
      simp only [List.mem_append, not_or] at clean
      obtain ⟨e, found, long⟩ := @strstr_complete CRLF p CRLF clean.1
      obtain ⟨⟨v, rfl⟩, line, split⟩ := strstr_some found
      have whole : u = line ++ (CRLF ++ v) := hu.trans split
      right
      refine ⟨line, v, ?_, whole, by rw [hu]; exact found, ?_, ?_⟩
      · rintro rfl
        have two : blankLine <+: CRLF ++ u := by
          rw [whole]
          exact ⟨v, by simp [blankLine]⟩
        have ends := ho.ends
        rw [strstr_here two] at ends
        have := congrArg List.length (Option.some.inj ends)
        rw [whole] at this
        simp only [blankLine, List.length_append, List.nil_append] at this long
        simp only [CRLF, List.length_cons, List.length_nil] at this long
        omega
      · have := ho.clean
        rw [whole] at this
        simp only [List.mem_append, not_or] at this
        exact this.2.2
      · have ends := ho.ends
        rw [whole, ← List.append_assoc] at ends
        exact strstr_of_append ends long

theorem Open.lastByte {u : Bytes} (ho : Open u) : ∃ s, u = s ++ [LF] := by
  obtain ⟨-, p, hp⟩ := strstr_some ho.ends
  have last : (CRLF ++ u).getLast? = some LF := by
    rw [hp]
    simp [blankLine, CRLF]
  have nonempty : u ≠ [] := by
    rintro rfl
    have := congrArg List.length hp
    simp [blankLine, CRLF] at this
  rw [List.getLast?_append_of_ne_nil _ nonempty] at last
  exact ⟨_, (List.dropLast_append_getLast? LF last).symm⟩

theorem Open.spaceEnded {u : Bytes} (ho : Open u) : SpaceEnded u := by
  obtain ⟨s, rfl⟩ := ho.lastByte
  intro c hc
  simp only [List.getLast?_append, List.getLast?_singleton, Option.some_or, Option.mem_some_iff] at hc
  subst hc
  decide

/-- Induction over the header lines of a section, the blank line last. -/
theorem Open.rec_lines {P : Bytes → Prop} {u : Bytes} (ho : Open u) (blank : P CRLF)
    (line : ∀ l v, l ≠ [] → Open (l ++ (CRLF ++ v)) → Open v →
      strstr CRLF (l ++ (CRLF ++ v)) = some (CRLF ++ v) → P v → P (l ++ (CRLF ++ v))) : P u := by
  rcases ho.cases with rfl | ⟨l, v, nonempty, rfl, found, hv⟩
  · exact blank
  · exact line l v nonempty ho hv found (hv.rec_lines blank line)
termination_by u.length
decreasing_by
  subst_vars
  simp [CRLF]
  omega

theorem headerStarts_extend {u : Bytes} (b : Bytes) (ho : Open u) :
    headerStarts (u ++ b) = (headerStarts u).map (· ++ b) := by
  refine ho.rec_lines (P := fun u => headerStarts (u ++ b) = (headerStarts u).map (· ++ b)) ?_ ?_
  · rw [headerStarts_blank, ← List.append_nil CRLF, headerStarts_blank]
    rfl
  · intro l v nonempty _ _ found ih
    have found' := strstr_append_some b found
    rw [List.append_assoc, List.append_assoc] at found' ⊢
    rw [headerStarts_line nonempty found', headerStarts_line nonempty found, ih]
    simp

theorem headerStarts_open {u : Bytes} (ho : Open u) : ∀ s ∈ headerStarts u, Open s := by
  refine ho.rec_lines (P := fun u => ∀ s ∈ headerStarts u, Open s) ?_ ?_
  · rw [← List.append_nil CRLF, headerStarts_blank]
    simp
  · intro l v nonempty hu _ found ih s hs
    rw [headerStarts_line nonempty found] at hs
    rcases List.mem_cons.mp hs with rfl | hs
    · exact hu
    · exact ih s hs

/-! ## What a body can reach -/

/-- The suffixes of a section at which its header lines start. -/
def sectionLines (h : Bytes) : List Bytes :=
  match strstr CRLF h with
  | none => []
  | some lineEnd => headerStarts (lineEnd.drop 2)

/-- The section has a status code that `sscanf` finds. -/
def HasStatus (h : Bytes) : Prop := ∃ code, sscanf statusFormat h = [code]

/-- Every scan of the section ends inside it. -/
structure SelfFramed (h : Bytes) : Prop where
  /-- The scan of the status line does not run out of the section. -/
  status : hungry statusFormat h = false
  /-- After the colon of a length line, more than white space is left of the section. -/
  lengths : HasStatus h → ∀ s ∈ sectionLines h, isContentLength s = true →
    (s.drop 15).all isSpace = false
  /-- The coding name, if looked for, occurs in the section. -/
  codings : HasStatus h → (∃ s ∈ sectionLines h, isTransferEncoding s = true) →
    ∃ s ∈ sectionLines h, isTransferEncoding s = true ∧ (strstr (ascii "chunked") s).isSome = true

theorem sectionLines_open {h : Bytes} (hs : HeaderSection h) : ∀ s ∈ sectionLines h, Open s := by
  obtain ⟨line, u, -, found, ho⟩ := hs.firstLine
  intro s mem
  simp only [sectionLines, found] at mem
  exact headerStarts_open ho s mem

/-- `parse_headers` on a section and a body: the lines visited are the section's. -/
theorem parseHeaders_section {h : Bytes} (b : Bytes) (hs : HeaderSection h) :
    parseHeaders (h ++ b) = match sscanf statusFormat (h ++ b) with
      | [code] => ⟨0, code, ((sectionLines h).map (· ++ b)).foldl lengthLine 0,
          ((sectionLines h).map (· ++ b)).any namesChunked⟩
      | _ => ⟨-1, 0, 0, false⟩ := by
  obtain ⟨line, u, -, found, ho⟩ := hs.firstLine
  have lines : headerStarts (u ++ b) = (sectionLines h).map (· ++ b) := by
    simp only [sectionLines, found]
    exact headerStarts_extend b ho
  have found' := strstr_append_some b found
  simp only [parseHeaders, found', headerLoop_eq, List.append_assoc, Bool.false_or, lines.symm]
  rfl

theorem isContentLength_extend {s : Bytes} (b : Bytes) (ho : Open s) :
    isContentLength (s ++ b) = isContentLength s := by
  obtain ⟨s, rfl⟩ := ho.lastByte
  exact startsNoCase_append b (by simp) (by decide : toLower LF ∉ _)

theorem isTransferEncoding_extend {s : Bytes} (b : Bytes) (ho : Open s) :
    isTransferEncoding (s ++ b) = isTransferEncoding s := by
  obtain ⟨s, rfl⟩ := ho.lastByte
  exact startsNoCase_append b (by simp) (by decide : toLower LF ∉ _)

theorem chunked_extend {s : Bytes} (b : Bytes) (ho : Open s) :
    (strstr (ascii "chunked") (s ++ b)).isSome =
      ((strstr (ascii "chunked") s).isSome || (strstr (ascii "chunked") b).isSome) := by
  cases found : strstr (ascii "chunked") s with
  | some e => simp [strstr_append_some b found]
  | none =>
      obtain ⟨s, rfl⟩ := ho.lastByte
      rw [strstr_append_none b ho.clean (by decide) found]
      rfl

/-- The two header names exclude each other. -/
theorem isContentLength_of_isTransferEncoding {s : Bytes} (h : isTransferEncoding s = true) :
    isContentLength s = false := by
  cases s with
  | nil => rfl
  | cons c s =>
      have t : toLower c = toLower 84 := startsNoCase_head h
      rw [Bool.eq_false_iff]
      intro h
      have l : toLower c = toLower 67 := startsNoCase_head h
      exact absurd (l.symm.trans t) (by decide)

theorem namesChunked_extend {s : Bytes} (b : Bytes) (ho : Open s) :
    namesChunked (s ++ b) = (isTransferEncoding s &&
      ((strstr (ascii "chunked") s).isSome || (strstr (ascii "chunked") b).isSome)) := by
  rw [namesChunked, isContentLength_extend b ho, isTransferEncoding_extend b ho, chunked_extend b ho]
  cases ht : isTransferEncoding s with
  | false => simp
  | true => simp [isContentLength_of_isTransferEncoding ht]

theorem lengthLine_extend {s : Bytes} (b : Bytes) (ho : Open s) (n : Nat)
    (text : isContentLength s = true → (s.drop 15).all isSpace = false) :
    lengthLine n (s ++ b) = lengthLine n s := by
  simp only [lengthLine, isContentLength_extend b ho]
  split
  · next hc =>
      have long : 15 ≤ s.length := startsNoCase_length hc
      have ended : SpaceEnded (s.drop 15) := by
        have := ho.spaceEnded
        rw [← List.take_append_drop 15 s] at this
        exact this.suffix
      rw [List.drop_append_of_le_length long, readSize_extend b ended (text hc)]
  · rfl

/-! ## Bodies that tell an open scan apart -/

private theorem named_not_blank {c : UInt8} {s : Bytes} (space : isSpace c = true) :
    isContentLength (c :: s) = false := by
  rw [Bool.eq_false_iff]
  intro h
  have l : toLower c = toLower 67 := startsNoCase_head h
  simp only [isSpace, toLower] at space l
  grind

/-- Lines of white space only leave the length alone. -/
private theorem lengthLine_blanks {ls : List Bytes} (b : Bytes)
    (blank : ∀ s ∈ ls, s ≠ [] ∧ s.all isSpace = true) (n : Nat) :
    (ls.map (· ++ b)).foldl lengthLine n = n := by
  induction ls generalizing n with
  | nil => rfl
  | cons s ls ih =>
      obtain ⟨nonempty, space⟩ := blank s (by simp)
      obtain ⟨c, s, rfl⟩ := List.exists_cons_of_ne_nil nonempty
      have hc : isSpace c = true := by simp only [List.all_cons, Bool.and_eq_true] at space; exact space.1
      rw [List.map_cons, List.foldl_cons, ih fun s hs => blank s (by simp [hs])]
      rw [lengthLine, List.cons_append, named_not_blank hc]
      rfl

private theorem headerStarts_suffix {u : Bytes} (ho : Open u) :
    ∀ s ∈ headerStarts u, ∃ p, u = p ++ s := by
  refine ho.rec_lines (P := fun u => ∀ s ∈ headerStarts u, ∃ p, u = p ++ s) ?_ ?_
  · rw [← List.append_nil CRLF, headerStarts_blank]
    simp
  · intro l v nonempty _ _ found ih s hs
    rw [headerStarts_line nonempty found] at hs
    rcases List.mem_cons.mp hs with rfl | hs
    · exact ⟨[], rfl⟩
    · obtain ⟨p, hp⟩ := ih s hs
      exact ⟨l ++ (CRLF ++ p), by rw [hp]; simp⟩

private theorem lengthLine_spaces {v : Bytes} (b : Bytes) (hv : Open v) (spaces : v.all isSpace = true)
    (n : Nat) : ((headerStarts v).map (· ++ b)).foldl lengthLine n = n := by
  apply lengthLine_blanks
  intro s hs
  obtain ⟨p, rfl⟩ := headerStarts_suffix hv s hs
  constructor
  · obtain ⟨s', rfl⟩ := (headerStarts_open hv s hs).lastByte
    simp
  · simp only [List.all_append, Bool.and_eq_true] at spaces
    exact spaces.2

/-- A length line with nothing but white space after it takes its value from the body. -/
theorem length_from_body {u : Bytes} (ho : Open u) {d : UInt8} (digit : isDigit d = true) (n : Nat)
    (open_ : ∃ s ∈ headerStarts u, isContentLength s = true ∧ (s.drop 15).all isSpace = true) :
    ((headerStarts u).map (· ++ [d])).foldl lengthLine n = value 10 [d] := by
  refine ho.rec_lines (P := fun u => (∃ s ∈ headerStarts u, isContentLength s = true ∧
    (s.drop 15).all isSpace = true) → ∀ n,
      ((headerStarts u).map (· ++ [d])).foldl lengthLine n = value 10 [d]) ?_ ?_ open_ n
  · rw [← List.append_nil CRLF, headerStarts_blank]
    simp
  · intro l v nonempty hw hv found ih open_ n
    rw [headerStarts_line nonempty found] at open_ ⊢
    rw [List.map_cons, List.foldl_cons]
    obtain ⟨s, hs, named, blank⟩ := open_
    rcases List.mem_cons.mp hs with rfl | later
    · have long : 15 ≤ (l ++ (CRLF ++ v)).length := startsNoCase_length named
      have inLine : 15 ≤ l.length := by
        by_contra short
        refine startsNoCase_take (z := CR) named (by decide) ?_
        change CR ∈ (l ++ (CRLF ++ v)).take 15
        rw [List.take_append, CRLF, List.cons_append, List.take_cons (by omega)]
        simp
      have spaces : v.all isSpace = true := by
        rw [List.drop_append_of_le_length inLine] at blank
        simp only [List.all_append, Bool.and_eq_true] at blank
        exact blank.2.2
      have small : value 10 [d] < 2 ^ 64 := by
        have : d.toNat < 256 := d.toNat_lt
        simp only [value, List.foldl_cons, List.foldl_nil, digitOf, digit, if_true]
        omega
      have read : readSize ([d] ++ []) = some (value 10 [d]) :=
        readSize_digits (by simp) (by simpa using digit) (by simp) small
      have here : lengthLine n (l ++ (CRLF ++ v) ++ [d]) = value 10 [d] := by
        rw [lengthLine, isContentLength_extend _ hw, named, if_pos rfl,
          List.drop_append_of_le_length long, readSize_blank blank]
        exact congrArg (Option.getD · n) read
      rw [here, lengthLine_spaces [d] hv spaces]
    · exact ih ⟨s, later, named, blank⟩ _

/-- A hungry scan of the status line is completed by a body. -/
theorem status_from_body {h : Bytes} (ended : SpaceEnded h) (hungry_ : hungry statusFormat h = true) :
    sscanf statusFormat h = [] ∧ ∃ b, sscanf statusFormat (h ++ b) = [200] := by
  have completes : ∀ k < statusFormat.length,
      sscanf (statusFormat.drop k) ((ascii "HTTP/1.1 200").drop k) = [200] := by decide
  have waits : ∀ k < statusFormat.length, sscanf (statusFormat.drop k) [] = [] := by decide
  obtain ⟨vs, k, inside, resume⟩ := hungry_resume ended hungry_
  have full := resume ((ascii "HTTP/1.1 200").drop k)
  rw [completes k inside] at full
  have one := sscanf_length_le statusFormat (h ++ (ascii "HTTP/1.1 200").drop k)
  rw [full, (by decide : statusFormat.countP (· = .integer true) = 1)] at one
  have none : vs = [] := by
    simp only [List.length_append, List.length_singleton] at one
    exact List.eq_nil_of_length_eq_zero (by omega)
  subst none
  have alone := resume []
  rw [List.append_nil, waits k inside] at alone
  exact ⟨alone, _, full⟩

theorem HeaderSection.spaceEnded {h : Bytes} (hs : HeaderSection h) : SpaceEnded h := by
  obtain ⟨-, p, hp⟩ := strstr_some hs.ends
  rw [hp]
  have last : SpaceEnded blankLine := by
    rintro c ⟨⟩
    decide
  exact SpaceEnded.append (by decide) last

theorem parseHeaders_hasStatus {h : Bytes} {code : Int} (hs : HeaderSection h)
    (sated : hungry statusFormat h = false) (status : sscanf statusFormat h = [code]) (b : Bytes) :
    parseHeaders (h ++ b) = ⟨0, code, ((sectionLines h).map (· ++ b)).foldl lengthLine 0,
      ((sectionLines h).map (· ++ b)).any namesChunked⟩ := by
  rw [parseHeaders_section b hs, sscanf_extend b hs.spaceEnded sated, status]

theorem parseHeaders_noStatus {h : Bytes} (hs : HeaderSection h)
    (sated : hungry statusFormat h = false) (status : ¬ HasStatus h) (b : Bytes) :
    parseHeaders (h ++ b) = ⟨-1, 0, 0, false⟩ := by
  rw [parseHeaders_section b hs, sscanf_extend b hs.spaceEnded sated]
  split
  · next code one => exact absurd ⟨code, one⟩ status
  · rfl

/-- The chunked flag after the loop: a coding line, and the name in the section or the body. -/
theorem any_namesChunked {ls : List Bytes} (b : Bytes) (opened : ∀ s ∈ ls, Open s) :
    (ls.map (· ++ b)).any namesChunked = ls.any fun s => isTransferEncoding s &&
      ((strstr (ascii "chunked") s).isSome || (strstr (ascii "chunked") b).isSome) := by
  induction ls with
  | nil => rfl
  | cons s ls ih =>
      rw [List.map_cons, List.any_cons, List.any_cons, namesChunked_extend b (opened s (by simp)),
        ih fun s hs => opened s (by simp [hs])]

theorem foldl_lengthLine {ls : List Bytes} (b : Bytes) (opened : ∀ s ∈ ls, Open s)
    (text : ∀ s ∈ ls, isContentLength s = true → (s.drop 15).all isSpace = false) (n : Nat) :
    (ls.map (· ++ b)).foldl lengthLine n = ls.foldl lengthLine n := by
  induction ls generalizing n with
  | nil => rfl
  | cons s ls ih =>
      rw [List.map_cons, List.foldl_cons, List.foldl_cons,
        lengthLine_extend b (opened s (by simp)) n (text s (by simp)),
        ih (fun s hs => opened s (by simp [hs])) fun s hs => text s (by simp [hs])]

theorem SelfFramed.of_ignores {h : Bytes} (hs : HeaderSection h)
    (same : ∀ b₁ b₂, parseHeaders (h ++ b₁) = parseHeaders (h ++ b₂)) : SelfFramed h := by
  have sated : hungry statusFormat h = false := by
    by_contra runs
    obtain ⟨alone, b, full⟩ := status_from_body hs.spaceEnded (by simpa using runs)
    have differ := congrArg Headers.ret (same [] b)
    rw [parseHeaders_section _ hs, parseHeaders_section _ hs, List.append_nil, alone, full] at differ
    simp at differ
  refine ⟨sated, ?_, ?_⟩
  · rintro ⟨code, status⟩ s mem named
    by_contra blank
    obtain ⟨line, u, -, found, ho⟩ := hs.firstLine
    have lines : sectionLines h = headerStarts u := by
      simp only [sectionLines, found]
      rfl
    have waiting : ∃ s ∈ headerStarts u, isContentLength s = true ∧ (s.drop 15).all isSpace = true :=
      ⟨s, lines ▸ mem, named, by simpa using blank⟩
    have differ := congrArg Headers.contentLength (same [53] [55])
    simp only [parseHeaders_hasStatus hs sated status, lines,
      length_from_body ho (by decide : isDigit 53 = true) 0 waiting,
      length_from_body ho (by decide : isDigit 55 = true) 0 waiting] at differ
    exact absurd differ (by decide)
  · rintro ⟨code, status⟩ ⟨s, mem, named⟩
    have differ := congrArg Headers.chunked (same (ascii "chunked") [])
    simp only [parseHeaders_hasStatus hs sated status,
      any_namesChunked _ (sectionLines_open hs)] at differ
    have reached : ((sectionLines h).any fun s => isTransferEncoding s &&
        ((strstr (ascii "chunked") s).isSome ||
          (strstr (ascii "chunked") (ascii "chunked")).isSome)) = true :=
      List.any_eq_true.mpr ⟨s, mem, by rw [named, strstr_here (List.prefix_refl _)]; simp⟩
    rw [reached] at differ
    obtain ⟨t, ht, both⟩ := List.any_eq_true.mp differ.symm
    have absent : (strstr (ascii "chunked") []).isSome = false := by decide
    rw [absent, Bool.or_false, Bool.and_eq_true] at both
    exact ⟨t, ht, both⟩

theorem SelfFramed.ignores {h : Bytes} (hs : HeaderSection h) (framed : SelfFramed h) (b : Bytes) :
    parseHeaders (h ++ b) = parseHeaders h := by
  suffices all : ∀ b, parseHeaders (h ++ b) = parseHeaders (h ++ []) by
    have := all b
    rwa [List.append_nil] at this
  intro b
  by_cases status : HasStatus h
  · obtain ⟨code, one⟩ := status
    have opened := sectionLines_open hs
    have text := framed.lengths ⟨code, one⟩
    rw [parseHeaders_hasStatus hs framed.status one, parseHeaders_hasStatus hs framed.status one,
      foldl_lengthLine b opened text, foldl_lengthLine [] opened text, any_namesChunked b opened,
      any_namesChunked [] opened]
    congr 1
    rw [Bool.eq_iff_iff, List.any_eq_true, List.any_eq_true]
    constructor
    · rintro ⟨s, mem, h⟩
      rw [Bool.and_eq_true] at h
      obtain ⟨t, ht, named, inside⟩ := framed.codings ⟨code, one⟩ ⟨s, mem, h.1⟩
      exact ⟨t, ht, by simp [named, inside]⟩
    · rintro ⟨s, mem, h⟩
      have absent : (strstr (ascii "chunked") []).isSome = false := by decide
      rw [absent, Bool.or_false, Bool.and_eq_true] at h
      exact ⟨s, mem, by simp [h.1, h.2]⟩
  · rw [parseHeaders_noStatus hs framed.status status, parseHeaders_noStatus hs framed.status status]

/-- The body has no say in the framing of a response exactly when every scan of the header
section ends inside the section. -/
theorem framing_ignores_body_iff {h : Bytes} (hs : HeaderSection h) :
    (∀ b₁ b₂, parseHeaders (h ++ b₁) = parseHeaders (h ++ b₂)) ↔ SelfFramed h :=
  ⟨SelfFramed.of_ignores hs,
    fun framed b₁ b₂ => (framed.ignores hs b₁).trans (framed.ignores hs b₂).symm⟩

/-- A section of the kind servers send is framed alike whatever follows it. -/
theorem framing_ignores_body_plain :
    SelfFramed (ascii "HTTP/1.1 200 OK\r\nContent-Length: 2\r\n\r\n") ∧
      ∀ b, parseHeaders (ascii "HTTP/1.1 200 OK\r\nContent-Length: 2\r\n\r\n" ++ b) =
        ⟨0, 200, 2, false⟩ := by
  have lines : sectionLines (ascii "HTTP/1.1 200 OK\r\nContent-Length: 2\r\n\r\n") =
      [ascii "Content-Length: 2\r\n\r\n"] := by decide +kernel
  have framed : SelfFramed (ascii "HTTP/1.1 200 OK\r\nContent-Length: 2\r\n\r\n") := by
    refine ⟨by decide, fun _ s mem _ => ?_, fun _ coded => ?_⟩
    · rw [lines, List.mem_singleton] at mem
      subst mem
      decide
    · obtain ⟨s, mem, coding⟩ := coded
      rw [lines, List.mem_singleton] at mem
      subst mem
      exact absurd coding (by decide)
  refine ⟨framed, fun b => ?_⟩
  rw [(framing_ignores_body_iff ⟨by decide, by decide⟩).mpr framed b []]
  decide +kernel

/-- A coding other than `chunked` leaves the search to go on into the body. -/
theorem framing_follows_body :
    parseHeaders (ascii "HTTP/1.1 200 OK\r\nTransfer-Encoding: gzip\r\n\r\n" ++ []) ≠
      parseHeaders (ascii "HTTP/1.1 200 OK\r\nTransfer-Encoding: gzip\r\n\r\n" ++
        ascii "chunked") := by
  decide +kernel

end JustWeather.Http
