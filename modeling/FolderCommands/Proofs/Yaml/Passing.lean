import FolderCommands.Yaml.Scanner

/-!
# Readers do not pass document marks

Three hyphens at the start of a line, with nothing or white space after them, separate documents
whatever stands around them. Each reader of the scanner goes on character by character, and none of
them ever passes such a mark: blank space, comments, plain, quoted and block scalars, anchors, tags
and directives all end in front of it or fail. So what is left after a reader has the same marks.
-/

namespace FolderCommands.Yaml

/-- What a successful sequence has done. -/
theorem exists_of_bind_ok {ε α β : Type} {x : Except ε α} {next : α → Except ε β} {b : β}
    (h : x >>= next = .ok b) : ∃ a, x = .ok a ∧ next a = .ok b := by
  cases x with
  | error fault => cases h
  | ok a => exact ⟨a, rfl, h⟩

theorem exists_of_map_ok {ε α β : Type} {x : Except ε α} {f : α → β} {b : β}
    (h : x.map f = .ok b) : ∃ a, x = .ok a ∧ f a = b := by
  cases x with
  | error fault => cases h
  | ok a => exact ⟨a, rfl, Except.ok.inj h⟩

/-! ## Places and marks -/

/-- Whether a place lies in front of another. -/
def Position.Before (p q : Position) : Prop :=
  p.line < q.line ∨ p.line = q.line ∧ p.column < q.column

theorem Position.Before.trans {p q r : Position} (h : p.Before q) (h' : q.Before r) :
    p.Before r := by
  unfold Position.Before at *
  omega

theorem Position.before_next (p : Position) : p.Before p.next :=
  .inr ⟨rfl, Nat.lt_succ_self _⟩

theorem Position.before_newLine (p : Position) : p.Before p.newLine :=
  .inl (Nat.lt_succ_self _)

/-- What is left of a text after each document mark in it; the first one may be where the text
starts only if that is the start of a line. -/
def marks : Bool → List Char → List (List Char)
  | _, [] => []
  | atStart, c :: cs =>
    if atStart && atMark '-' (c :: cs) then cs.drop 2 :: marks false cs
    else marks (isBreak c) cs

/-- The marks that a cursor has in front of it. -/
def Cursor.marks (c : Cursor) : List (List Char) :=
  Yaml.marks (c.place.column == 0) c.rest

theorem atMark_eq_false {a c : Char} (h : c ≠ a) (cs : List Char) : atMark a (c :: cs) = false := by
  unfold atMark
  split
  · rename_i heq
    cases heq
    simp [h]
  · rfl

theorem ne_hyphen_of_isBreak {c : Char} (h : isBreak c = true) : c ≠ '-' := by
  rintro rfl
  cases h

/-- From one cursor to another, character by character, and past no document mark. -/
inductive Passes : Cursor → Cursor → Prop
  | refl (c : Cursor) : Passes c c
  | char {a : Char} {cs : List Char} {place : Position} {c : Cursor} (ha : isBreak a = false)
      (hmark : place.column = 0 → atMark '-' (a :: cs) = false) (h : Passes ⟨cs, place.next⟩ c) :
      Passes ⟨a :: cs, place⟩ c
  | lineBreak {a : Char} {cs : List Char} {place : Position} {c : Cursor}
      (ha : isBreak a = true) (h : Passes ⟨cs, place.newLine⟩ c) : Passes ⟨a :: cs, place⟩ c

namespace Passes

variable {c c' c'' : Cursor}

theorem trans (h : Passes c c') (h' : Passes c' c'') : Passes c c'' := by
  induction h with
  | refl => exact h'
  | char ha hmark _ ih => exact .char ha hmark (ih h')
  | lineBreak ha _ ih => exact .lineBreak ha (ih h')

theorem marks_eq (h : Passes c c') : c'.marks = c.marks := by
  induction h with
  | refl => rfl
  | @char a cs place c ha hmark _ ih =>
    rw [ih, Cursor.marks, Cursor.marks, marks, if_neg, ha]
    · rfl
    · simpa using hmark
  | @lineBreak a cs place c ha _ ih =>
    rw [ih, Cursor.marks, Cursor.marks, marks, if_neg, ha]
    · rfl
    · simp [atMark_eq_false (ne_hyphen_of_isBreak ha)]

/-- A cursor that has passed a character is further on. -/
theorem eq_or_before (h : Passes c c') : c = c' ∨ c.place.Before c'.place := by
  induction h with
  | refl => exact .inl rfl
  | @char a cs place c _ _ _ ih =>
    rcases ih with rfl | ih
    · exact .inr place.before_next
    · exact .inr (place.before_next.trans ih)
  | @lineBreak a cs place c _ _ ih =>
    rcases ih with rfl | ih
    · exact .inr place.before_newLine
    · exact .inr (place.before_newLine.trans ih)

end Passes

/-! ## Parts of a line -/

/-- From one cursor to another, character by character in the same line. -/
inductive Along : Cursor → Cursor → Prop
  | refl (c : Cursor) : Along c c
  | char {a : Char} {cs : List Char} {place : Position} {c : Cursor} (ha : isBreak a = false)
      (h : Along ⟨cs, place.next⟩ c) : Along ⟨a :: cs, place⟩ c

namespace Along

variable {c c' c'' : Cursor}

theorem trans (h : Along c c') (h' : Along c' c'') : Along c c'' := by
  induction h with
  | refl => exact h'
  | char ha _ ih => exact .char ha (ih h')

theorem column_ne_zero (h : Along c c') (hc : c.place.column ≠ 0) : c'.place.column ≠ 0 := by
  induction h with
  | refl => exact hc
  | char _ _ ih => exact ih (Nat.succ_ne_zero _)

theorem passes (h : Along c c') (hmark : c.place.column = 0 → atMark '-' c.rest = false) :
    Passes c c' := by
  induction h with
  | refl => exact .refl _
  | char ha _ ih => exact .char ha hmark (ih fun hcolumn ↦ nomatch hcolumn)

theorem passes_of_column (h : Along c c') (hc : c.place.column ≠ 0) : Passes c c' :=
  h.passes fun hcolumn ↦ absurd hcolumn hc

end Along

theorem skip_cons (a : Char) (cs : List Char) (place : Position) (n : Nat) :
    (⟨a :: cs, place⟩ : Cursor).skip (n + 1) = (⟨cs, place.next⟩ : Cursor).skip n := by
  simp [Cursor.skip, Position.next, Nat.add_comm, Nat.add_left_comm]

theorem along_skip (c : Cursor) (n : Nat) (hn : n ≤ c.rest.length)
    (h : ∀ a ∈ c.rest.take n, isBreak a = false) : Along c (c.skip n) := by
  induction n generalizing c with
  | zero => exact .refl c
  | succ n ih =>
    obtain ⟨rest, place⟩ := c
    cases rest with
    | nil => cases hn
    | cons a rest =>
      obtain ⟨ha, hrest⟩ := List.forall_mem_cons.1 h
      rw [skip_cons]
      exact .char ha (ih _ (Nat.le_of_succ_le_succ hn) hrest)

theorem along_one {a : Char} {cs : List Char} (place : Position) (ha : isBreak a = false) :
    Along ⟨a :: cs, place⟩ ((⟨a :: cs, place⟩ : Cursor).skip 1) :=
  .char ha (.refl _)

theorem along_two {a b : Char} {cs : List Char} (place : Position) (ha : isBreak a = false)
    (hb : isBreak b = false) :
    Along ⟨a :: b :: cs, place⟩ ((⟨a :: b :: cs, place⟩ : Cursor).skip 2) :=
  .char ha (.char hb (.refl _))

theorem along_skipWhile (c : Cursor) {p : Char → Bool}
    (hp : ∀ a, p a = true → isBreak a = false) : Along c (c.skipWhile p) := by
  have hprefix := List.takeWhile_prefix p (l := c.rest)
  apply along_skip c _ hprefix.length_le
  intro a ha
  rw [← List.prefix_iff_eq_take.1 hprefix] at ha
  exact hp a (List.all_eq_true.1 List.all_takeWhile a ha)

theorem passes_skipBreak (c : Cursor) (h : atBreak c.rest = true) (hrest : c.rest ≠ []) :
    Passes c c.skipBreak := by
  obtain ⟨rest, place⟩ := c
  cases rest with
  | nil => exact absurd rfl hrest
  | cons a rest => exact .lineBreak h (.refl _)

theorem eq_of_isBreak {a : Char} (h : isBreak a = true) :
    a = '\n' ∨ a = '\u2028' ∨ a = '\u2029' := by
  simpa [isBreak, or_assoc] using h

/-- What holds of no break tells a character from one. -/
theorem isBreak_eq_false {p : Char → Bool} (hp : [ '\n', '\u2028', '\u2029'].all (!p ·) = true)
    {a : Char} (h : p a = true) : isBreak a = false := by
  cases hbreak : isBreak a with
  | false => rfl
  | true =>
    rcases eq_of_isBreak hbreak with rfl | rfl | rfl <;> simp [h] at hp

theorem isBreak_of_isWord {a : Char} (h : isWord a = true) : isBreak a = false :=
  isBreak_eq_false (by decide) h

theorem isBreak_of_isGap {a : Char} (h : isGap a = true) : isBreak a = false :=
  isBreak_eq_false (by decide) h

theorem ne_hyphen_of_isGap {a : Char} (h : isGap a = true) : a ≠ '-' := by
  rintro rfl
  cases h

theorem isBreak_of_not {a : Char} (h : (!isBreak a) = true) : isBreak a = false := by
  simpa using h

/-- A character that cannot start a mark is passed anywhere. -/
theorem Passes.other {a : Char} {cs : List Char} {place : Position} {c : Cursor}
    (ha : isBreak a = false) (hne : a ≠ '-') (h : Passes ⟨cs, place.next⟩ c) :
    Passes ⟨a :: cs, place⟩ c :=
  .char ha (fun _ ↦ atMark_eq_false hne cs) h

/-- A character is passed in the middle of a line. -/
theorem Passes.inner {a : Char} {cs : List Char} {place : Position} {c : Cursor}
    (ha : isBreak a = false) (hplace : place.column ≠ 0) (h : Passes ⟨cs, place.next⟩ c) :
    Passes ⟨a :: cs, place⟩ c :=
  .char ha (fun hcolumn ↦ absurd hcolumn hplace) h

/-! ## Scalars -/

/-- Blanks and breaks are passed alike. -/
theorem Passes.blank {a : Char} {cs : List Char} {place : Position} {c : Cursor}
    (ha : isGap a = true) (h : Passes ⟨cs, place.next⟩ c) : Passes ⟨a :: cs, place⟩ c :=
  .other (isBreak_of_isGap ha) (ne_hyphen_of_isGap ha) h

theorem atMark_of_not_document {place : Position} {cs : List Char}
    (h : ¬ (place.column = 0 && atDocumentMark cs) = true) (hplace : place.column = 0) :
    atMark '-' cs = false := by
  simp only [hplace, decide_true, Bool.true_and, atDocumentMark, Bool.or_eq_true, not_or,
    Bool.not_eq_true] at h
  exact h.1

theorem readPlain_passes {margin : Nat} {inFlow : Bool} {cs : List Char} {place : Position}
    {gap : Gap} {text : PlainText} (h : readPlain margin inFlow cs place gap = .ok text) :
    Passes ⟨cs, place⟩ text.cursor := by
  induction cs generalizing place gap text with
  | nil =>
    cases h
    exact .refl _
  | cons a cs ih =>
    rw [readPlain] at h
    split at h
    · rename_i hgap
      split at h
      · cases h
      · exact .blank hgap (ih h)
    rename_i hgap
    split at h
    · rename_i hbreak
      exact .lineBreak hbreak (ih h)
    rename_i hbreak
    split at h
    · cases h
      exact .refl _
    rename_i hend
    split at h
    · cases h
    split at h
    · cases h
      exact .refl _
    · obtain ⟨inner, hinner, rfl⟩ := exists_of_map_ok h
      have hrest := ih hinner
      refine .char (by simpa using hbreak) (atMark_of_not_document fun hmark ↦ ?_) hrest
      exact hend (by rw [endsBefore, hmark]; rfl)

theorem readSingle_passes {cs : List Char} {place : Position} {gap : Gap} {text : ScalarText}
    (h : readSingle cs place gap = .ok text) : Passes ⟨cs, place⟩ text.cursor := by
  fun_induction readSingle cs place gap generalizing text with
  | case1 => cases h
  | case2 a cs place gap hgap ih => exact .blank hgap (ih h)
  | case3 a cs place gap hgap hbreak ih => exact .lineBreak hbreak (ih h)
  | case4 => cases h
  | case5 place gap rest hgap hbreak hmark ih =>
    obtain ⟨inner, hinner, rfl⟩ := exists_of_map_ok h
    have hrest := ih hinner
    exact .other rfl (by decide) (.other rfl (by decide) hrest)
  | case6 cs place gap hgap hbreak hmark hquote =>
    cases h
    exact .other rfl (by decide) (.refl _)
  | case7 a cs place gap hgap hbreak hmark hquote ih =>
    obtain ⟨inner, hinner, rfl⟩ := exists_of_map_ok h
    have hrest := ih hinner
    exact .char (by simpa using hbreak) (atMark_of_not_document hmark) hrest

theorem isBreak_of_hexValue? {a : Char} {n : Nat} (h : hexValue? a = some n) :
    isBreak a = false :=
  isBreak_eq_false (p := fun a ↦ (hexValue? a).isSome) (by decide) (by rw [h]; rfl)

theorem ne_hyphen_of_hexValue? {a : Char} {n : Nat} (h : hexValue? a = some n) : a ≠ '-' := by
  rintro rfl
  have hnone : hexValue? '-' = none := by decide
  rw [hnone] at h
  cases h

theorem readDouble_passes {cs : List Char} {place : Position} {gap : Gap}
    {number : Option (Nat × Nat)} {text : ScalarText}
    (h : readDouble cs place gap number = .ok text) : Passes ⟨cs, place⟩ text.cursor := by
  fun_induction readDouble cs place gap number generalizing text with
  | case1 | case2 | case4 | case8 | case10 | case14 => cases h
  -- The digits of an escape by number.
  | case3 a cs place _ _ _ _ hdigit =>
    rename_i ih
    exact .other (isBreak_of_hexValue? hdigit) (ne_hyphen_of_hexValue? hdigit) (ih h)
  | case5 a cs place _ _ _ _ hdigit =>
    rename_i ih
    obtain ⟨inner, hinner, rfl⟩ := exists_of_map_ok h
    have hrest := ih hinner
    exact .other (isBreak_of_hexValue? hdigit) (ne_hyphen_of_hexValue? hdigit) hrest
  | case6 a cs place gap hgap ih => exact .blank hgap (ih h)
  | case7 a cs place gap _ hbreak ih => exact .lineBreak hbreak (ih h)
  | case9 =>
    cases h
    exact .other rfl (by decide) (.refl _)
  -- Escapes of a break, of a character and by number.
  | case11 place gap a rest hbreak _ _ _ _ ih =>
    obtain ⟨inner, hinner, rfl⟩ := exists_of_map_ok h
    have hrest := ih hinner
    exact .other rfl (by decide) (.lineBreak hbreak hrest)
  | case12 _ _ _ _ hbreak _ _ _ _ _ _ ih | case13 _ _ _ _ hbreak _ _ _ _ _ _ _ ih =>
    obtain ⟨inner, hinner, rfl⟩ := exists_of_map_ok h
    have hrest := ih hinner
    exact .other rfl (by decide) (.inner (by simpa using hbreak) (Nat.succ_ne_zero _) hrest)
  | case15 a cs place gap _ hbreak hmark _ _ ih =>
    obtain ⟨inner, hinner, rfl⟩ := exists_of_map_ok h
    have hrest := ih hinner
    exact .char (by simpa using hbreak) (atMark_of_not_document hmark) hrest

/-! ## Block scalars -/

theorem settledIndent_ne_zero (margin : Nat) (s : BlockState) (column : Nat) :
    s.settledIndent margin column ≠ 0 := by
  rw [BlockState.settledIndent]
  split
  · omega
  · assumption

/-- Only blanks and breaks are passed at the start of a line. -/
theorem readBlockLines_passes {header : BlockHeader} {margin : Nat} {cs : List Char}
    {place : Position} {s : BlockState} {text : ScalarText}
    (h : readBlockLines header margin cs place s = .ok text)
    (hline : s.inLine = true → place.column ≠ 0) : Passes ⟨cs, place⟩ text.cursor := by
  fun_induction readBlockLines header margin cs place s generalizing text with
  | case1 | case8 =>
    cases h
    exact .refl _
  | case2 a cs place s _ hbreak ih => exact .lineBreak hbreak (ih h (by simp))
  | case3 a cs place s hinLine hbreak ih =>
    obtain ⟨inner, hinner, rfl⟩ := exists_of_map_ok h
    have hrest := ih hinner fun _ ↦ Nat.succ_ne_zero _
    exact .inner (by simpa using hbreak) (hline hinLine) hrest
  | case4 a cs place s _ hblank ih =>
    simp only [Bool.and_eq_true, decide_eq_true_eq] at hblank
    obtain ⟨-, rfl⟩ := hblank
    exact .other rfl (by decide) (ih h fun _ ↦ Nat.succ_ne_zero _)
  | case5 => cases h
  | case6 a cs place s hinLine _ _ hbreak ih =>
    exact .lineBreak hbreak (ih h fun hinLine' ↦ absurd hinLine' hinLine)
  | case7 a cs place s _ _ _ hbreak =>
    rename_i hcolumn ih
    obtain ⟨inner, hinner, rfl⟩ := exists_of_map_ok h
    have hrest := ih hinner fun _ ↦ Nat.succ_ne_zero _
    have hplace : place.column ≠ 0 := hcolumn ▸ settledIndent_ne_zero margin s place.column
    exact .inner (by simpa using hbreak) hplace hrest

theorem isBreak_of_chomping? {a : Char} (h : (chomping? a).isSome = true) : isBreak a = false :=
  isBreak_eq_false (p := fun a ↦ (chomping? a).isSome) (by decide) h

theorem isBreak_of_isDigit {a : Char} (h : a.isDigit = true) : isBreak a = false :=
  isBreak_eq_false (by decide) h

theorem readIndicators_along {folds : Bool} {c c' : Cursor} {header : BlockHeader}
    (h : readIndicators folds c = .ok (header, c')) : Along c c' := by
  obtain ⟨rest, place⟩ := c
  simp only [readIndicators] at h
  split at h
  · cases h
    exact .refl _
  · rename_i a rest
    split at h
    · rename_i chomping hchomping
      have ha := isBreak_of_chomping? (by rw [hchomping]; rfl)
      split at h
      · rename_i d cs
        split at h
        · cases h
        split at h
        · rename_i hdigit
          cases h
          exact along_two place ha (isBreak_of_isDigit hdigit)
        · cases h
          exact along_one place ha
      · cases h
        exact along_one place ha
    · split at h
      · cases h
      split at h
      · rename_i hdigit
        have ha := isBreak_of_isDigit hdigit
        split at h
        · rename_i chomping hchomping
          cases h
          cases rest with
          | nil => cases hchomping
          | cons d cs =>
            have hd : chomping? d = some chomping := hchomping
            exact along_two place ha (isBreak_of_chomping? (by rw [hd]; rfl))
        · cases h
          exact along_one place ha
      · cases h
        exact .refl _

/-- White space, a comment and the break at the end of a line. -/
theorem passes_lineEnd {c c' c'' : Cursor} (hc : c.place.column ≠ 0)
    (hgap : c' = c.skipWhile isGap)
    (hcomment : c'' = if c'.rest.head? = some '#' then c'.skipWhile (!isBreak ·) else c')
    (h : atBreak c''.rest = true) :
    Passes c (if c''.rest.isEmpty then c'' else c''.skipBreak) := by
  have hfirst : Along c c' := hgap ▸ along_skipWhile c fun _ ↦ isBreak_of_isGap
  have hsecond : Along c' c'' := by
    rw [hcomment]
    split
    · exact along_skipWhile c' fun _ ↦ isBreak_of_not
    · exact .refl _
  refine ((hfirst.trans hsecond).passes_of_column hc).trans ?_
  split
  · exact .refl _
  · rename_i hrest
    exact passes_skipBreak c'' h (by simpa using hrest)

theorem readBlockHeader_passes {folds : Bool} {c c' : Cursor} {header : BlockHeader}
    (h : readBlockHeader folds c = .ok (header, c')) (hc : c.place.column ≠ 0) : Passes c c' := by
  rw [readBlockHeader] at h
  split at h
  · cases h
  rename_i header' middle hindicators
  have hfirst := readIndicators_along hindicators
  dsimp only at h
  generalize hcomment : (if (middle.skipWhile isGap).rest.head? = some '#' then
    (middle.skipWhile isGap).skipWhile (!isBreak ·) else middle.skipWhile isGap) = last at h
  split at h
  · cases h
  rename_i hbreak
  cases h
  exact (hfirst.passes_of_column hc).trans (passes_lineEnd (hfirst.column_ne_zero hc) rfl
    hcomment.symm (by simpa using hbreak))

theorem readBlock_passes {folds : Bool} {margin : Nat} {c : Cursor} {text : ScalarText}
    (h : readBlock folds margin c = .ok text) (hc : c.place.column ≠ 0) : Passes c text.cursor := by
  rw [readBlock] at h
  split at h
  · cases h
  · rename_i hheader
    exact (readBlockHeader_passes hheader hc).trans (readBlockLines_passes h (by simp))

/-! ## Anchors, tags and directives -/

theorem readAnchor_along {c c' : Cursor} {name : String} (h : readAnchor c = .ok (name, c')) :
    Along c c' := by
  simp only [readAnchor] at h
  split at h
  · cases h
  · cases h
    exact along_skipWhile c fun _ ↦ isBreak_of_isWord

theorem isBreak_of_isUriChar {verbatim : Bool} {a : Char} (h : isUriChar verbatim a = true) :
    isBreak a = false :=
  isBreak_eq_false (by cases verbatim <;> decide) h

/-- As many characters as a tag says have been read, in its line. -/
theorem readUri_along {verbatim : Bool} {cs : List Char} {missing : Nat} {uri : Uri} {count : Nat}
    (h : readUri verbatim cs missing = .ok (uri, count)) (place : Position) :
    Along ⟨cs, place⟩ ((⟨cs, place⟩ : Cursor).skip count) := by
  fun_induction readUri verbatim cs missing generalizing uri count place with
  | case1 a b cs missing high low hb ha =>
    rename_i ih
    obtain ⟨⟨rest, n⟩, hrest, hcount⟩ := exists_of_map_ok h
    cases hcount
    rw [skip_cons, skip_cons, skip_cons]
    exact .char rfl (.char (isBreak_of_hexValue? ha) (.char (isBreak_of_hexValue? hb)
      (ih hrest place.next.next.next)))
  | case2 | case3 | case4 | case7 => cases h
  | case5 a cs missing _ _ ha ih =>
    obtain ⟨⟨rest, n⟩, hrest, hcount⟩ := exists_of_map_ok h
    cases hcount
    rw [skip_cons]
    exact .char (isBreak_of_isUriChar ha) (ih hrest place.next)
  | case6 | case8 =>
    cases h
    exact .refl _

theorem readTagText_along {verbatim mayBeEmpty : Bool} {c c' : Cursor} {uri : Uri}
    (h : readTagText verbatim mayBeEmpty c = .ok (uri, c')) : Along c c' := by
  rw [readTagText] at h
  split at h
  · cases h
  rename_i uri' count huri
  split at h
  · cases h
  · cases h
    exact readUri_along huri c.place

theorem along_of_head? {c : Cursor} {a : Char} (h : c.rest.head? = some a)
    (ha : isBreak a = false) : Along c (c.skip 1) := by
  obtain ⟨rest, place⟩ := c
  cases rest with
  | nil => cases h
  | cons b cs =>
    cases h
    exact along_one place ha

theorem exists_of_readHandle {c c' : Cursor} {handle : List Char}
    (h : readHandle c = .ok (handle, c')) :
    ∃ cs, c.rest = '!' :: cs ∧ Along ⟨cs, c.place.next⟩ c' := by
  obtain ⟨rest, place⟩ := c
  simp only [readHandle] at h
  split at h
  · rename_i cs
    have hword : Along ⟨cs, place.next⟩
        ((⟨'!' :: cs, place⟩ : Cursor).skip (1 + (cs.takeWhile isWord).length)) := by
      rw [Nat.add_comm, skip_cons]
      exact along_skipWhile ⟨cs, place.next⟩ fun _ ↦ isBreak_of_isWord
    refine ⟨cs, rfl, ?_⟩
    split at h
    · rename_i hmark
      cases h
      exact hword.trans (along_of_head? hmark rfl)
    · cases h
      exact hword
  · cases h

theorem readHandle_along {c c' : Cursor} {handle : List Char}
    (h : readHandle c = .ok (handle, c')) : Along c c' := by
  obtain ⟨cs, hcs, hword⟩ := exists_of_readHandle h
  obtain ⟨rest, place⟩ := c
  cases hcs
  exact .char rfl hword

theorem readTagParts_along {cs : List Char} {place : Position} {c : Cursor} {t : Token}
    (h : readTagParts ⟨'!' :: cs, place⟩ = .ok (t, c)) : Along ⟨cs, place.next⟩ c := by
  rw [readTagParts] at h
  split at h
  · rename_i rest hrest
    cases hrest
    obtain ⟨⟨uri, c'⟩, htext, hclose⟩ := exists_of_bind_ok h
    dsimp only at hclose
    split at hclose
    · rename_i hmark
      cases hclose
      rw [skip_cons] at htext
      exact ((along_one place.next rfl).trans (readTagText_along htext)).trans
        (along_of_head? hmark rfl)
    · cases hclose
  · obtain ⟨⟨handle, c'⟩, hhandle, hsuffix⟩ := exists_of_bind_ok h
    obtain ⟨cs', hcs, hfirst⟩ := exists_of_readHandle hhandle
    cases hcs
    dsimp only at hsuffix
    split at hsuffix
    all_goals
      obtain ⟨⟨uri, c''⟩, htext, hlast⟩ := exists_of_bind_ok hsuffix
      cases hlast
      exact hfirst.trans (readTagText_along htext)

/-- A tag is read in its line. -/
theorem readTag_along {inFlow : Bool} {cs : List Char} {place : Position} {c : Cursor} {t : Token}
    (h : readTag inFlow ⟨'!' :: cs, place⟩ = .ok (t, c)) : Along ⟨cs, place.next⟩ c := by
  obtain ⟨⟨t', c'⟩, hparts, hend⟩ := exists_of_bind_ok h
  dsimp only at hend
  split at hend
  · cases hend
    exact readTagParts_along hparts
  · cases hend

theorem readVersionNumber_along {c c' : Cursor} {n : Nat}
    (h : readVersionNumber c = .ok (n, c')) : Along c c' := by
  simp only [readVersionNumber] at h
  split at h
  · cases h
  · cases h
    exact along_skipWhile c fun _ ↦ isBreak_of_isDigit

theorem along_skipGap (c : Cursor) : Along c (c.skipWhile isGap) :=
  along_skipWhile c fun _ ↦ isBreak_of_isGap

theorem readVersion_along {c c' : Cursor} {t : Token} (h : readVersion c = .ok (t, c')) :
    Along c c' := by
  obtain ⟨⟨major, middle⟩, hmajor, hrest⟩ := exists_of_bind_ok h
  dsimp only at hrest
  split at hrest
  · cases hrest
  rename_i hdot
  obtain ⟨⟨minor, last⟩, hminor, hlast⟩ := exists_of_bind_ok hrest
  cases hlast
  have hpoint : Along middle (middle.skip 1) := along_of_head? (by simpa using hdot) rfl
  exact (((along_skipGap c).trans (readVersionNumber_along hmajor)).trans hpoint).trans
    (readVersionNumber_along hminor)

theorem readTagDirective_along {c c' : Cursor} {t : Token}
    (h : readTagDirective c = .ok (t, c')) : Along c c' := by
  obtain ⟨⟨handle, middle⟩, hhandle, hrest⟩ := exists_of_bind_ok h
  dsimp only at hrest
  split at hrest
  · cases hrest
  split at hrest
  · cases hrest
  obtain ⟨⟨uri, last⟩, htext, hlast⟩ := exists_of_bind_ok hrest
  dsimp only at hlast
  split at hlast
  · cases hlast
    exact ((((along_skipGap c).trans (readHandle_along hhandle))).trans
      (along_skipGap middle)).trans (readTagText_along htext)
  · cases hlast

/-- A directive is read with the rest of its line. -/
theorem readDirective_passes {c c' : Cursor} {t : Token} (h : readDirective c = .ok (t, c'))
    (hc : c.place.column ≠ 0) : Passes c c' := by
  have hname : Along c (c.skip (c.rest.takeWhile isWord).length) :=
    along_skipWhile c fun _ ↦ isBreak_of_isWord
  simp only [readDirective] at h
  split at h
  · cases h
  -- What follows the name is read in one of two ways, and then the line must be over.
  have hline {t' : Token} {middle last : Cursor}
      (hparts : Along (c.skip (c.rest.takeWhile isWord).length) middle)
      (hlast : last = if (middle.skipWhile isGap).rest.head? = some '#' then
        (middle.skipWhile isGap).skipWhile (!isBreak ·) else middle.skipWhile isGap)
      (hend : (if (!atBreak last.rest) = true then .error Fault.badDirective
        else .ok (t', if last.rest.isEmpty then last else last.skipBreak)) =
          Except.ok (t, c')) : Passes c c' := by
    split at hend
    · cases hend
    rename_i hbreak
    cases hend
    have hall := hname.trans hparts
    exact (hall.passes_of_column hc).trans
      (passes_lineEnd (hall.column_ne_zero hc) rfl hlast (by simpa using hbreak))
  split at h
  · obtain ⟨⟨t', middle⟩, hversion, hend⟩ := exists_of_bind_ok h
    exact hline (readVersion_along hversion) rfl hend
  split at h
  · obtain ⟨⟨t', middle⟩, htag, hend⟩ := exists_of_bind_ok h
    exact hline (readTagDirective_along htag) rfl hend
  · cases h

/-! ## Between tokens -/

theorem skipBlank_passes (inFlow : Bool) (cs : List Char) (place : Position)
    (keyAllowed inComment : Bool) (hcomment : inComment = true → place.column ≠ 0) :
    Passes ⟨cs, place⟩ (Scanner.skipBlank inFlow cs place keyAllowed inComment).1 := by
  fun_induction Scanner.skipBlank inFlow cs place keyAllowed inComment with
  | case1 | case7 => exact .refl _
  | case2 _ _ _ _ _ hbreak ih => exact .lineBreak hbreak (ih (by simp))
  | case3 _ _ _ _ hbreak ih =>
    exact .inner (by simpa using hbreak) (hcomment rfl) (ih fun _ ↦ Nat.succ_ne_zero _)
  | case4 a _ _ _ _ hbreak _ hblank ih =>
    refine .other (by simpa using hbreak) ?_ (ih (by simp))
    rintro rfl
    cases hblank
  | case5 _ _ _ _ _ _ _ ih => exact .other rfl (by decide) (ih fun _ ↦ Nat.succ_ne_zero _)
  | case6 a _ _ _ _ hbreak _ _ _ hmark ih =>
    refine .other (by simpa using hbreak) ?_ (ih (by simp))
    rintro rfl
    cases hmark

end FolderCommands.Yaml
