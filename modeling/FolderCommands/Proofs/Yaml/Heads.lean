import FolderCommands.Proofs.Names
import FolderCommands.Proofs.Yaml.Words

/-!
# Lines that begin with a string

The lines of a manifest begin with a key of the catalog or with the hyphens of a separator. A plain
scalar that begins there is a string however it goes on, and nothing but a plain scalar or a
document mark can begin there. Each reader that ends in another line ends in front of such a place
or inside the line.
-/

namespace FolderCommands

/-- The keys that the lines of a manifest may have. -/
def manifestKeys : List String :=
  "command_set" :: "command" :: CommandSet.every.flatMap fun set ↦
    set.commands.flatMap (·.attributes)

namespace Yaml

/-! ## Strings however they go on -/

/-- Whether white space is a visible character to YAML. -/
def isVisibleBlank (c : Char) : Bool :=
  Text.isBlank c && !isGap c && !isBreak c

/-- Whether a text starts with a key, with two hyphens or with visible white space. -/
def opensString (cs : List Char) : Bool :=
  manifestKeys.any (·.toList.isPrefixOf cs) || ['-', '-'].isPrefixOf cs ||
    cs.head?.any isVisibleBlank

/-- Whether every plain scalar that starts with a word is a string. -/
def IsFirm (word : List Char) : Prop :=
  ∀ more, Scalar.resolvePlain (String.ofList (word ++ more)) =
    .ok (.string (String.ofList (word ++ more)))

theorem contains_eq_false {ts : List String} {word : List Char}
    (h : ∀ t ∈ ts, word.isPrefixOf t.toList = false) (more : List Char) :
    ts.contains (String.ofList (word ++ more)) = false := by
  refine Bool.eq_false_iff.2 fun hmem ↦ ?_
  have hnot := h _ (List.contains_iff_mem.1 hmem)
  rw [String.toList_ofList, List.isPrefixOf_iff_prefix.2 (List.prefix_append word more)] at hnot
  cases hnot

/-- The words that stand for null and the truth values. -/
def meaningfulWords : List String :=
  ["null", "Null", "NULL", "~", "true", "True", "TRUE", "false", "False", "FALSE"]

/-- A word that starts like no number and is the start of no word with a meaning is firm. -/
theorem isFirm_of_opensNumber {c : Char} {word : List Char} (hc : Scalar.opensNumber c = false)
    (h : ∀ t ∈ meaningfulWords, (c :: word).isPrefixOf t.toList = false) : IsFirm (c :: word) := by
  intro more
  have hother {ts : List String} (hts : ∀ t ∈ ts, t ∈ meaningfulWords) :
      ts.contains (String.ofList (c :: word ++ more)) = false :=
    contains_eq_false (fun t ht ↦ h t (hts t ht)) more
  have hbool : Scalar.bool? (String.ofList (c :: word ++ more)) = none := by
    rw [Scalar.bool?, hother (by decide), hother (by decide)]
    rfl
  exact Scalar.resolvePlain_of_opensNumber hc (hother (by decide)) hbool

theorem isFirm_of_mem {key : String} (h : key ∈ manifestKeys) : IsFirm key.toList := by
  have hall : ∀ key ∈ manifestKeys, key.toList.head?.any (·.isAlpha) = true ∧
      ∀ t ∈ meaningfulWords, key.toList.isPrefixOf t.toList = false := by decide +kernel
  obtain ⟨hfirst, hwords⟩ := hall key h
  cases hkey : key.toList with
  | nil =>
    rw [hkey] at hfirst
    cases hfirst
  | cons c word =>
    rw [hkey] at hfirst hwords
    exact isFirm_of_opensNumber (Scalar.opensNumber_of_isAlpha hfirst) hwords

theorem isFirm_of_isVisibleBlank {c : Char} (h : isVisibleBlank c = true) : IsFirm [c] := by
  have hblank : Text.isBlank c = true := by
    simp only [isVisibleBlank, Bool.and_eq_true] at h
    exact h.1.1
  have hother {d : Char} (hd : Text.isBlank d = false) : c ≠ d := by
    rintro rfl
    rw [hblank] at hd
    cases hd
  refine isFirm_of_opensNumber ?_ fun t ht ↦ ?_
  · have hdigit : c.isDigit = false := by
      refine Bool.eq_false_iff.2 fun hdigit ↦ ?_
      rw [isDigit_iff] at hdigit
      simp only [Text.isBlank, Bool.or_eq_true, Bool.and_eq_true, decide_eq_true_eq,
        beq_iff_eq] at hblank
      omega
    simp [Scalar.opensNumber, hdigit, hother (d := '+') (by decide),
      hother (d := '-') (by decide), hother (d := '.') (by decide)]
  · have hall : ∀ t ∈ meaningfulWords, t.toList.head?.any (!Text.isBlank ·) = true := by decide
    have hfirst := hall t ht
    cases htext : t.toList with
    | nil => rfl
    | cons d ds =>
      rw [htext] at hfirst
      have hnot : Text.isBlank d = false := by simpa using hfirst
      rw [List.isPrefixOf, beq_false_of_ne (hother hnot), Bool.false_and]

/-- A second hyphen is the start of no number. -/
theorem isFirm_hyphens : IsFirm ['-', '-'] := by
  intro more
  have hother {ts : List String} (hts : ∀ t ∈ ts, ['-', '-'].isPrefixOf t.toList = false) :
      ts.contains (String.ofList ('-' :: '-' :: more)) = false := contains_eq_false hts more
  have hnot {ts : List String} (hts : ∀ t ∈ ts, ['-', '-'].isPrefixOf t.toList = false) :
      ¬ ts.contains (String.ofList ('-' :: '-' :: more)) = true := Bool.eq_false_iff.1 (hother hts)
  have hbool : Scalar.bool? (String.ofList ('-' :: '-' :: more)) = none := by
    rw [Scalar.bool?, hother (by decide), hother (by decide)]
    rfl
  have hint : Scalar.int? ('-' :: '-' :: more) = none := by
    have hdigits : Scalar.digits? 10 ('-' :: more) = none := Scalar.digits?_eq_none rfl more
    calc Scalar.int? ('-' :: '-' :: more)
        = (Scalar.digits? 10 ('-' :: more)).map fun n ↦ -(n : Int) := rfl
      _ = none := by rw [hdigits]; rfl
  have hfloat : Scalar.float? (String.ofList ('-' :: '-' :: more)) = none := by
    have hdecimal : Scalar.decimal? true ('-' :: more) = none := by
      simp [Scalar.decimal?, Scalar.digits?, show ('-').isDigit = false from rfl]
    simp only [Scalar.float?, String.toList_ofList, Scalar.sign, decide_true]
    rw [if_neg, if_neg (hnot (by decide)), if_neg (hnot (by decide)), hdecimal]
    split
    · rename_i heq
      cases heq
    · exact hnot (by decide)
  have hzero : Scalar.hasLeadingZero ('-' :: '-' :: more) = false := rfl
  rw [List.cons_append, List.cons_append, List.nil_append, Scalar.resolvePlain, Scalar.isNull,
    hother (by decide), hbool, if_neg (by simp), Scalar.number?, String.toList_ofList, hint, hzero,
    hfloat]
  rfl

/-! ## What may stand where -/

variable {a : Char} {cs : List Char}

/-- A text that starts with a string starts with a key, two hyphens or visible white space. -/
theorem exists_of_opensString (h : opensString (a :: cs) = true) :
    (∃ key ∈ manifestKeys, ∃ rest, a :: cs = key.toList ++ rest) ∨
      (a = '-' ∧ ∃ rest, cs = '-' :: rest) ∨ isVisibleBlank a = true := by
  simp only [opensString, Bool.or_eq_true, List.any_eq_true, List.isPrefixOf_iff_prefix,
    List.head?_cons, Option.any_some, List.cons_prefix_cons] at h
  rcases h with (⟨key, hkey, rest, hrest⟩ | ⟨rfl, rest, hrest⟩) | h
  · exact .inl ⟨key, hkey, rest, hrest.symm⟩
  · exact .inr (.inl ⟨rfl, rest, hrest.symm⟩)
  · exact .inr (.inr h)

/-- A key is a word that starts with a letter. -/
theorem exists_of_mem_manifestKeys {key : String} (h : key ∈ manifestKeys) :
    ∃ c word, key.toList = c :: word ∧ c.isAlpha = true ∧ ∀ d ∈ c :: word, isWord d = true := by
  have hall : ∀ key ∈ manifestKeys, key.toList.head?.any (·.isAlpha) = true ∧
      key.toList.all isWord = true := by decide +kernel
  obtain ⟨hfirst, hword⟩ := hall key h
  cases hkey : key.toList with
  | nil =>
    rw [hkey] at hfirst
    cases hfirst
  | cons c word =>
    rw [hkey] at hfirst hword
    exact ⟨c, word, rfl, hfirst, List.all_eq_true.1 hword⟩

/-- A plain scalar that starts with a string is one. -/
theorem resolvePlain_of_opensString {margin : Nat} {inFlow : Bool} {place : Position}
    {text : PlainText} (hopens : opensString (a :: cs) = true)
    (hstart : Scanner.startsPlain inFlow a cs = true)
    (hmark : ¬ (place.column = 0 && atDocumentMark (a :: cs)) = true)
    (h : readPlain margin inFlow (a :: cs) place .none = .ok text) :
    Scalar.resolvePlain (String.ofList text.text) = .ok (.string (String.ofList text.text)) := by
  rcases exists_of_opensString hopens with ⟨key, hkey, rest, hcs⟩ | ⟨rfl, rest, rfl⟩ | hblank
  · obtain ⟨c, word, hchars, hc, hword⟩ := exists_of_mem_manifestKeys hkey
    have hne : c ≠ '-' := Scalar.ne_of_isAlpha hc (by decide)
    rw [hcs, hchars, readPlain_word hword fun _ ↦ by simpa using hne] at h
    obtain ⟨inner, -, rfl⟩ := exists_of_map_ok h
    exact hchars ▸ isFirm_of_mem hkey inner.text
  · obtain ⟨inner, hinner, rfl⟩ := Scanner.exists_of_readPlain hstart hmark h
    have hsecond : readPlain margin inFlow (['-'] ++ rest) place.next .none =
        (readPlain margin inFlow rest (place.next.along 1) .none).map fun s ↦
          { s with text := ['-'] ++ s.text } :=
      readPlain_word (by simp [isWord]) fun hcolumn ↦ nomatch hcolumn
    rw [List.singleton_append, hinner] at hsecond
    obtain ⟨last, -, rfl⟩ := exists_of_map_ok hsecond.symm
    exact isFirm_hyphens last.text
  · obtain ⟨inner, -, rfl⟩ := Scanner.exists_of_readPlain hstart hmark h
    exact isFirm_of_isVisibleBlank hblank inner.text

/-- Whether a text goes on, white space apart, with a string, a comment or a line break. -/
def isTame (cs : List Char) : Bool :=
  (cs.dropWhile isGap).head?.all (fun c ↦ isBreak c || c = '#') || opensString (cs.dropWhile isGap)

theorem isTame_of_isGap (ha : isGap a = true) : isTame (a :: cs) = isTame cs := by
  rw [isTame, List.dropWhile_cons_of_pos ha, ← isTame]

/-- What starts with a visible character and is no comment starts with a string. -/
theorem opensString_of_isTame (h : isTame (a :: cs) = true) (hgap : isGap a = false)
    (hbreak : isBreak a = false) (hcomment : a ≠ '#') : opensString (a :: cs) = true := by
  rw [isTame, List.dropWhile_cons_of_neg (by simp [hgap])] at h
  simpa [hbreak, hcomment] using h

/-- Whether a string, a comment, white space or a line break may start with a character. -/
def mayOpen (a : Char) : Bool :=
  isGap a || isBreak a || a = '#' || a = '-' || a.isAlpha || isVisibleBlank a

theorem isTame_eq_false (ha : mayOpen a = false) (cs : List Char) : isTame (a :: cs) = false := by
  simp only [mayOpen, Bool.or_eq_false_iff, decide_eq_false_iff_not] at ha
  obtain ⟨⟨⟨⟨⟨hgap, hbreak⟩, hcomment⟩, hhyphen⟩, halpha⟩, hblank⟩ := ha
  refine Bool.eq_false_iff.2 fun h ↦ ?_
  rcases exists_of_opensString (opensString_of_isTame h hgap hbreak hcomment) with
    ⟨key, hkey, rest, hcs⟩ | ⟨rfl, -⟩ | h
  · obtain ⟨c, word, hchars, hc, -⟩ := exists_of_mem_manifestKeys hkey
    rw [hchars] at hcs
    obtain rfl := List.head_eq_of_cons_eq hcs
    rw [halpha] at hc
    cases hc
  · exact hhyphen rfl
  · rw [hblank] at h
    cases h

/-- A dash in front of white space starts no string. -/
theorem isTame_dash (h : atGapOrBreak cs = true) : isTame ('-' :: cs) = false := by
  refine Bool.eq_false_iff.2 fun htame ↦ ?_
  rcases exists_of_opensString (opensString_of_isTame htame rfl rfl (by decide)) with
    ⟨key, hkey, rest, hcs⟩ | ⟨-, rest, rfl⟩ | hblank
  · obtain ⟨c, word, hchars, hc, -⟩ := exists_of_mem_manifestKeys hkey
    rw [hchars] at hcs
    obtain rfl := List.head_eq_of_cons_eq hcs
    cases hc
  · cases h
  · cases hblank

/-! ## Lines -/

/-- Whether a text starts like a line of a manifest: with a string, or with a mark that nothing but
one may follow. -/
def opensLine (cs : List Char) : Bool :=
  isTame cs && (!atMark '-' cs || isTame (cs.drop 3))

/-- Whether all lines of a text start like lines of a manifest; the first may have started
before. -/
def areTame : Bool → List Char → Bool
  | _, [] => true
  | atStart, c :: cs => (!atStart || opensLine (c :: cs)) && areTame (isBreak c) cs

theorem isTame_of_areTame (h : areTame true cs = true) : isTame cs = true := by
  cases cs with
  | nil => rfl
  | cons c cs =>
    rw [areTame, Bool.not_true, Bool.false_or, Bool.and_eq_true] at h
    exact (Bool.and_eq_true_iff.1 h.1).1

theorem areTame_tail {atStart : Bool} (h : areTame atStart (a :: cs) = true) :
    areTame (isBreak a) cs = true :=
  (Bool.and_eq_true_iff.1 h).2

/-- Whether the lines that a cursor has in front of it start like lines of a manifest. -/
def Cursor.IsTame (c : Cursor) : Prop :=
  areTame (c.place.column == 0) c.rest = true

theorem Cursor.IsTame.next {place : Position} (h : (⟨a :: cs, place⟩ : Cursor).IsTame)
    (ha : isBreak a = false) : (⟨cs, place.next⟩ : Cursor).IsTame := by
  have htail := areTame_tail h
  rwa [ha] at htail

/-- Behind a line break there is the start of a line. -/
theorem Cursor.IsTame.newLine {place : Position} (h : (⟨a :: cs, place⟩ : Cursor).IsTame)
    (ha : isBreak a = true) :
    (⟨cs, place.newLine⟩ : Cursor).IsTame ∧ isTame cs = true := by
  have htail := areTame_tail h
  rw [ha] at htail
  exact ⟨htail, isTame_of_areTame htail⟩

theorem Cursor.IsTame.of_passes {c c' : Cursor} (h : c.IsTame) (hpasses : Passes c c') :
    c'.IsTame := by
  induction hpasses with
  | refl => exact h
  | char ha _ _ ih => exact ih (h.next ha)
  | lineBreak ha _ ih => exact ih (h.newLine ha).1

/-! ## Readers that end in another line -/

/-- In front of the next token there is what may start there. -/
theorem isTame_skipBlank {inFlow : Bool} {place : Position} {keyAllowed inComment : Bool}
    (hlines : (⟨cs, place⟩ : Cursor).IsTame) (h : inComment = false → isTame cs = true) :
    isTame (Scanner.skipBlank inFlow cs place keyAllowed inComment).1.rest = true := by
  fun_induction Scanner.skipBlank inFlow cs place keyAllowed inComment with
  | case1 => rfl
  | case2 c cs place keyAllowed inComment hbreak ih =>
    obtain ⟨hnext, htame⟩ := hlines.newLine hbreak
    exact ih hnext fun _ ↦ htame
  | case3 c cs place keyAllowed hbreak ih =>
    exact ih (hlines.next (by simpa using hbreak)) (by simp)
  | case4 c cs place keyAllowed inComment hbreak hcomment hgap ih =>
    have hgap' : isGap c = true := by
      simp only [Bool.or_eq_true, Bool.and_eq_true, decide_eq_true_eq] at hgap
      simp only [isGap, Bool.or_eq_true, decide_eq_true_eq]
      exact hgap.imp id And.left
    refine ih (hlines.next (by simpa using hbreak)) fun _ ↦ ?_
    rw [← isTame_of_isGap hgap']
    exact h (by simpa using hcomment)
  | case5 _ _ _ _ _ _ _ ih => exact ih (hlines.next rfl) (by simp)
  | case6 c cs place keyAllowed inComment hbreak hcomment hgap hsign hmark ih =>
    simp only [Bool.and_eq_true, decide_eq_true_eq] at hmark
    obtain ⟨rfl, -⟩ := hmark
    rw [isTame_eq_false (by decide)] at h
    exact absurd (h (by simpa using hcomment)) Bool.false_ne_true
  | case7 c cs place keyAllowed inComment hbreak hcomment hgap hsign hmark =>
    exact h (by simpa using hcomment)

/-- Where a key may start that could not before, a line starts. -/
theorem isTame_of_keyAllowed {inFlow : Bool} {place : Position} {keyAllowed inComment : Bool}
    (hlines : (⟨cs, place⟩ : Cursor).IsTame) (hbefore : keyAllowed = false)
    (h : (Scanner.skipBlank inFlow cs place keyAllowed inComment).2 = true) :
    isTame (Scanner.skipBlank inFlow cs place keyAllowed inComment).1.rest = true := by
  fun_induction Scanner.skipBlank inFlow cs place keyAllowed inComment with
  | case1 | case7 =>
    rw [hbefore] at h
    cases h
  | case2 c cs place keyAllowed inComment hbreak ih =>
    obtain ⟨hnext, htame⟩ := hlines.newLine hbreak
    exact isTame_skipBlank hnext fun _ ↦ htame
  | case3 c cs place keyAllowed hbreak ih | case4 c cs place keyAllowed _ hbreak _ _ ih
  | case6 c cs place keyAllowed _ hbreak _ _ _ _ ih =>
    exact ih (hlines.next (by simpa using hbreak)) hbefore h
  | case5 _ _ _ _ _ _ _ ih => exact ih (hlines.next rfl) hbefore h

/-- A plain scalar that crosses a line ends in front of what may start a line. -/
theorem isTame_readPlain {margin : Nat} {inFlow : Bool} {place : Position} {gap : Gap}
    {text : PlainText} (h : readPlain margin inFlow cs place gap = .ok text)
    (hlines : (⟨cs, place⟩ : Cursor).IsTame) (hgap : gap.crossesLine = true → isTame cs = true)
    (hcrosses : text.crossesLine = true) : isTame text.cursor.rest = true := by
  induction cs generalizing place gap text with
  | nil =>
    cases h
    rfl
  | cons c cs ih =>
    rw [readPlain] at h
    split at h
    · rename_i hblank
      split at h
      · cases h
      · refine ih h (hlines.next (isBreak_of_isGap hblank)) (fun hcross ↦ ?_) hcrosses
        rw [← isTame_of_isGap hblank]
        refine hgap ?_
        cases gap <;> exact hcross
    split at h
    · rename_i hbreak
      obtain ⟨hnext, htame⟩ := hlines.newLine hbreak
      exact ih h hnext (fun _ ↦ htame) hcrosses
    rename_i hbreak
    split at h
    · cases h
      exact hgap hcrosses
    split at h
    · cases h
    split at h
    · cases h
      exact hgap hcrosses
    · obtain ⟨inner, hinner, rfl⟩ := exists_of_map_ok h
      have hrest := ih hinner (hlines.next (by simpa using hbreak))
        (fun hcross ↦ by cases hcross) hcrosses
      exact hrest

/-- The lines of a block scalar end in front of what may start a line. -/
theorem isTame_readBlockLines {header : BlockHeader} {margin : Nat} {place : Position}
    {s : BlockState} {text : ScalarText} (h : readBlockLines header margin cs place s = .ok text)
    (hlines : (⟨cs, place⟩ : Cursor).IsTame) (hline : s.inLine = false → isTame cs = true) :
    isTame text.cursor.rest = true := by
  fun_induction readBlockLines header margin cs place s generalizing text with
  | case1 =>
    cases h
    rfl
  | case2 c cs place s hinLine hbreak ih =>
    obtain ⟨hnext, htame⟩ := hlines.newLine hbreak
    exact ih h hnext fun _ ↦ htame
  | case3 c cs place s hinLine hbreak ih =>
    obtain ⟨inner, hinner, rfl⟩ := exists_of_map_ok h
    have hrest := ih hinner (hlines.next (by simpa using hbreak)) fun hnot ↦ by
      rw [hinLine] at hnot
      cases hnot
    exact hrest
  | case4 c cs place s hinLine hblank ih =>
    simp only [Bool.and_eq_true, decide_eq_true_eq] at hblank
    obtain ⟨-, rfl⟩ := hblank
    refine ih h (hlines.next rfl) fun hnot ↦ ?_
    rw [← isTame_of_isGap (a := ' ') rfl]
    exact hline hnot
  | case5 => cases h
  | case6 c cs place s hinLine _ _ hbreak ih =>
    obtain ⟨hnext, htame⟩ := hlines.newLine hbreak
    exact ih h hnext fun _ ↦ htame
  | case7 c cs place s _ _ _ hbreak =>
    rename_i hcolumn ih
    obtain ⟨inner, hinner, rfl⟩ := exists_of_map_ok h
    have hrest := ih hinner (hlines.next (by simpa using hbreak)) (by rintro ⟨⟩)
    exact hrest
  | case8 c cs place s hinLine =>
    cases h
    exact hline (by simpa using hinLine)

theorem isTame_readBlock {folds : Bool} {margin : Nat} {c : Cursor} {text : ScalarText}
    (h : readBlock folds margin c = .ok text) (hlines : c.IsTame) (hc : c.place.column ≠ 0) :
    isTame text.cursor.rest = true := by
  rw [readBlock] at h
  split at h
  · cases h
  rename_i header c' hheader
  have hlines' := hlines.of_passes (readBlockHeader_passes hheader hc)
  refine isTame_readBlockLines h hlines' fun _ ↦ ?_
  -- The header ends with its line.
  rw [readBlockHeader] at hheader
  split at hheader
  · cases hheader
  rename_i header' middle _
  dsimp only at hheader
  generalize (if (middle.skipWhile isGap).rest.head? = some '#' then
    (middle.skipWhile isGap).skipWhile (!isBreak ·) else middle.skipWhile isGap) = last at hheader
  split at hheader
  · cases hheader
  obtain ⟨-, rfl⟩ := Prod.mk.inj (Except.ok.inj hheader)
  split
  · rename_i hend
    rw [List.isEmpty_iff.1 hend]
    rfl
  · rename_i hend
    rw [if_neg hend] at hlines'
    exact isTame_of_areTame hlines'

end Yaml

end FolderCommands
