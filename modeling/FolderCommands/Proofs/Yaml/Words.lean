import FolderCommands.Proofs.Yaml.Scanning

/-!
# Words, line ends and further lines

How the readers go over the parts of a plainly written line: indentation, a word, a word in quotes,
white space and a comment at the end of the line, and the lines after it. A plain word is the whole
scalar where the next line is not indented further.
-/

namespace FolderCommands.Yaml

/-- Some characters on, in the same line. -/
def Position.along (p : Position) (n : Nat) : Position :=
  ⟨p.line, p.column + n⟩

@[simp]
theorem Position.along_zero (p : Position) : p.along 0 = p :=
  rfl

theorem Position.next_along (p : Position) (n : Nat) : p.next.along n = p.along (n + 1) := by
  simp [along, next, Nat.add_comm, Nat.add_left_comm]

/-- Whether nothing but white space and a comment closes a line. -/
def closesLine (cs : List Char) : Bool :=
  atGapOrBreak cs && (cs.dropWhile isGap).head?.all (· = '#')

/-- Whether a character is neither passed nor a comment between tokens. -/
def isVisible (c : Char) : Bool :=
  !(isBreak c || isGap c || c = '#' || c = '\uFEFF')

/-- The end of a line: white space and perhaps a comment. -/
theorem exists_of_closesLine {cs : List Char} (h : closesLine cs = true) :
    ∃ gaps comment, cs = gaps ++ comment ∧ (∀ c ∈ gaps, isGap c = true) ∧
      (comment = [] ∨ gaps ≠ [] ∧ ∃ text, comment = '#' :: text) := by
  obtain ⟨hgap, hhead⟩ := Bool.and_eq_true_iff.1 h
  refine ⟨cs.takeWhile isGap, cs.dropWhile isGap, List.takeWhile_append_dropWhile.symm,
    fun c hc ↦ List.all_eq_true.1 List.all_takeWhile c hc, ?_⟩
  cases hdrop : cs.dropWhile isGap with
  | nil => exact .inl rfl
  | cons c text =>
    rw [hdrop] at hhead
    obtain rfl : c = '#' := by simpa using hhead
    refine .inr ⟨?_, text, rfl⟩
    intro htake
    have hcs : cs = '#' :: text := by
      rw [← List.takeWhile_append_dropWhile (p := isGap) (l := cs), htake, hdrop]
      rfl
    rw [hcs] at hgap
    cases hgap

/-- What is not part of a word differs from what is. -/
theorem ne_of_isWord {a c : Char} (ha : isWord a = true) (hc : isWord c = false) : a ≠ c := by
  rintro rfl
  rw [ha] at hc
  cases hc

theorem isGap_of_isWord {a : Char} (h : isWord a = true) : isGap a = false := by
  simp [isGap, ne_of_isWord h (c := ' ') (by decide), ne_of_isWord h (c := '\t') (by decide)]

theorem isVisible_of_isWord {a : Char} (h : isWord a = true) : isVisible a = true := by
  simp [isVisible, isBreak_of_isWord h, isGap_of_isWord h,
    ne_of_isWord h (c := '#') (by decide), ne_of_isWord h (c := '\uFEFF') (by decide)]

/-- Whether a character never means anything but itself in a plain scalar, unless it is the first. -/
def isBareChar (c : Char) : Bool :=
  isWord c || c = '.' || c = '/'

theorem isBareChar_of_isWord {c : Char} (h : isWord c = true) : isBareChar c = true := by
  rw [isBareChar, h, Bool.true_or, Bool.true_or]

theorem ne_of_isBareChar {a c : Char} (ha : isBareChar a = true) (hc : isBareChar c = false) :
    a ≠ c := by
  rintro rfl
  rw [ha] at hc
  cases hc

theorem isBreak_of_isBareChar {a : Char} (h : isBareChar a = true) : isBreak a = false :=
  isBreak_eq_false (by decide) h

theorem isGap_of_isBareChar {a : Char} (h : isBareChar a = true) : isGap a = false := by
  simp [isGap, ne_of_isBareChar h (c := ' ') (by decide),
    ne_of_isBareChar h (c := '\t') (by decide)]

theorem isFlowIndicator_of_isBareChar {a : Char} (h : isBareChar a = true) :
    isFlowIndicator a = false := by
  simp [isFlowIndicator, ne_of_isBareChar h (c := ',') (by decide),
    ne_of_isBareChar h (c := '[') (by decide), ne_of_isBareChar h (c := ']') (by decide),
    ne_of_isBareChar h (c := '{') (by decide), ne_of_isBareChar h (c := '}') (by decide)]

/-! ## Between tokens -/

variable {inFlow : Bool} {cs : List Char} {place : Position}

theorem skipBlank_spaces (n : Nat) (keyAllowed : Bool) :
    Scanner.skipBlank inFlow (List.replicate n ' ' ++ cs) place keyAllowed false =
      Scanner.skipBlank inFlow cs (place.along n) keyAllowed false := by
  induction n generalizing place with
  | zero => rfl
  | succ n ih =>
    rw [List.replicate_succ, List.cons_append, Scanner.skipBlank, if_neg (by decide),
      if_neg Bool.false_ne_true, if_pos (by simp), ih, Position.next_along]

/-- Where no key may start, tabs are passed as well. -/
theorem skipBlank_gaps {gaps : List Char} (h : ∀ c ∈ gaps, isGap c = true) :
    Scanner.skipBlank inFlow (gaps ++ cs) place false false =
      Scanner.skipBlank inFlow cs (place.along gaps.length) false false := by
  induction gaps generalizing place with
  | nil => rfl
  | cons c gaps ih =>
    obtain ⟨hc, hgaps⟩ := List.forall_mem_cons.1 h
    rw [List.cons_append, Scanner.skipBlank, isBreak_of_isGap hc, if_neg Bool.false_ne_true,
      if_neg Bool.false_ne_true, if_pos (by simpa [isGap] using hc), ih hgaps,
      Position.next_along, List.length_cons]

theorem skipBlank_visible (keyAllowed : Bool) (h : ∀ c, cs.head? = some c → isVisible c = true) :
    Scanner.skipBlank inFlow cs place keyAllowed false = (⟨cs, place⟩, keyAllowed) := by
  cases cs with
  | nil => rfl
  | cons c cs =>
    have hc := h c rfl
    simp only [isVisible, isGap, Bool.not_eq_true', Bool.or_eq_false_iff,
      decide_eq_false_iff_not] at hc
    obtain ⟨⟨⟨hbreak, hspace, htab⟩, hhash⟩, hmark⟩ := hc
    rw [Scanner.skipBlank, hbreak, if_neg Bool.false_ne_true, if_neg Bool.false_ne_true,
      if_neg (by simp [hspace, htab]), if_neg hhash, if_neg (by simp [hmark])]

theorem skipBlank_comment {text : List Char} (h : ∀ c ∈ text, isBreak c = false)
    (keyAllowed : Bool) :
    Scanner.skipBlank inFlow (text ++ cs) place keyAllowed true =
      Scanner.skipBlank inFlow cs (place.along text.length) keyAllowed true := by
  induction text generalizing place with
  | nil => rfl
  | cons c text ih =>
    obtain ⟨hc, htext⟩ := List.forall_mem_cons.1 h
    rw [List.cons_append, Scanner.skipBlank, hc, if_neg Bool.false_ne_true, if_pos rfl, ih htext,
      Position.next_along, List.length_cons]

theorem skipBlank_lineBreaks (k : Nat) (keyAllowed inComment : Bool) :
    ∃ line, Scanner.skipBlank inFlow (List.replicate (k + 1) '\n' ++ cs) place keyAllowed
        inComment =
      Scanner.skipBlank inFlow cs ⟨line, 0⟩ (keyAllowed || !inFlow) false := by
  have hbreak : isBreak '\n' = true := rfl
  induction k generalizing place keyAllowed inComment with
  | zero =>
    refine ⟨place.line + 1, ?_⟩
    rw [List.replicate_one, List.singleton_append, Scanner.skipBlank, if_pos hbreak]
    rfl
  | succ k ih =>
    obtain ⟨line, hline⟩ := @ih place.newLine (keyAllowed || !inFlow) false
    refine ⟨line, ?_⟩
    rw [List.replicate_succ, List.cons_append, Scanner.skipBlank, if_pos hbreak, hline,
      Bool.or_assoc, Bool.or_self]

/-- The end of a line and the line breaks after it. -/
theorem skipBlank_closesLine {tail : List Char} (hbreak : ∀ c ∈ tail, isBreak c = false)
    (h : closesLine tail = true) (k : Nat) (inFlow : Bool) (cs : List Char) (place : Position) :
    ∃ line, Scanner.skipBlank inFlow (tail ++ (List.replicate (k + 1) '\n' ++ cs)) place false
        false =
      Scanner.skipBlank inFlow cs ⟨line, 0⟩ (!inFlow) false := by
  obtain ⟨gaps, comment, rfl, hgaps, hcomment⟩ := exists_of_closesLine h
  rw [List.append_assoc, skipBlank_gaps hgaps]
  rcases hcomment with rfl | ⟨-, text, rfl⟩
  · exact skipBlank_lineBreaks k false false
  · rw [List.cons_append, Scanner.skipBlank, if_neg (by decide), if_neg Bool.false_ne_true,
      if_neg (by simp), if_pos rfl, skipBlank_comment]
    · exact skipBlank_lineBreaks k false true
    · intro c hc
      exact hbreak c (List.mem_append_right _ (List.mem_cons_of_mem _ hc))

theorem skipBlank_end {tail : List Char} (hbreak : ∀ c ∈ tail, isBreak c = false)
    (h : closesLine tail = true) :
    (Scanner.skipBlank inFlow tail place false false).1.rest = [] := by
  obtain ⟨gaps, comment, rfl, hgaps, hcomment⟩ := exists_of_closesLine h
  rw [skipBlank_gaps hgaps]
  rcases hcomment with rfl | ⟨-, text, rfl⟩
  · rfl
  · have htext : ∀ c ∈ text, isBreak c = false := fun c hc ↦
      hbreak c (List.mem_append_right _ (List.mem_cons_of_mem _ hc))
    rw [Scanner.skipBlank, if_neg (by decide), if_neg Bool.false_ne_true,
      if_neg (by simp), if_pos rfl, ← List.append_nil text, skipBlank_comment htext]
    rfl

/-! ## Words -/

variable {margin : Nat} {word : List Char}

/-- Text without indicators is read as it is, and the scalar goes on behind it. -/
theorem readPlain_bare (hword : ∀ c ∈ word, isBareChar c = true)
    (hplace : place.column = 0 → word.head? ≠ some '-' ∧ word.head? ≠ some '.') :
    readPlain margin inFlow (word ++ cs) place .none =
      (readPlain margin inFlow cs (place.along word.length) .none).map fun s ↦
        { s with text := word ++ s.text } := by
  induction word generalizing place with
  | nil =>
    rw [List.nil_append, List.length_nil, Position.along_zero]
    cases readPlain margin inFlow cs place .none <;> rfl
  | cons c word ih =>
    obtain ⟨hc, hrest⟩ := List.forall_mem_cons.1 hword
    have hmark : (decide (place.column = 0) && atDocumentMark (c :: (word ++ cs))) = false := by
      rw [Bool.and_eq_false_iff]
      by_cases hcolumn : place.column = 0
      · obtain ⟨hhyphen, hpoint⟩ : c ≠ '-' ∧ c ≠ '.' := by simpa using hplace hcolumn
        refine .inr ?_
        rw [atDocumentMark, atMark_eq_false hhyphen, atMark_eq_false hpoint]
        rfl
      · exact .inl (decide_eq_false hcolumn)
    have hcolon : c ≠ ':' := ne_of_isBareChar hc (by decide)
    rw [List.cons_append, readPlain, isGap_of_isBareChar hc, if_neg Bool.false_ne_true,
      isBreak_of_isBareChar hc, if_neg Bool.false_ne_true, if_neg, if_neg, if_neg,
      ih hrest (fun hcolumn ↦ absurd hcolumn (Nat.succ_ne_zero _)), Position.next_along]
    · cases readPlain margin inFlow cs (place.along (word.length + 1)) .none <;> rfl
    · simp [isPlainEnd, hcolon, isFlowIndicator_of_isBareChar hc]
    · simp [isStrayColon, hcolon]
    · rw [endsBefore, hmark]
      simp [Gap.isNone, Gap.crossesLine]

/-- A word is read as it is, and the scalar goes on behind it. -/
theorem readPlain_word (hword : ∀ c ∈ word, isWord c = true)
    (hplace : place.column = 0 → word.head? ≠ some '-') :
    readPlain margin inFlow (word ++ cs) place .none =
      (readPlain margin inFlow cs (place.along word.length) .none).map fun s ↦
        { s with text := word ++ s.text } := by
  refine readPlain_bare (fun c hc ↦ isBareChar_of_isWord (hword c hc)) fun hcolumn ↦
    ⟨hplace hcolumn, fun hpoint ↦ ?_⟩
  cases hword '.' (List.mem_of_head? hpoint)

/-- White space in a plain scalar. -/
theorem readPlain_gaps {gaps : List Char} (h : ∀ c ∈ gaps, isGap c = true) (margin : Nat)
    (inFlow : Bool) (cs : List Char) (place : Position) (gap : Gap)
    (hgap : gap.crossesLine = false) :
    ∃ gap', readPlain margin inFlow (gaps ++ cs) place gap =
        readPlain margin inFlow cs (place.along gaps.length) gap' ∧
      gap'.crossesLine = false ∧ (gap.isNone = false ∨ gaps ≠ [] → gap'.isNone = false) := by
  induction gaps generalizing place gap with
  | nil => exact ⟨gap, rfl, hgap, fun h ↦ h.resolve_right (by simp)⟩
  | cons c gaps ih =>
    obtain ⟨hc, hgaps⟩ := List.forall_mem_cons.1 h
    have hblank : (gap.blank c).crossesLine = false ∧ (gap.blank c).isNone = false := by
      cases gap <;> first | exact ⟨rfl, rfl⟩ | cases hgap
    obtain ⟨gap', hread, hcrosses, hsome⟩ := ih hgaps place.next (gap.blank c) hblank.1
    refine ⟨gap', ?_, hcrosses, fun _ ↦ hsome (.inl hblank.2)⟩
    rw [List.cons_append, readPlain, if_pos hc, if_neg (by simp [hgap]), hread,
      Position.next_along, List.length_cons]

/-- The colon behind a key, with white space in front of it. -/
theorem readPlain_colon {gaps : List Char} (h : ∀ c ∈ gaps, isGap c = true)
    (hplace : place.column ≠ 0) (hcs : cs.head?.any isGap = true) :
    readPlain margin inFlow (gaps ++ ':' :: cs) place .none =
      .ok ⟨⟨[], ⟨':' :: cs, place.along gaps.length⟩⟩, false⟩ := by
  obtain ⟨gap, hread, hgap, -⟩ := readPlain_gaps h margin inFlow (':' :: cs) place .none rfl
  have hends : atGapOrBreak cs = true := by
    cases cs with
    | nil => cases hcs
    | cons c cs => exact Bool.or_eq_true_iff.2 (.inl hcs)
  have hcolumn : (place.along gaps.length).column ≠ 0 := by
    simp only [Position.along]
    omega
  have hstray : isStrayColon inFlow ':' cs = false := by
    cases cs with
    | nil => cases hcs
    | cons c cs =>
      have hc : isGap c = true := hcs
      have hc' : c = ' ' ∨ c = '\t' := by simpa [isGap] using hc
      rcases hc' with rfl | rfl <;> simp [isStrayColon, isFlowIndicator]
  rw [hread, readPlain, if_neg (by decide), if_neg (by decide), if_neg, hstray,
    if_neg Bool.false_ne_true, if_pos (by simp [isPlainEnd, hends]), hgap]
  simp [endsBefore, hcolumn, hgap]

/-! ## The end of a plain word -/

/-- Whether lines end a scalar: there are none, or the next is indented less than `margin`. -/
def EndsScalar (margin : Nat) (cs : List Char) : Prop :=
  cs = [] ∨ ∃ n c rest, cs = List.replicate n ' ' ++ c :: rest ∧ n < margin ∧
    isGap c = false ∧ isBreak c = false

theorem readPlain_dedent {n : Nat} {c : Char} {gap : Gap} (hgap : gap.crossesLine = true)
    (hn : place.column + n < margin) (hc : isGap c = false) (hbreak : isBreak c = false) :
    ∃ cursor crosses, readPlain margin false (List.replicate n ' ' ++ c :: cs) place gap =
      .ok ⟨⟨[], cursor⟩, crosses⟩ := by
  induction n generalizing place gap with
  | zero =>
    have hends : endsBefore margin false place gap c cs = true := by
      rw [Nat.add_zero] at hn
      simp [endsBefore, hgap, hn]
    refine ⟨⟨c :: cs, place⟩, gap.crossesLine, ?_⟩
    rw [List.replicate_zero, List.nil_append, readPlain, hc, if_neg Bool.false_ne_true, hbreak,
      if_neg Bool.false_ne_true, if_pos hends]
  | succ n ih =>
    have hblank : (gap.blank ' ').crossesLine = true := by
      cases gap <;> first | rfl | cases hgap
    have hnext : place.next.column + n < margin := by
      simp only [Position.next]
      omega
    obtain ⟨cursor, crosses, hread⟩ := ih hblank hnext
    refine ⟨cursor, crosses, ?_⟩
    rw [List.replicate_succ, List.cons_append, readPlain, if_pos (by decide),
      if_neg (by simp), hread]

theorem readPlain_lineBreaks {k : Nat} {gap : Gap} (hends : EndsScalar margin cs)
    (hk : k = 0 → cs = [] ∨ place.column = 0 ∧ gap.crossesLine = true) :
    ∃ cursor crosses, readPlain margin false (List.replicate k '\n' ++ cs) place gap =
      .ok ⟨⟨[], cursor⟩, crosses⟩ := by
  induction k generalizing place gap with
  | zero =>
    rcases hk rfl with rfl | ⟨hplace, hgap⟩
    · exact ⟨_, _, rfl⟩
    · rcases hends with rfl | ⟨n, c, rest, rfl, hn, hc, hbreak⟩
      · exact ⟨_, _, rfl⟩
      · exact readPlain_dedent hgap (by rwa [hplace, Nat.zero_add]) hc hbreak
  | succ k ih =>
    have hbreak : (gap.lineBreak '\n').crossesLine = true := by
      cases gap <;> rfl
    obtain ⟨cursor, crosses, hread⟩ := @ih place.newLine (gap.lineBreak '\n')
      fun _ ↦ .inr ⟨rfl, hbreak⟩
    refine ⟨cursor, crosses, ?_⟩
    rw [List.replicate_succ, List.cons_append, readPlain, if_neg (by decide), if_pos (by decide),
      hread]

/-- Behind a plain word, the end of its line and of the scalar. -/
theorem readPlain_closesLine {tail : List Char} {k : Nat} (h : closesLine tail = true)
    (hends : EndsScalar margin cs) (hk : k = 0 → cs = []) (place : Position) :
    ∃ cursor crosses, readPlain margin false (tail ++ (List.replicate k '\n' ++ cs)) place .none =
      .ok ⟨⟨[], cursor⟩, crosses⟩ := by
  obtain ⟨gaps, comment, rfl, hgaps, hcomment⟩ := exists_of_closesLine h
  rw [List.append_assoc]
  obtain ⟨gap, hread, hgap, hsome⟩ := readPlain_gaps hgaps margin false
    (comment ++ (List.replicate k '\n' ++ cs)) place .none rfl
  rw [hread]
  rcases hcomment with rfl | ⟨hne, text, rfl⟩
  · exact readPlain_lineBreaks hends fun hzero ↦ .inl (hk hzero)
  · have hcomment : endsBefore margin false (place.along gaps.length) gap '#'
        (text ++ (List.replicate k '\n' ++ cs)) = true := by
      simp [endsBefore, hsome (.inr hne)]
    refine ⟨⟨'#' :: (text ++ (List.replicate k '\n' ++ cs)), place.along gaps.length⟩,
      gap.crossesLine, ?_⟩
    rw [List.cons_append, readPlain, if_neg (by decide), if_neg (by decide), if_pos hcomment]

/-! ## Words in quotes -/

/-- A text with its single quotes doubled. -/
def doubled (cs : List Char) : List Char :=
  cs.flatMap fun c ↦ if c = '\'' then ['\'', '\''] else [c]

theorem mem_of_mem_doubled {c : Char} (h : c ∈ doubled cs) : c ∈ cs := by
  obtain ⟨d, hd, hc⟩ := List.mem_flatMap.1 h
  have hcd : c = d := by
    split at hc
    · rename_i hquote
      simpa [hquote] using hc
    · exact List.mem_singleton.1 hc
  rwa [hcd]

/-- A text between quotes is read as it is, blanks included. -/
theorem readSingle_doubled {text : List Char} (htext : ∀ c ∈ text, isBreak c = false)
    (hcs : cs.head? ≠ some '\'') (place : Position) (hplace : place.column ≠ 0) (gap : Gap)
    (hgap : gap.crossesLine = false) :
    ∃ p, readSingle (doubled text ++ '\'' :: cs) place gap = .ok ⟨gap.folded ++ text, ⟨cs, p⟩⟩ := by
  induction text generalizing place gap with
  | nil =>
    refine ⟨place.next, ?_⟩
    rw [doubled, List.flatMap_nil, List.nil_append, List.append_nil, readSingle.eq_def]
    dsimp only
    rw [if_neg (by decide), if_neg (by decide), if_neg (by simp [hplace]), if_pos rfl]
    split
    · exact absurd rfl hcs
    · rfl
  | cons c text ih =>
    obtain ⟨hc, hrest⟩ := List.forall_mem_cons.1 htext
    have hcons : doubled (c :: text) =
        (if c = '\'' then ['\'', '\''] else [c]) ++ doubled text :=
      List.flatMap_cons
    rw [hcons]
    by_cases hquote : c = '\''
    · subst hquote
      obtain ⟨p, hread⟩ := ih hrest place.next.next (Nat.succ_ne_zero _) .none rfl
      refine ⟨p, ?_⟩
      rw [if_pos rfl, List.append_assoc, List.cons_append, List.cons_append, List.nil_append,
        readSingle, if_neg (by decide), if_neg (by decide), if_neg (by simp [hplace]), if_pos rfl,
        hread]
      simp [Except.map, ScalarText.prepend, Gap.folded]
    · rw [if_neg hquote, List.singleton_append, List.cons_append, readSingle.eq_def]
      dsimp only
      rw [hc]
      cases hisGap : isGap c with
      | true =>
        -- A blank is kept back until the next character is seen.
        have hblank : (gap.blank c).crossesLine = false := by
          cases gap <;> first | rfl | cases hgap
        obtain ⟨p, hread⟩ := ih hrest place.next (Nat.succ_ne_zero _) (gap.blank c) hblank
        refine ⟨p, ?_⟩
        rw [if_pos rfl, hread]
        cases gap with
        | none => rfl
        | blanks cs => simp [Gap.blank, Gap.folded]
        | lines first more => cases hgap
      | false =>
        obtain ⟨p, hread⟩ := ih hrest place.next (Nat.succ_ne_zero _) .none rfl
        refine ⟨p, ?_⟩
        rw [if_neg Bool.false_ne_true, if_neg Bool.false_ne_true, if_neg (by simp [hplace]),
          if_neg hquote, hread]
        simp [Except.map, ScalarText.prepend, Gap.folded]

theorem doubled_word (hword : ∀ c ∈ word, isWord c = true) : doubled word = word := by
  induction word with
  | nil => rfl
  | cons c word ih =>
    obtain ⟨hc, hrest⟩ := List.forall_mem_cons.1 hword
    have hcons : doubled (c :: word) = [c] ++ doubled word := by
      rw [doubled, List.flatMap_cons, if_neg (ne_of_isWord hc (by decide))]
      rfl
    rw [hcons, ih hrest]
    rfl

theorem readSingle_word (hword : ∀ c ∈ word, isWord c = true) (place : Position)
    (hplace : place.column ≠ 0) (hcs : cs.head? ≠ some '\'') :
    ∃ cursor, readSingle (word ++ '\'' :: cs) place .none = .ok ⟨word, cursor⟩ := by
  obtain ⟨p, hread⟩ := readSingle_doubled (fun c hc ↦ isBreak_of_isWord (hword c hc)) hcs place
    hplace .none rfl
  rw [doubled_word hword] at hread
  exact ⟨⟨cs, p⟩, hread⟩

theorem readDouble_word (hword : ∀ c ∈ word, isWord c = true) (cs : List Char) (place : Position)
    (hplace : place.column ≠ 0) :
    ∃ cursor, readDouble (word ++ '"' :: cs) place .none none = .ok ⟨word, cursor⟩ := by
  induction word generalizing place with
  | nil =>
    refine ⟨⟨cs, place.next⟩, ?_⟩
    rw [List.nil_append, readDouble.eq_def]
    dsimp only
    rw [if_neg (by decide), if_neg (by decide), if_neg (by simp [hplace]), if_pos rfl]
    rfl
  | cons c word ih =>
    obtain ⟨hc, hrest⟩ := List.forall_mem_cons.1 hword
    obtain ⟨cursor, hread⟩ := ih hrest place.next (Nat.succ_ne_zero _)
    refine ⟨cursor, ?_⟩
    rw [List.cons_append, readDouble.eq_def]
    dsimp only
    rw [isGap_of_isWord hc, if_neg Bool.false_ne_true, isBreak_of_isWord hc,
      if_neg Bool.false_ne_true, if_neg (by simp [hplace]),
      if_neg (ne_of_isWord hc (by decide)), if_neg (ne_of_isWord hc (by decide)), hread]
    rfl

end FolderCommands.Yaml
