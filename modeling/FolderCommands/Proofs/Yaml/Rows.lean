import FolderCommands.Proofs.Names
import FolderCommands.Proofs.Yaml.Lines

/-!
# Rows

A row is a key and a scalar in a line of its own, and a mark stands between the rows of two
documents. The scalar is bare, of letters, digits and a few signs, or it stands between quotes.
Whatever the texts between quotes hold, the tokens are those of one block mapping for each document:
a quote ends at the first quote that is not doubled, and nothing inside it is looked at as a comment,
a colon or a mark.
-/

namespace FolderCommands

/-- The visible characters of ASCII and the space. -/
def Text.isPrintable (c : Char) : Bool :=
  0x20 ≤ c.toNat && c.toNat ≤ 0x7E

namespace Yaml

/-! ## Names -/

theorem isWord_of_isAlpha {c : Char} (h : c.isAlpha = true) : isWord c = true := by
  rw [isWord, Char.isAlphanum, h, Bool.true_or, Bool.true_or, Bool.true_or]

/-- Whether a text is a string when it is written as it is, also as a key. -/
def isName (s : String) : Bool :=
  s.toList.all isWord && s.toList.head?.any (·.isAlpha) && !Scalar.isNull s &&
    (Scalar.bool? s).isNone && s.length ≤ 1024

section

variable {s : String} (h : isName s = true)

include h

theorem isWord_of_isName : ∀ c ∈ s.toList, isWord c = true := by
  simp only [isName, Bool.and_eq_true] at h
  exact List.all_eq_true.1 h.1.1.1.1

theorem exists_isAlpha_of_isName : ∃ c cs, s.toList = c :: cs ∧ c.isAlpha = true := by
  simp only [isName, Bool.and_eq_true] at h
  have hfirst := h.1.1.1.2
  cases hs : s.toList with
  | nil =>
    rw [hs] at hfirst
    cases hfirst
  | cons c cs =>
    rw [hs] at hfirst
    exact ⟨c, cs, rfl, hfirst⟩

theorem length_le_of_isName : s.toList.length ≤ 1024 := by
  simp only [isName, Bool.and_eq_true, decide_eq_true_eq] at h
  exact h.2

theorem resolvePlain_of_isName : Scalar.resolvePlain s = .ok (.string s) := by
  obtain ⟨c, cs, hs, hc⟩ := exists_isAlpha_of_isName h
  obtain rfl : s = String.ofList (c :: cs) := by rw [← hs, String.ofList_toList]
  simp only [isName, Bool.and_eq_true, Bool.not_eq_true', Option.isNone_iff_eq_none] at h
  exact Scalar.resolvePlain_of_isAlpha hc h.1.1.2 h.1.2

end

/-! ## Bare texts -/

theorem toNat_of_isBareChar {c : Char} (h : isBareChar c = true) :
    45 ≤ c.toNat ∧ c.toNat ≤ 122 := by
  simp only [isBareChar, Bool.or_eq_true, decide_eq_true_eq] at h
  rcases h with (h | rfl) | rfl
  · exact toNat_of_isWord h
  · decide
  · decide

theorem isBlank_of_isBareChar {c : Char} (h : isBareChar c = true) : Text.isBlank c = false := by
  obtain ⟨hlow, hhigh⟩ := toNat_of_isBareChar h
  simp only [Text.isBlank, Bool.or_eq_false_iff, Bool.and_eq_false_iff, decide_eq_false_iff_not,
    beq_eq_false_iff_ne]
  omega

theorem isWord_of_isAlphanum {c : Char} (h : c.isAlphanum = true) : isWord c = true := by
  rw [isWord, h, Bool.true_or, Bool.true_or]

/-- Whether a text may stand as a value without quotes. -/
def isBare (s : String) : Bool :=
  s.toList.head?.any (·.isAlphanum) && s.toList.all isBareChar

section

variable {s : String} (h : isBare s = true)

include h

theorem isBareChar_of_isBare : ∀ c ∈ s.toList, isBareChar c = true :=
  List.all_eq_true.1 (Bool.and_eq_true_iff.1 h).2

theorem exists_isAlphanum_of_isBare : ∃ c cs, s.toList = c :: cs ∧ c.isAlphanum = true := by
  have hfirst := (Bool.and_eq_true_iff.1 h).1
  cases hs : s.toList with
  | nil =>
    rw [hs] at hfirst
    cases hfirst
  | cons c cs =>
    rw [hs] at hfirst
    exact ⟨c, cs, rfl, hfirst⟩

end

theorem isBare_of_isName {s : String} (h : isName s = true) : isBare s = true := by
  obtain ⟨c, cs, hchars, hc⟩ := exists_isAlpha_of_isName h
  have hword := isWord_of_isName h
  refine Bool.and_eq_true_iff.2 ⟨?_, List.all_eq_true.2 fun d hd ↦ ?_⟩
  · rw [hchars, List.head?_cons, Option.any_some, Char.isAlphanum, hc, Bool.true_or]
  · exact isBareChar_of_isWord (hword d hd)

/-! ## Rows -/

/-- A key and the text of its scalar, in a line. -/
structure Row where
  key : String
  text : String
  /-- Whether the scalar stands without quotes. -/
  isPlain : Bool
deriving DecidableEq, Repr

namespace Row

/-- The characters of the scalar. -/
def written (r : Row) : List Char :=
  if r.isPlain then r.text.toList else '\'' :: (doubled r.text.toList ++ ['\''])

/-- The line of a row. -/
def line (r : Row) : List Char :=
  r.key.toList ++ ':' :: ' ' :: r.written

/-- Whether the key and the scalar can be written like that. -/
def isProper (r : Row) : Bool :=
  isName r.key && if r.isPlain then isBare r.text else r.text.toList.all Text.isPrintable

/-- The tokens of a row in a block mapping. -/
def tokens (r : Row) : List Token :=
  [.key, .scalar r.key true, .value, .scalar r.text r.isPlain]

variable {r : Row} (h : r.isProper = true)

include h

theorem isName_key : isName r.key = true :=
  (Bool.and_eq_true_iff.1 h).1

theorem isBare_text (hplain : r.isPlain = true) : isBare r.text = true := by
  have htext := (Bool.and_eq_true_iff.1 h).2
  rwa [hplain, if_pos rfl] at htext

end Row

/-- The lines of rows. -/
def rowsText (rows : List Row) : List Char :=
  rows.flatMap fun r ↦ r.line ++ ['\n']

/-- The lines of the rows of further documents, each behind a mark. -/
def markedRows (pages : List (List Row)) : List Char :=
  pages.flatMap fun rows ↦ '-' :: '-' :: '-' :: '\n' :: rowsText rows

/-- The tokens of a block mapping with those rows. -/
def rowsTokens (rows : List Row) : List Token :=
  .blockMappingStart :: (rows.flatMap Row.tokens ++ [.blockEnd])

/-- The tokens of further documents. -/
def markedTokens (pages : List (List Row)) : List Token :=
  pages.flatMap fun rows ↦ .documentStart :: rowsTokens rows

/-- Rows of a document: there is one, and no key is repeated. -/
structure AreRows (rows : List Row) : Prop where
  ne_nil : rows ≠ []
  isProper : ∀ r ∈ rows, r.isProper = true
  nodup : (rows.map (·.key)).Nodup

/-! ## Characters -/

theorem isPrintable_of_isBareChar {c : Char} (h : isBareChar c = true) :
    Text.isPrintable c = true := by
  obtain ⟨hlow, hhigh⟩ := toNat_of_isBareChar h
  simp only [Text.isPrintable, Bool.and_eq_true, decide_eq_true_eq]
  omega

theorem isPrintable_of_isWord {c : Char} (h : isWord c = true) : Text.isPrintable c = true :=
  isPrintable_of_isBareChar (isBareChar_of_isWord h)

theorem ne_of_isPrintable {c d : Char} (hc : Text.isPrintable c = true)
    (hd : Text.isPrintable d = false) : c ≠ d := by
  rintro rfl
  rw [hc] at hd
  cases hd

theorem Row.isPrintable_text {r : Row} (h : r.isProper = true) :
    ∀ c ∈ r.text.toList, Text.isPrintable c = true := by
  cases hplain : r.isPlain with
  | true =>
    have htext := isBare_text h hplain
    exact fun c hc ↦ isPrintable_of_isBareChar (isBareChar_of_isBare htext c hc)
  | false =>
    have htext := (Bool.and_eq_true_iff.1 h).2
    rw [hplain, if_neg Bool.false_ne_true] at htext
    exact List.all_eq_true.1 htext

theorem Row.isPrintable_written {r : Row} (h : r.isProper = true) {c : Char}
    (hc : c ∈ r.written) : Text.isPrintable c = true := by
  rw [written] at hc
  split at hc
  · exact isPrintable_text h c hc
  · rw [List.mem_cons, List.mem_append, List.mem_singleton] at hc
    rcases hc with rfl | hc | rfl
    · decide
    · exact isPrintable_text h c (mem_of_mem_doubled hc)
    · decide

theorem Row.isPrintable_of_mem {r : Row} (h : r.isProper = true) {c : Char}
    (hc : c ∈ r.line) : Text.isPrintable c = true := by
  rw [line, List.mem_append, List.mem_cons, List.mem_cons] at hc
  rcases hc with hc | rfl | rfl | hc
  · exact isPrintable_of_isWord (isWord_of_isName (isName_key h) c hc)
  · decide
  · decide
  · exact isPrintable_written h hc

/-- The characters of rows are line feeds and printable. -/
theorem isPrintable_of_mem_rowsText {rows : List Row} (h : ∀ r ∈ rows, r.isProper = true)
    {c : Char} (hc : c ∈ rowsText rows) : c = '\n' ∨ Text.isPrintable c = true := by
  obtain ⟨r, hr, hc⟩ := List.mem_flatMap.1 hc
  rcases List.mem_append.1 hc with hc | hc
  · exact .inr (Row.isPrintable_of_mem (h r hr) hc)
  · exact .inl (List.mem_singleton.1 hc)

theorem isPrintable_of_mem_markedRows {pages : List (List Row)} (h : ∀ rows ∈ pages, AreRows rows)
    {c : Char} (hc : c ∈ markedRows pages) : c = '\n' ∨ Text.isPrintable c = true := by
  obtain ⟨rows, hrows, hc⟩ := List.mem_flatMap.1 hc
  simp only [List.mem_cons] at hc
  rcases hc with rfl | rfl | rfl | rfl | hc
  · exact .inr (by decide)
  · exact .inr (by decide)
  · exact .inr (by decide)
  · exact .inl rfl
  · exact isPrintable_of_mem_rowsText (h rows hrows).isProper hc

theorem unifyBreaks_eq_self {cs : List Char} (h : ∀ c ∈ cs, c ≠ '\r' ∧ c ≠ '\u0085') :
    unifyBreaks cs = cs := by
  induction cs with
  | nil => rfl
  | cons c cs ih =>
    obtain ⟨⟨hreturn, hnext⟩, hrest⟩ := List.forall_mem_cons.1 h
    rw [unifyBreaks, if_neg (by simp [hreturn, hnext]), ih hrest]
    rintro ds rfl
    exact absurd rfl hreturn

/-! ## Reading scalars -/

theorem isBreak_of_isPrintable {c : Char} (h : Text.isPrintable c = true) : isBreak c = false := by
  rw [Bool.eq_false_iff]
  intro hbreak
  rcases eq_of_isBreak hbreak with rfl | rfl | rfl <;> cases h

/-- Whether a text can stand at the start of a line that is not indented. -/
def startsLine (cs : List Char) : Bool :=
  cs.head?.all fun c ↦ isWord c

/-- A line that is not indented ends a plain scalar. -/
theorem readPlain_newLine {cs : List Char} (h : startsLine cs = true) (place : Position) :
    readPlain 1 false ('\n' :: cs) place .none = .ok ⟨⟨[], ⟨cs, place.newLine⟩⟩, true⟩ := by
  rw [readPlain, if_neg (by decide), if_pos (by decide)]
  cases cs with
  | nil => rfl
  | cons c cs =>
    have hc : isWord c = true := h
    rw [readPlain, isGap_of_isWord hc, if_neg Bool.false_ne_true, isBreak_of_isWord hc,
      if_neg Bool.false_ne_true, if_pos]
    · rfl
    · simp [endsBefore, Gap.lineBreak, Gap.crossesLine, Position.newLine]

/-! ## Steps of the scanner -/

namespace Scanner

variable {s s' : Scanner} {ts : List Token} {cs : List Char}

/-- Whether a scanner ends with those tokens, the ones it has made already included. -/
def Yields (s : Scanner) (ts : List Token) : Prop :=
  ∀ fuel, s.cursor.rest.length < fuel → run fuel s = .ok ts

/-- Whether going on to the next token gives up no key and closes no block. -/
structure IsSettled (s : Scanner) : Prop where
  outerKeys : s.outerKeys = []
  margin_le : s.margin ≤ s.column + 1
  key : expire s.cursor.place s.key = .ok s.key

theorem IsSettled.expireKeys_eq (h : s.IsSettled) : s.expireKeys = .ok s := by
  obtain ⟨cursor, done, margin, margins, keyAllowed, key, outerKeys⟩ := s
  obtain rfl : outerKeys = [] := h.outerKeys
  have hkey : expire cursor.place key = .ok key := h.key
  simp only [expireKeys, hkey]
  rfl

theorem IsSettled.unindent_eq (h : s.IsSettled) : s.unindent = s := by
  rw [unindent]
  split
  · rfl
  · cases hmargins : s.margins with
    | nil => rw [closeBlocks, ← hmargins]
    | cons outer margins =>
      rw [closeBlocks, if_neg (Nat.not_lt.2 h.margin_le), ← hmargins]

/-- What is passed in front of a token makes no difference. -/
theorem Yields.of_advance (h : s'.Yields ts) (hadvance : s.advance = s'.advance)
    (hlength : s'.cursor.rest.length ≤ s.cursor.rest.length) : s.Yields ts := by
  intro fuel hfuel
  rw [← h fuel (Nat.lt_of_le_of_lt hlength hfuel)]
  cases fuel with
  | zero => rfl
  | succ fuel => rw [run, run, hadvance]

/-- One token, and then the others. -/
theorem Yields.of_fetch {a : Char} (h : s'.Yields ts) (hs : s.IsSettled)
    (hrest : s.cursor.rest = a :: cs) (ha : isVisible a = true) (hfetch : s.fetchFrom a cs = .ok s')
    (hlength : s'.cursor.rest.length < s.cursor.rest.length) : s.Yields ts := by
  intro fuel hfuel
  cases fuel with
  | zero => cases hfuel
  | succ fuel =>
    have hadvance : s.advance = s := advance_of_visible (by
      rw [hrest]
      rintro c ⟨⟩
      exact ha)
    have hrun : run fuel s' = .ok ts := h fuel (by omega)
    rw [run, hadvance, hs.expireKeys_eq]
    simp only [bind, Except.bind, hs.unindent_eq, hrest, hfetch, hrun]

/-! ## A line of a page -/

/-- The start of a line, where a block mapping that is not indented may be open. -/
def atLine (inBlock : Bool) (line : Nat) (done : List Token) (cs : List Char) : Scanner :=
  ⟨⟨cs, ⟨line, 0⟩⟩, done, inBlock.toNat, if inBlock then [0] else [], true, none, []⟩

/-- Behind the key of a line. -/
def atColon (inBlock : Bool) (line : Nat) (done : List Token) (key : String) (cs : List Char) :
    Scanner :=
  { atLine inBlock line (.scalar key true :: done) (':' :: cs) with
    cursor := ⟨':' :: cs, ⟨line, key.toList.length⟩⟩, keyAllowed := false
    key := some ⟨inBlock, done.length, ⟨line, 0⟩⟩ }

/-- Behind the colon of a line. -/
def inLine (done : List Token) (cs : List Char) (p : Position) : Scanner :=
  ⟨⟨cs, p⟩, done, 1, [0], false, none, []⟩

variable {inBlock : Bool} {line : Nat} {done : List Token}

theorem isSettled_atLine : (atLine inBlock line done cs).IsSettled :=
  ⟨rfl, by cases inBlock <;> simp [atLine], rfl⟩

theorem isSettled_inLine {p : Position} : (inLine done cs p).IsSettled :=
  ⟨rfl, Nat.succ_le_succ (Nat.zero_le _), rfl⟩

theorem isSettled_atColon {key : String} (h : key.toList.length ≤ 1024) :
    (atColon inBlock line done key cs).IsSettled := by
  refine ⟨rfl, ?_, if_neg ?_⟩
  · cases inBlock <;> simp [atColon, atLine]
  · simpa [atColon, atLine] using h

/-- The key of a line. -/
theorem Yields.of_atColon {key : String} (hkey : isName key = true)
    (h : (atColon inBlock line done key (' ' :: cs)).Yields ts) :
    (atLine inBlock line done (key.toList ++ ':' :: ' ' :: cs)).Yields ts := by
  obtain ⟨c, cs', hchars, hc⟩ := exists_isAlpha_of_isName hkey
  have hword := isWord_of_isName hkey
  have hcWord := isWord_of_isAlpha hc
  have hne : c ≠ '-' := Scalar.ne_of_isAlpha hc (by decide)
  have hread : readPlain inBlock.toNat false (key.toList ++ ':' :: ' ' :: cs) ⟨line, 0⟩ .none =
      .ok ⟨⟨key.toList, ⟨':' :: ' ' :: cs, ⟨line, key.toList.length⟩⟩⟩, false⟩ := by
    have hcolon := @readPlain_colon false (' ' :: cs)
      ((⟨line, 0⟩ : Position).along key.toList.length) inBlock.toNat [] (by simp)
      (by simp [Position.along, hchars]) (by simp [isGap])
    rw [List.nil_append] at hcolon
    rw [readPlain_word hword (by simp [hchars, hne]), hcolon]
    simp [Except.map, Position.along]
  have hrest : (atLine inBlock line done (key.toList ++ ':' :: ' ' :: cs)).cursor.rest =
      c :: (cs' ++ ':' :: ' ' :: cs) := by
    rw [atLine, hchars]
    rfl
  apply h.of_fetch isSettled_atLine hrest (isVisible_of_isWord hcWord)
  · have hsave : (atLine inBlock line done (key.toList ++ ':' :: ' ' :: cs)).saveKey =
        .ok { atLine inBlock line done (key.toList ++ ':' :: ' ' :: cs) with
          key := some ⟨inBlock, done.length, ⟨line, 0⟩⟩ } := by
      cases inBlock <;> rfl
    rw [fetchFrom_word hcWord hne, fetchPlain, hsave]
    simp only [bind, Except.bind, atLine, inFlow, List.isEmpty_nil, Bool.not_true, hread]
    simp [push, atColon, atLine]
  · simp only [atColon, atLine, hchars, List.length_append, List.length_cons]
    omega

/-- The colon behind a key makes the tokens of a key and, for the first one, of a mapping. -/
theorem Yields.of_inLine {key : String} (hkey : key.toList.length ≤ 1024)
    (h : ∀ p, (inLine (.value :: .scalar key true :: .key ::
      if inBlock then done else .blockMappingStart :: done) (' ' :: cs) p).Yields ts) :
    (atColon inBlock line done key (' ' :: cs)).Yields ts := by
  refine (h ⟨line, key.toList.length + 1⟩).of_fetch (isSettled_atColon hkey) rfl (by decide) ?_
    (Nat.lt_succ_self _)
  rw [fetchFrom_colon (by simp [isGap])]
  have hlate (n : Nat) : n + 1 - n = 1 := by omega
  have hlate' (n : Nat) : n + 1 + 1 - n = 2 := by omega
  cases inBlock with
  | false => simp [fetchValue, atColon, atLine, insert, indentTo, inFlow, push, skip,
      Cursor.skip, inLine, hlate, hlate']
  | true => simp [fetchValue, atColon, atLine, insert, indentTo, inFlow, push, skip,
      Cursor.skip, inLine, hlate]

/-- The line feed behind a value leads to the next line. -/
theorem Yields.of_newLine {p : Position} (h : (atLine true (p.line + 1) done cs).Yields ts) :
    (inLine done ('\n' :: cs) p).Yields ts := by
  apply h.of_advance _ (Nat.le_succ _)
  simp only [advance, inLine, atLine, inFlow, List.isEmpty_nil, Bool.not_true]
  rw [skipBlank, if_pos (by decide)]
  rfl

/-- A bare text as a value, which ends at its line. -/
theorem Yields.of_bare {text : String} (htext : isBare text = true) (hcs : startsLine cs = true)
    {p : Position} (hp : p.column ≠ 0)
    (h : (atLine true (p.line + 1) (.scalar text true :: done) cs).Yields ts) :
    (inLine done (text.toList ++ '\n' :: cs) p).Yields ts := by
  obtain ⟨c, cs', hchars, hc⟩ := exists_isAlphanum_of_isBare htext
  have hcWord := isWord_of_isAlphanum hc
  have hne : c ≠ '-' := by
    rintro rfl
    cases hc
  have hread := readPlain_newLine hcs (p.along text.toList.length)
  have hrest : (inLine done (text.toList ++ '\n' :: cs) p).cursor.rest =
      c :: (cs' ++ '\n' :: cs) := by
    rw [inLine, hchars]
    rfl
  apply h.of_fetch isSettled_inLine hrest (isVisible_of_isWord hcWord)
  · rw [fetchFrom_word hcWord hne, fetchPlain, saveKey_of_not rfl]
    simp only [bind, Except.bind, inLine, inFlow, List.isEmpty_nil, Bool.not_true]
    rw [readPlain_bare (isBareChar_of_isBare htext) fun hzero ↦ absurd hzero hp, hread]
    simp [Except.map, push, atLine, Position.newLine, Position.along]
  · simp only [inLine, atLine, List.length_append, List.length_cons]
    omega

/-- Any text between quotes as a value. -/
theorem Yields.of_quoted {text : String} (htext : ∀ c ∈ text.toList, isBreak c = false)
    {p : Position} (h : ∀ line, (atLine true line (.scalar text false :: done) cs).Yields ts) :
    (inLine done ('\'' :: (doubled text.toList ++ '\'' :: '\n' :: cs)) p).Yields ts := by
  have hnoQuote : ('\n' :: cs).head? ≠ some '\'' := by simp
  obtain ⟨q, hread⟩ := readSingle_doubled htext hnoQuote p.next (Nat.succ_ne_zero _) .none rfl
  apply (h (q.line + 1)).of_newLine.of_fetch isSettled_inLine rfl (by decide)
  · rw [fetchFrom_single, fetchQuoted_of_not rfl, if_neg Bool.false_ne_true]
    change readSingle (doubled text.toList ++ '\'' :: '\n' :: cs) p.next .none >>= _ = _
    rw [hread]
    simp [bind, Except.bind, push, inLine, Gap.folded]
  · simp only [inLine, List.length_append, List.length_cons]
    omega

/-- The value of a line and the end of the line. -/
theorem Yields.of_value {r : Row} (hr : r.isProper = true) (hcs : startsLine cs = true)
    {p : Position}
    (h : ∀ line, (atLine true line (.scalar r.text r.isPlain :: done) cs).Yields ts) :
    (inLine done (' ' :: (r.written ++ '\n' :: cs)) p).Yields ts := by
  suffices hvalue : (inLine done (r.written ++ '\n' :: cs) p.next).Yields ts by
    exact hvalue.of_advance rfl (Nat.le_succ _)
  rw [Row.written]
  cases hplain : r.isPlain with
  | true =>
    rw [hplain] at h
    exact (h _).of_bare (Row.isBare_text hr hplain) hcs (Nat.succ_ne_zero _)
  | false =>
    have htext : ∀ c ∈ r.text.toList, isBreak c = false :=
      fun c hc ↦ isBreak_of_isPrintable (Row.isPrintable_text hr c hc)
    rw [hplain] at h
    rw [if_neg Bool.false_ne_true, List.cons_append, List.append_assoc, List.singleton_append]
    exact Yields.of_quoted htext h

/-! ## Lines of rows -/

/-- Whether the lines `cs`, where a block mapping may be open, make those tokens. -/
def Gives (inBlock : Bool) (cs : List Char) (ts : List Token) : Prop :=
  ∀ line done, (atLine inBlock line done cs).Yields (done.reverse ++ ts)

theorem gives_nil : Gives true [] [.blockEnd] := by
  intro line done fuel hfuel
  cases fuel with
  | zero => cases hfuel
  | succ fuel =>
    change (Except.ok (Token.blockEnd :: done).reverse : Except Fault _) = _
    rw [List.reverse_cons]

/-- A mark ends a document. -/
theorem Gives.mark (h : Gives false cs ts) :
    Gives true ('-' :: '-' :: '-' :: '\n' :: cs) (.blockEnd :: .documentStart :: ts) := by
  intro line done
  have hnext : (⟨⟨'\n' :: cs, ⟨line, 3⟩⟩, .documentStart :: .blockEnd :: done, 0, [], false, none,
      []⟩ : Scanner).Yields (done.reverse ++ .blockEnd :: .documentStart :: ts) := by
    have hline := h (line + 1) (.documentStart :: .blockEnd :: done)
    rw [List.reverse_cons, List.reverse_cons, List.append_assoc, List.append_assoc] at hline
    apply hline.of_advance _ (Nat.le_succ _)
    simp only [advance, atLine, inFlow, List.isEmpty_nil, Bool.not_true]
    rw [skipBlank, if_pos (by decide)]
    rfl
  apply hnext.of_fetch isSettled_atLine rfl (by decide) rfl
  simp [atLine]

/-- The tokens in front of the first row of a document. -/
def opening (inBlock : Bool) : List Token :=
  if inBlock then [] else [.blockMappingStart]

theorem Gives.row {r : Row} (hr : r.isProper = true) (hcs : startsLine cs = true)
    (h : Gives true cs ts) (inBlock : Bool) :
    Gives inBlock (r.line ++ '\n' :: cs) (opening inBlock ++ (r.tokens ++ ts)) := by
  have hkey := Row.isName_key hr
  intro line done
  rw [Row.line, List.append_assoc, List.cons_append, List.cons_append]
  apply Yields.of_atColon hkey
  apply Yields.of_inLine (length_le_of_isName hkey)
  intro p
  apply Yields.of_value hr hcs
  intro line'
  have hline := h line' (.scalar r.text r.isPlain :: .value :: .scalar r.key true ::
    .key :: if inBlock then done else .blockMappingStart :: done)
  cases inBlock <;> simpa [opening, Row.tokens] using hline

theorem startsLine_line {r : Row} (hr : r.isProper = true) (cs : List Char) :
    startsLine (r.line ++ cs) = true := by
  obtain ⟨c, cs', hchars, hc⟩ := exists_isAlpha_of_isName (Row.isName_key hr)
  rw [Row.line, hchars]
  exact isWord_of_isAlpha hc

/-- Further rows of a document. -/
theorem Gives.rows {rows : List Row} (hrows : ∀ r ∈ rows, r.isProper = true)
    (hcs : startsLine cs = true) (h : Gives true cs ts) :
    Gives true (rowsText rows ++ cs) (rows.flatMap Row.tokens ++ ts) ∧
      startsLine (rowsText rows ++ cs) = true := by
  -- A word ends at its line only if the next line starts a token, so both go up together.
  induction rows with
  | nil => exact ⟨h, hcs⟩
  | cons r rows ih =>
    obtain ⟨hr, hrest⟩ := List.forall_mem_cons.1 hrows
    obtain ⟨hgives, hstarts⟩ := ih hrest
    have htext : rowsText (r :: rows) ++ cs = r.line ++ '\n' :: (rowsText rows ++ cs) := by
      simp [rowsText]
    rw [htext, List.flatMap_cons, List.append_assoc]
    exact ⟨hgives.row hr hstarts true, startsLine_line hr _⟩

/-- A document, from its first row on. -/
theorem Gives.document {rows : List Row} (hrows : AreRows rows) (hcs : startsLine cs = true)
    (h : Gives true cs (.blockEnd :: ts)) :
    Gives false (rowsText rows ++ cs) (rowsTokens rows ++ ts) := by
  cases rows with
  | nil => exact absurd rfl hrows.ne_nil
  | cons r rows =>
    obtain ⟨hr, hrest⟩ := List.forall_mem_cons.1 hrows.isProper
    obtain ⟨hgives, hstarts⟩ := h.rows hrest hcs
    have htext : rowsText (r :: rows) ++ cs = r.line ++ '\n' :: (rowsText rows ++ cs) := by
      simp [rowsText]
    have htokens : rowsTokens (r :: rows) ++ ts = opening false ++
        (r.tokens ++ (rows.flatMap Row.tokens ++ .blockEnd :: ts)) := by
      simp [rowsTokens, opening]
    rw [htext, htokens]
    exact hgives.row hr hstarts false

/-- The documents behind the first one. -/
theorem gives_markedRows {pages : List (List Row)} (h : ∀ rows ∈ pages, AreRows rows) :
    Gives true (markedRows pages) (.blockEnd :: markedTokens pages) ∧
      startsLine (markedRows pages) = true := by
  induction pages with
  | nil => exact ⟨gives_nil, rfl⟩
  | cons rows pages ih =>
    obtain ⟨hrows, hrest⟩ := List.forall_mem_cons.1 h
    obtain ⟨hgives, hstarts⟩ := ih hrest
    exact ⟨(hgives.document hrows hstarts).mark, rfl⟩

end Scanner

/-- The tokens of rows: no text between quotes adds one or takes one away. -/
theorem tokens_rows {header : List Row} {pages : List (List Row)} (hheader : AreRows header)
    (hpages : ∀ rows ∈ pages, AreRows rows) :
    tokens (String.ofList (rowsText header ++ markedRows pages)) =
      .ok (rowsTokens header ++ markedTokens pages) := by
  have hmem : ∀ c ∈ rowsText header ++ markedRows pages,
      c = '\n' ∨ Text.isPrintable c = true := by
    intro c hc
    rcases List.mem_append.1 hc with hc | hc
    · exact isPrintable_of_mem_rowsText hheader.isProper hc
    · exact isPrintable_of_mem_markedRows hpages hc
  have hallowed : (rowsText header ++ markedRows pages).all isAllowed = true := by
    rw [List.all_eq_true]
    intro c hc
    rcases hmem c hc with rfl | hprintable
    · decide
    · simp only [Text.isPrintable] at hprintable
      simp only [isAllowed, hprintable, Bool.or_true, Bool.true_or]
  have hbreaks : unifyBreaks (rowsText header ++ markedRows pages) =
      rowsText header ++ markedRows pages := by
    apply unifyBreaks_eq_self
    intro c hc
    rcases hmem c hc with rfl | hprintable
    · decide
    · constructor <;> exact ne_of_isPrintable hprintable (by decide)
  obtain ⟨hgives, hstarts⟩ := Scanner.gives_markedRows hpages
  have hyields := hgives.document hheader hstarts 0 []
  unfold tokens
  rw [String.toList_ofList]
  dsimp only
  rw [if_pos hallowed, hbreaks]
  exact hyields _ (Nat.lt_succ_self _)

end Yaml

end FolderCommands
