import FolderCommands.Proofs.Grammar.Marks
import FolderCommands.Proofs.Names
import FolderCommands.Proofs.Yaml.Lines

/-!
# Declarations that are written plainly

A declaration whose value is a word, in quotes or not, with white space behind the colon and
nothing but a comment at the end of the line, is read alike by the check and by YAML, provided that
the next line does not go on with it by being indented further.
-/

namespace FolderCommands.Grammar

open Yaml

/-! ## Plain layout -/

/-- Whether a word ends in the quote `q` and closes the line. -/
def closesQuote (q : Char) (cs : List Char) : Bool :=
  match cs.dropWhile isWord with
  | c :: tail => c = q && closesLine tail
  | [] => false

/-- Whether a value is a word, in quotes or not, that closes the line. -/
def isPlainValue : List Char → Bool
  | '\'' :: cs => closesQuote '\'' cs
  | '"' :: cs => closesQuote '"' cs
  | cs => closesLine (cs.dropWhile isWord)

/-- Whether a line is a key, a colon with white space behind it and a plain value. -/
def isPlainEntry (line : List Char) : Bool :=
  (line.dropWhile Yaml.isGap).head?.any isWord &&
    match ((line.dropWhile Yaml.isGap).dropWhile isWord).dropWhile Yaml.isGap with
    | ':' :: value => value.head?.any Yaml.isGap && isPlainValue (value.dropWhile Yaml.isGap)
    | _ => false

namespace Step

/-- Whether the line names a command set or a command. -/
def isNaming (s : Step) : Bool :=
  !s.isMark && match s.before with
    | .header | .command _ => true
    | _ => false

/-- Whether YAML sees the line as the check does and, where it names something, the same name. -/
def isPlain (s : Step) : Bool :=
  s.isRegular && (!s.isNaming || isPlainEntry s.line)

theorem isRegular_of_isPlain {s : Step} (h : s.isPlain = true) : s.isRegular = true :=
  (Bool.and_eq_true_iff.1 h).1

/-- Whether the line is the header, or one in front of it or right behind it. -/
def isHeading (s : Step) : Bool :=
  match s.before with
  | .header | .separator _ => true
  | _ => false

/-- How far the line is indented. -/
def indent (s : Step) : Nat :=
  (s.line.takeWhile (· = ' ')).length

end Step

/-- Whether all lines are plain, and none goes on with a name in the line before it. -/
def arePlain : List Step → Bool
  | [] => true
  | s :: rest =>
    s.isPlain && (!s.isNaming || rest.head?.all (·.indent ≤ s.indent)) && arePlain rest

/-! ## Parts of a line -/

/-- Keys and the white space around them are those of YAML. -/
theorem declaration?_eq (line : List Char) :
    declaration? line =
      let start := (withoutComment line).dropWhile Yaml.isGap
      match (start.dropWhile isWord).dropWhile Yaml.isGap with
      | ':' :: value =>
        if (start.takeWhile isWord).isEmpty then none
        else some ⟨String.ofList (start.takeWhile isWord), String.ofList (bareValue value)⟩
      | _ => none :=
  rfl

theorem takeWhile_append_stop {p : Char → Bool} {cs ds : List Char} (hcs : ∀ c ∈ cs, p c = true)
    (hds : ∀ d, ds.head? = some d → p d = false) : (cs ++ ds).takeWhile p = cs := by
  rw [List.takeWhile_append_of_pos hcs]
  cases ds with
  | nil => exact List.append_nil _
  | cons d ds => rw [List.takeWhile_cons_of_neg (by simp [hds d rfl]), List.append_nil]

theorem dropWhile_append_stop {p : Char → Bool} {cs ds : List Char} (hcs : ∀ c ∈ cs, p c = true)
    (hds : ∀ d, ds.head? = some d → p d = false) : (cs ++ ds).dropWhile p = ds := by
  rw [List.dropWhile_append_of_pos hcs]
  exact Text.dropWhile_eq_self_of_head hds

theorem withoutComment_append {cs : List Char} (h : '#' ∉ cs) (ds : List Char) :
    withoutComment (cs ++ ds) = cs ++ withoutComment ds := by
  refine List.takeWhile_append_of_pos fun c hc ↦ decide_eq_true ?_
  rintro rfl
  exact h hc

theorem withoutComment_eq_self {cs : List Char} (h : '#' ∉ cs) : withoutComment cs = cs := by
  have happend := withoutComment_append h []
  rwa [List.append_nil, show withoutComment [] = [] from rfl, List.append_nil] at happend

theorem notMem_of_isGap {cs : List Char} (h : ∀ c ∈ cs, Yaml.isGap c = true) : '#' ∉ cs :=
  fun hc ↦ nomatch h '#' hc

theorem notMem_of_isWord {cs : List Char} (h : ∀ c ∈ cs, isWord c = true) : '#' ∉ cs :=
  fun hc ↦ nomatch h '#' hc

theorem notMem_of_writes {word written : List Char} {isPlain : Bool}
    (h : Scanner.Writes word isPlain written) (hword : ∀ c ∈ word, isWord c = true) :
    '#' ∉ written := by
  cases h with
  | plain => exact notMem_of_isWord hword
  | single | double => simpa using notMem_of_isWord hword

theorem ne_of_isGap {c : Char} (h : Yaml.isGap c = true) : isWord c = false := by
  have hc : c = ' ' ∨ c = '\t' := by simpa [Yaml.isGap] using h
  rcases hc with rfl | rfl <;> decide

/-- Without tabs, indentation is made of spaces. -/
theorem eq_replicate_of_isGap {cs : List Char} (h : ∀ c ∈ cs, Yaml.isGap c = true)
    (htab : '\t' ∉ cs) : cs = List.replicate cs.length ' ' := by
  refine List.eq_replicate_iff.2 ⟨rfl, fun c hc ↦ ?_⟩
  have hgap : c = ' ' ∨ c = '\t' := by simpa [Yaml.isGap] using h c hc
  rcases hgap with rfl | rfl
  · rfl
  · exact absurd hc htab

/-- The declaration in a line of that form. -/
theorem declaration?_append {lead key gap value : List Char} (hcomment : '#' ∉ value)
    (hlead : ∀ c ∈ lead, Yaml.isGap c = true) (hkey : ∀ c ∈ key, isWord c = true) (hne : key ≠ [])
    (hgap : ∀ c ∈ gap, Yaml.isGap c = true) {comment : List Char}
    (htail : withoutComment comment = []) :
    declaration? (lead ++ (key ++ (gap ++ ':' :: (value ++ comment)))) =
      some ⟨String.ofList key, String.ofList (bareValue value)⟩ := by
  have hcut : withoutComment (lead ++ (key ++ (gap ++ ':' :: (value ++ comment)))) =
      lead ++ (key ++ (gap ++ ':' :: value)) := by
    rw [withoutComment_append (notMem_of_isGap hlead), withoutComment_append (notMem_of_isWord hkey),
      withoutComment_append (notMem_of_isGap hgap), ← List.cons_append,
      withoutComment_append (by simp [hcomment]), htail, List.append_nil]
  have hfirst : (lead ++ (key ++ (gap ++ ':' :: value))).dropWhile Yaml.isGap =
      key ++ (gap ++ ':' :: value) := by
    refine dropWhile_append_stop hlead ?_
    obtain ⟨c, key', rfl⟩ := List.exists_cons_of_ne_nil hne
    rintro d ⟨⟩
    exact isGap_of_isWord (hkey c List.mem_cons_self)
  have hstop : ∀ d, (gap ++ ':' :: value).head? = some d → isWord d = false := by
    cases gap with
    | nil =>
      rintro d ⟨⟩
      decide
    | cons c gap =>
      rintro d ⟨⟩
      exact ne_of_isGap (hgap c List.mem_cons_self)
  have hcolon : (gap ++ ':' :: value).dropWhile Yaml.isGap = ':' :: value := by
    refine dropWhile_append_stop hgap ?_
    rintro d ⟨⟩
    decide
  rw [declaration?_eq, hcut, hfirst]
  dsimp only
  rw [takeWhile_append_stop hkey hstop, dropWhile_append_stop hkey hstop, hcolon]
  exact if_neg (by simp [hne])

/-! ## Declarations -/

/-- A declaration starts with its key. -/
theorem exists_of_declaration? {line : List Char} {d : Declaration} (h : declaration? line = some d)
    (htab : '\t' ∉ line) : ∃ n rest, line = List.replicate n ' ' ++ (d.key.toList ++ rest) ∧
      (∀ c ∈ d.key.toList, isWord c = true) := by
  have hline : withoutComment line ++ line.dropWhile (· ≠ '#') = line :=
    List.takeWhile_append_dropWhile
  generalize line.dropWhile (· ≠ '#') = comment at hline
  rw [declaration?_eq] at h
  dsimp only at h
  split at h
  · split at h
    · cases h
    · cases h
      dsimp only
      rw [String.toList_ofList]
      generalize withoutComment line = text at hline
      have hlead : ∀ c ∈ text.takeWhile Yaml.isGap, Yaml.isGap c = true :=
        fun c hc ↦ List.all_eq_true.1 List.all_takeWhile c hc
      have htext := List.takeWhile_append_dropWhile (p := Yaml.isGap) (l := text)
      have hkey := List.takeWhile_append_dropWhile (p := isWord) (l := text.dropWhile Yaml.isGap)
      refine ⟨(text.takeWhile Yaml.isGap).length,
        (text.dropWhile Yaml.isGap).dropWhile isWord ++ comment, ?_,
        fun c hc ↦ List.all_eq_true.1 List.all_takeWhile c hc⟩
      rw [← eq_replicate_of_isGap hlead, ← List.append_assoc, ← List.append_assoc, List.append_assoc
        (text.takeWhile Yaml.isGap), hkey, htext, hline]
      intro hmem
      refine htab ?_
      rw [← hline, ← htext]
      exact List.mem_append_left _ (List.mem_append_left _ hmem)
  · cases h

/-- The parts of a plain value. -/
theorem exists_of_isPlainValue {cs : List Char} (h : isPlainValue cs = true) :
    ∃ word written tail isPlain, cs = written ++ tail ∧ Scanner.Writes word isPlain written ∧
      (∀ c ∈ word, isWord c = true) ∧ closesLine tail = true := by
  have hquote (q : Char) (cs : List Char) (h : closesQuote q cs = true) :
      ∃ tail, cs = cs.takeWhile isWord ++ q :: tail ∧ closesLine tail = true := by
    rw [closesQuote] at h
    split at h
    · rename_i c tail hdrop
      simp only [Bool.and_eq_true, decide_eq_true_eq] at h
      obtain ⟨rfl, hclose⟩ := h
      refine ⟨tail, ?_, hclose⟩
      rw [← hdrop, List.takeWhile_append_dropWhile]
    · cases h
  have hword (cs : List Char) : ∀ c ∈ cs.takeWhile isWord, isWord c = true :=
    fun c hc ↦ List.all_eq_true.1 List.all_takeWhile c hc
  rw [isPlainValue.eq_def] at h
  split at h
  · rename_i cs
    obtain ⟨tail, hcs, hclose⟩ := hquote _ cs h
    refine ⟨_, _, tail, false, ?_, .single, hword cs, hclose⟩
    rw [List.cons_append, List.append_assoc, List.singleton_append, ← hcs]
  · rename_i cs
    obtain ⟨tail, hcs, hclose⟩ := hquote _ cs h
    refine ⟨_, _, tail, false, ?_, .double, hword cs, hclose⟩
    rw [List.cons_append, List.append_assoc, List.singleton_append, ← hcs]
  · exact ⟨_, _, _, true, List.takeWhile_append_dropWhile.symm, .plain, hword cs, h⟩

/-- What the check makes of a word that is written as a value. -/
theorem bareValue_of_writes {word written space gaps : List Char} {isPlain : Bool}
    (h : Scanner.Writes word isPlain written) (hword : ∀ c ∈ word, isWord c = true)
    (hspace : ∀ c ∈ space, Yaml.isGap c = true) (hgaps : ∀ c ∈ gaps, Yaml.isGap c = true) :
    bareValue (space ++ (written ++ gaps)) = word := by
  have hblank {cs : List Char} (hcs : ∀ c ∈ cs, Yaml.isGap c = true) :
      ∀ c ∈ cs, Text.isBlank c = true := by
    intro c hc
    have hgap : c = ' ' ∨ c = '\t' := by simpa [Yaml.isGap] using hcs c hc
    rcases hgap with rfl | rfl <;> decide
  have hvisible : ∀ c ∈ word, Text.isBlank c = false := fun c hc ↦ isBlank_of_isWord (hword c hc)
  have htrim : Text.trim (space ++ (written ++ gaps)) = written := by
    refine Text.trimWhile_append space written gaps (hblank hspace) ?_ (hblank hgaps)
    cases h with
    | plain => exact hvisible
    | single | double =>
      intro c hc
      simp only [List.mem_cons, List.mem_append, List.not_mem_nil, or_false] at hc
      rcases hc with rfl | hc | rfl
      · decide
      · exact hvisible c hc
      · decide
  have hquotes : Text.trimWhile (fun c ↦ c = '"' || c = '\'') written = word := by
    have hnone : ∀ c ∈ word, (fun c : Char ↦ c = '"' || c = '\'') c = false := by
      intro c hc
      simp [ne_of_isWord (hword c hc) (c := '"') (by decide),
        ne_of_isWord (hword c hc) (c := '\'') (by decide)]
    cases h with
    | plain => simpa using Text.trimWhile_append [] word [] (by simp) hnone (by simp)
    | single => exact Text.trimWhile_append ['\''] word ['\''] (by simp) hnone (by simp)
    | double => exact Text.trimWhile_append ['"'] word ['"'] (by simp) hnone (by simp)
  rw [bareValue, htrim, hquotes, Text.trim_word hword]

/-! ## Plain entries -/

/-- The parts of a line that is a plain entry. -/
structure Parts (line : List Char) where
  lead : List Char
  key : List Char
  /-- The white space in front of the colon. -/
  gap : List Char
  /-- The white space behind the colon. -/
  space : List Char
  word : List Char
  written : List Char
  isPlain : Bool
  /-- The end of the line. -/
  tail : List Char
  eq_append : line = lead ++ (key ++ (gap ++ ':' :: (space ++ (written ++ tail))))
  lead_isGap : ∀ c ∈ lead, Yaml.isGap c = true
  key_isWord : ∀ c ∈ key, isWord c = true
  key_ne_nil : key ≠ []
  gap_isGap : ∀ c ∈ gap, Yaml.isGap c = true
  space_isGap : ∀ c ∈ space, Yaml.isGap c = true
  space_ne_nil : space ≠ []
  writes : Scanner.Writes word isPlain written
  word_isWord : ∀ c ∈ word, isWord c = true
  tail_closesLine : closesLine tail = true

theorem mem_takeWhile {p : Char → Bool} {cs : List Char} : ∀ c ∈ cs.takeWhile p, p c = true :=
  fun c hc ↦ List.all_eq_true.1 List.all_takeWhile c hc

theorem takeWhile_ne_nil {p : Char → Bool} {cs : List Char} (h : cs.head?.any p = true) :
    cs.takeWhile p ≠ [] := by
  cases cs with
  | nil => cases h
  | cons c cs =>
    have hc : p c = true := h
    simp [hc]

theorem nonempty_parts {line : List Char} (h : isPlainEntry line = true) :
    Nonempty (Parts line) := by
  rw [isPlainEntry, Bool.and_eq_true_iff] at h
  obtain ⟨hstartword, h⟩ := h
  have hline := List.takeWhile_append_dropWhile (p := Yaml.isGap) (l := line)
  generalize line.dropWhile Yaml.isGap = start at hline h hstartword
  have hstart := List.takeWhile_append_dropWhile (p := isWord) (l := start)
  generalize start.dropWhile isWord = middle at hstart h
  have hmiddle := List.takeWhile_append_dropWhile (p := Yaml.isGap) (l := middle)
  split at h
  · rename_i value hcolon
    obtain ⟨hfirst, hplain⟩ := Bool.and_eq_true_iff.1 h
    have hvalue := List.takeWhile_append_dropWhile (p := Yaml.isGap) (l := value)
    obtain ⟨word, written, tail, isPlain, hwritten, hwrites, hword, hclose⟩ :=
      exists_of_isPlainValue hplain
    refine ⟨⟨line.takeWhile Yaml.isGap, start.takeWhile isWord, middle.takeWhile Yaml.isGap,
      value.takeWhile Yaml.isGap, word, written, isPlain, tail, ?_, mem_takeWhile, mem_takeWhile,
      takeWhile_ne_nil hstartword, mem_takeWhile, mem_takeWhile, takeWhile_ne_nil hfirst, hwrites,
      hword, hclose⟩⟩
    rw [← hwritten, hvalue, ← hcolon, hmiddle, hstart, hline]
  · cases h

namespace Parts

variable {line : List Char} (p : Parts line)

/-- The check sees the key and the word. -/
theorem declaration?_eq :
    declaration? line = some ⟨String.ofList p.key, String.ofList p.word⟩ := by
  obtain ⟨gaps, comment, htail, hgaps, hcomment⟩ := exists_of_closesLine p.tail_closesLine
  have hnocomment : '#' ∉ p.space ++ (p.written ++ gaps) := by
    simp only [List.mem_append, not_or]
    exact ⟨notMem_of_isGap p.space_isGap, notMem_of_writes p.writes p.word_isWord, notMem_of_isGap hgaps⟩
  have hcut : withoutComment comment = [] := by
    rcases hcomment with rfl | ⟨-, text, rfl⟩ <;> rfl
  have hd := declaration?_append hnocomment p.lead_isGap p.key_isWord p.key_ne_nil p.gap_isGap hcut
  rw [bareValue_of_writes p.writes p.word_isWord p.space_isGap hgaps, List.append_assoc,
    List.append_assoc, ← htail, ← p.eq_append] at hd
  exact hd

variable (htab : '\t' ∉ line)

include htab

theorem lead_eq : p.lead = List.replicate p.lead.length ' ' := by
  refine eq_replicate_of_isGap p.lead_isGap fun hmem ↦ htab ?_
  rw [p.eq_append]
  exact List.mem_append_left _ hmem

theorem lead_eq_takeWhile : line.takeWhile (· = ' ') = p.lead := by
  have hline := congrArg (List.takeWhile fun c ↦ decide (c = ' ')) p.eq_append
  refine hline.trans (takeWhile_append_stop (fun c hc ↦ ?_) fun c hc ↦ ?_)
  · rw [p.lead_eq htab] at hc
    exact decide_eq_true (List.eq_of_mem_replicate hc)
  · obtain ⟨a, key, hkey⟩ := List.exists_cons_of_ne_nil p.key_ne_nil
    rw [hkey] at hc
    cases hc
    exact decide_eq_false (ne_of_isWord (p.key_isWord _ (hkey ▸ List.mem_cons_self)) (by decide))

end Parts

/-- A plain entry is an entry to YAML as well, with the lines after it. -/
theorem exists_entry {line : List Char} {d : Declaration} (h : isPlainEntry line = true)
    (hd : declaration? line = some d) (htab : '\t' ∉ line) {k : Nat} {rest : List Char}
    (hk : k = 0 → rest = []) :
    ∃ n cs, line ++ (List.replicate k '\n' ++ rest) = List.replicate n ' ' ++ cs ∧
      n = (line.takeWhile (· = ' ')).length ∧ (∀ c ∈ d.key.toList, isWord c = true) ∧
      (∀ c ∈ d.value.toList, isWord c = true) ∧
      ∃ e : Scanner.Entry d.key.toList d.value.toList cs, e.rest = rest := by
  obtain ⟨p⟩ := nonempty_parts h
  obtain rfl := Option.some.inj (hd.symm.trans p.declaration?_eq)
  refine ⟨p.lead.length, p.key ++ (p.gap ++ ':' :: (p.space ++ (p.written ++ (p.tail ++
    (List.replicate k '\n' ++ rest))))), ?_, by rw [p.lead_eq_takeWhile htab], ?_, ?_, ?_⟩
  · rw [← p.lead_eq htab]
    conv_lhs => rw [p.eq_append]
    simp only [List.append_assoc, List.cons_append]
  · rw [String.toList_ofList]
    exact p.key_isWord
  · rw [String.toList_ofList]
    exact p.word_isWord
  · rw [String.toList_ofList, String.toList_ofList]
    exact ⟨⟨p.gap, p.space, p.written, p.isPlain, p.tail, k, rest, rfl, p.gap_isGap,
      p.space_isGap, p.space_ne_nil, p.writes, p.tail_closesLine, hk⟩, rfl⟩

/-! ## Indentation -/

namespace Step

variable {s : Step}

theorem IsAccepted.line_ne_nil (h : s.IsAccepted) : s.line ≠ [] := by
  intro hnil
  have hcounts := h.counts
  rw [hnil] at hcounts
  cases hcounts

/-- A line that counts is not blank. -/
theorem IsAccepted.exists_indent (h : s.IsAccepted) (hbreak : isUnbroken s.line = true) :
    ∃ c rest, s.line = List.replicate s.indent ' ' ++ c :: rest ∧ Yaml.isGap c = false ∧
      isBreak c = false := by
  have hline := List.takeWhile_append_dropWhile (p := fun c ↦ decide (c = ' ')) (l := s.line)
  have hspaces : s.line.takeWhile (· = ' ') = List.replicate s.indent ' ' :=
    List.eq_replicate_iff.2 ⟨rfl, fun c hc ↦
      of_decide_eq_true (List.all_eq_true.1 List.all_takeWhile c hc)⟩
  rw [hspaces] at hline
  cases hdrop : s.line.dropWhile (· = ' ') with
  | nil =>
    have hblank : Text.trim s.line = [] := by
      have hall : ∀ c ∈ List.replicate s.indent ' ', Text.isBlank c = true := by
        intro c hc
        rw [List.eq_of_mem_replicate hc]
        decide
      rw [← hline, hdrop]
      exact Text.trimWhile_append _ [] [] hall (by simp) (by simp)
    have hcounts := h.counts
    rw [hblank] at hcounts
    cases hcounts
  | cons c rest =>
    rw [hdrop] at hline
    have hmem : c ∈ s.line := by
      rw [← hline]
      exact List.mem_append_right _ List.mem_cons_self
    have hspace : c ≠ ' ' := by
      have hhead : (s.line.dropWhile fun c ↦ decide (c = ' ')).head? = some c := by
        rw [hdrop]
        rfl
      exact of_decide_eq_false (Text.head?_dropWhile_false hhead)
    have htab : c ≠ '\t' := by
      rintro rfl
      exact h.noTabs hmem
    exact ⟨c, rest, hline.symm, by simp [Yaml.isGap, hspace, htab], (isUnbroken_spec hbreak hmem).1⟩

theorem indent_of_isMark (h : s.isRegular = true) (hmark : s.isMark = true) : s.indent = 0 := by
  obtain ⟨tail, hline, -⟩ := s.exists_tail h hmark
  rw [indent, hline]
  rfl

end Step

/-- Lines that are indented no further end a plain scalar. -/
theorem endsScalar_content {rest : List Step} {n : Nat}
    (hlines : Text.AreLines (rest.map (·.raw)))
    (h : ∀ s ∈ rest.head?, s.IsAccepted ∧ isUnbroken s.line = true ∧ s.indent ≤ n) :
    EndsScalar (n + 1) (content rest) := by
  cases rest with
  | nil => exact .inl rfl
  | cons s rest =>
    obtain ⟨haccepted, hbreak, hindent⟩ := h s rfl
    obtain ⟨c, line, hline, hgap, hc⟩ := haccepted.exists_indent hbreak
    obtain ⟨k, hcontent, -⟩ := content_cons hlines hbreak
    have hfirst : content (s :: rest) = List.replicate s.indent ' ' ++
        c :: (line ++ (List.replicate k '\n' ++ content rest)) := by
      rw [hcontent, hline, List.append_assoc, List.cons_append]
    exact .inr ⟨s.indent, c, _, hfirst, Nat.lt_succ_of_le hindent, hgap, hc⟩

/-! ## Plain lines -/

theorem isPlain_of_arePlain {l : List Step} (h : arePlain l = true) {s : Step} (hs : s ∈ l) :
    s.isPlain = true := by
  induction l with
  | nil => cases hs
  | cons s' rest ih =>
    rw [arePlain, Bool.and_eq_true, Bool.and_eq_true] at h
    rcases List.mem_cons.1 hs with rfl | hs
    · exact h.1.1
    · exact ih h.2 hs

theorem arePlain_of_isSuffix {l l' : List Step} (h : arePlain l = true) (hl : l' <:+ l) :
    arePlain l' = true := by
  induction l with
  | nil =>
    rw [List.suffix_nil.1 hl]
    rfl
  | cons s rest ih =>
    rcases List.suffix_cons_iff.1 hl with rfl | hl
    · exact h
    · rw [arePlain, Bool.and_eq_true] at h
      exact ih h.2 hl

/-- Plain lines do not go on with a name in the line before them. -/
theorem endsScalar_of_arePlain {s : Step} {rest : List Step} (h : arePlain (s :: rest) = true)
    (hnaming : s.isNaming = true) (hlines : Text.AreLines ((s :: rest).map (·.raw)))
    (haccepted : ∀ s ∈ rest, s.IsAccepted) : EndsScalar (s.indent + 1) (content rest) := by
  rw [arePlain, Bool.and_eq_true, Bool.and_eq_true, hnaming, Bool.not_true, Bool.false_or] at h
  obtain ⟨⟨-, hindent⟩, hrest⟩ := h
  refine endsScalar_content hlines.tail fun s' hs' ↦ ?_
  have hmem := List.mem_of_mem_head? hs'
  have hregular := Step.isRegular_of_isPlain (isPlain_of_arePlain hrest hmem)
  rw [hs'] at hindent
  exact ⟨haccepted s' hmem, Step.isUnbroken_of_isRegular hregular, of_decide_eq_true hindent⟩

end FolderCommands.Grammar
