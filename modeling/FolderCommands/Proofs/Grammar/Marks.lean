import FolderCommands.Proofs.Grammar.Steps
import FolderCommands.Proofs.Yaml.Words
import FolderCommands.Text.Trimming
import Mathlib.Data.List.Forall2

/-!
# Separators of the check and document marks

The check and YAML see the same separators where the lines are laid out plainly: no line holds a
character that is a line break to YAML alone, and each separator stands at the start of its line
with nothing but white space or a comment behind it.
-/

namespace FolderCommands

namespace Text

/-- Whether pieces of a text are lines of it: all but the last end in a line feed. -/
inductive AreLines : List (List Char) → Prop
  | nil : AreLines []
  | last (line : List Char) : AreLines [line]
  | cons (line : List Char) {rest : List (List Char)} (h : AreLines rest) :
      AreLines ((line ++ ['\n']) :: rest)

theorem areLines_rawLines (cs : List Char) : AreLines (rawLines cs) := by
  induction cs with
  | nil => exact .nil
  | cons c cs ih =>
    rw [rawLines]
    split
    · exact .cons [] ih
    · split
      · exact .last [c]
      · rename_i line rest hlines
        rw [hlines] at ih
        cases ih with
        | last => exact .last _
        | cons line h => exact .cons (c :: line) h

theorem AreLines.of_isPrefix {lines lines' : List (List Char)} (h : AreLines lines)
    (hinit : lines' <+: lines) : AreLines lines' := by
  induction h generalizing lines' with
  | nil =>
    rw [List.prefix_nil.1 hinit]
    exact .nil
  | last line =>
    cases lines' with
    | nil => exact .nil
    | cons line' rest =>
      obtain ⟨rfl, hrest⟩ := List.cons_prefix_cons.1 hinit
      rw [List.prefix_nil.1 hrest]
      exact .last line'
  | cons line _ ih =>
    cases lines' with
    | nil => exact .nil
    | cons line' rest =>
      rw [(List.cons_prefix_cons.1 hinit).1]
      exact .cons line (ih (List.cons_prefix_cons.1 hinit).2)

theorem AreLines.tail {line : List Char} {rest : List (List Char)} (h : AreLines (line :: rest)) :
    AreLines rest := by
  cases h with
  | last => exact .nil
  | cons _ h => exact h

theorem AreLines.of_isSuffix {lines lines' : List (List Char)} (h : AreLines lines)
    (hsuffix : lines' <:+ lines) : AreLines lines' := by
  induction lines with
  | nil => rwa [List.suffix_nil.1 hsuffix]
  | cons line rest ih =>
    rcases List.suffix_cons_iff.1 hsuffix with rfl | hsuffix
    · exact h
    · exact ih h.tail hsuffix

end Text

open Yaml

namespace Grammar

/-! ## Plain layout -/

/-- Whether no character is a line break to YAML. -/
def isUnbroken (cs : List Char) : Bool :=
  cs.all fun c ↦ !(isBreak c || c = '\r' || c = '\u0085')

namespace Step

/-- Whether a separator stands at the start of its line and alone. -/
def isFlush (s : Step) : Bool :=
  !s.isMark || (opensSeparator s.line && closesLine (s.line.drop 3))

/-- Whether YAML sees the line as the check does: as one line, and as a separator if it is one. -/
def isRegular (s : Step) : Bool :=
  isUnbroken s.line && s.isFlush

theorem isUnbroken_of_isRegular {s : Step} (h : s.isRegular = true) : isUnbroken s.line = true :=
  (Bool.and_eq_true_iff.1 h).1

end Step

theorem areLines_accepted (source : String) : Text.AreLines ((accepted source).map (·.raw)) :=
  (Text.areLines_rawLines source.toList).of_isPrefix (isPrefix_steps .header _)

/-! ## Line breaks -/

/-- The text of accepted lines as YAML reads it. -/
def content (l : List Step) : List Char :=
  unifyBreaks (l.flatMap (·.raw))

theorem isUnbroken_spec {cs : List Char} (h : isUnbroken cs = true) {c : Char} (hc : c ∈ cs) :
    isBreak c = false ∧ c ≠ '\r' ∧ c ≠ '\u0085' := by
  have hall := List.all_eq_true.1 h c hc
  simpa only [Bool.not_eq_true', Bool.or_eq_false_iff, decide_eq_false_iff_not, and_assoc]
    using hall

theorem isUnbroken_append (cs ds : List Char) :
    isUnbroken (cs ++ ds) = (isUnbroken cs && isUnbroken ds) :=
  List.all_append

theorem isUnbroken_tail {c : Char} {cs : List Char} (h : isUnbroken (c :: cs) = true) :
    isUnbroken cs = true :=
  (Bool.and_eq_true_iff.1 (isUnbroken_append [c] cs ▸ h)).2

theorem unifyBreaks_append {cs : List Char} (h : isUnbroken cs = true) (ds : List Char) :
    unifyBreaks (cs ++ ds) = cs ++ unifyBreaks ds := by
  induction cs with
  | nil => rfl
  | cons c cs ih =>
    obtain ⟨-, hreturn, hnext⟩ := isUnbroken_spec h List.mem_cons_self
    rw [List.cons_append, unifyBreaks, if_neg (by simp [hreturn, hnext]), ih (isUnbroken_tail h)]
    · rfl
    · rintro ds rfl
      exact absurd rfl hreturn

/-- Carriage returns in front of a line feed make line feeds. -/
theorem unifyBreaks_lineEnd {ends : List Char} (h : ∀ c ∈ ends, c = '\n' ∨ c = '\r')
    (ds : List Char) :
    ∃ k, unifyBreaks (ends ++ '\n' :: ds) = List.replicate (k + 1) '\n' ++ unifyBreaks ds := by
  induction ends with
  | nil => exact ⟨0, by simp [unifyBreaks]⟩
  | cons c ends ih =>
    obtain ⟨hc, hends⟩ := List.forall_mem_cons.1 h
    obtain ⟨k, hk⟩ := ih hends
    have hfeed : unifyBreaks ('\n' :: (ends ++ '\n' :: ds)) =
        List.replicate (k + 1 + 1) '\n' ++ unifyBreaks ds := by
      rw [unifyBreaks, hk]
      · rfl
      · simp
    rcases hc with rfl | rfl
    · exact ⟨k + 1, hfeed⟩
    · cases ends with
      | nil => exact ⟨0, by simp [unifyBreaks]⟩
      | cons d ends =>
        rcases hends d List.mem_cons_self with rfl | rfl
        -- A return and a feed are one break.
        · refine ⟨k, ?_⟩
          rw [← hk]
          simp [unifyBreaks]
        · refine ⟨k + 1, ?_⟩
          rw [← hfeed, List.cons_append, unifyBreaks, unifyBreaks]
          all_goals simp

theorem unifyBreaks_end {ends : List Char} (h : ∀ c ∈ ends, c = '\n' ∨ c = '\r') :
    ∃ k, unifyBreaks ends = List.replicate k '\n' := by
  fun_induction unifyBreaks ends with
  | case1 => exact ⟨0, rfl⟩
  | case2 cs ih =>
    obtain ⟨k, hk⟩ := ih fun c hc ↦ h c (by simp [hc])
    exact ⟨k + 1, by rw [hk]; rfl⟩
  | case3 c cs _ ih =>
    obtain ⟨k, hk⟩ := ih fun c hc ↦ h c (by simp [hc])
    refine ⟨k + 1, ?_⟩
    rw [hk]
    rcases h c List.mem_cons_self with rfl | rfl <;> rfl

theorem exists_lineContent_append (raw : List Char) :
    ∃ ends, raw = lineContent raw ++ ends ∧ ∀ c ∈ ends, c = '\n' ∨ c = '\r' := by
  obtain ⟨ends, hends, hall⟩ := Text.exists_dropEndWhile_append
    (fun c ↦ c = '\n' || c = '\r') raw
  exact ⟨ends, hends, fun c hc ↦ by simpa using hall c hc⟩

/-- The line breaks at the end of a line are trimmed anyway. -/
theorem trim_lineContent (raw : List Char) : Text.trim (lineContent raw) = Text.trim raw := by
  obtain ⟨ends, hraw, hends⟩ := exists_lineContent_append raw
  have hblank : ∀ c ∈ ends, Text.isBlank c = true := by
    intro c hc
    rcases hends c hc with rfl | rfl
    · decide
    · decide
  conv_rhs => rw [hraw]
  exact (Text.trimWhile_append_end hblank _).symm

/-- A line, its breaks and the lines after it. -/
theorem content_cons {s : Step} {rest : List Step}
    (hlines : Text.AreLines ((s :: rest).map (·.raw))) (h : isUnbroken s.line = true) :
    ∃ k, content (s :: rest) = s.line ++ (List.replicate k '\n' ++ content rest) ∧
      (k = 0 → rest = []) := by
  rw [content, List.flatMap_cons, List.map_cons] at *
  generalize hraw : s.raw = raw at hlines ⊢
  generalize hraws : rest.map (·.raw) = raws at hlines
  cases hlines with
  | last =>
    obtain rfl : rest = [] := List.map_eq_nil_iff.1 hraws
    obtain ⟨ends, hends, hall⟩ := exists_lineContent_append s.raw
    obtain ⟨k, hk⟩ := unifyBreaks_end hall
    refine ⟨k, ?_, fun _ ↦ rfl⟩
    rw [List.flatMap_nil, List.append_nil, ← hraw, hends, ← Step.line, unifyBreaks_append h, hk]
    rw [content, List.flatMap_nil, unifyBreaks, List.append_nil]
  | cons line =>
    obtain ⟨ends, hends, hall⟩ := exists_lineContent_append line
    obtain ⟨k, hk⟩ := unifyBreaks_lineEnd hall (rest.flatMap (·.raw))
    have hline : lineContent line = s.line := by
      rw [Step.line, hraw, lineContent, lineContent, Text.dropEndWhile_append_of_pos (by simp)]
    refine ⟨k + 1, ?_, nofun⟩
    rw [hends, hline, List.append_assoc, List.append_assoc, unifyBreaks_append h,
      List.singleton_append, hk, content]

/-! ## Marks -/

theorem marks_unbroken {cs : List Char} (h : isUnbroken cs = true) (ds : List Char) :
    marks false (cs ++ ds) = marks false ds := by
  induction cs with
  | nil => rfl
  | cons c cs ih =>
    have hc : isBreak c = false := (isUnbroken_spec h List.mem_cons_self).1
    rw [List.cons_append, marks, Bool.false_and, if_neg Bool.false_ne_true, hc,
      ih (isUnbroken_tail h)]

theorem marks_lineBreaks (atStart : Bool) (k : Nat) (cs : List Char) :
    marks atStart (List.replicate (k + 1) '\n' ++ cs) = marks true cs := by
  induction k generalizing atStart with
  | zero =>
    rw [List.replicate_one, List.singleton_append, marks,
      if_neg (by simp [atMark_eq_false (a := '-') (c := '\n') (by decide)])]
    rfl
  | succ k ih =>
    rw [List.replicate_succ, List.cons_append, marks,
      if_neg (by simp [atMark_eq_false (a := '-') (c := '\n') (by decide)])]
    exact ih (isBreak '\n')

/-- A separator is still one when it is trimmed. -/
theorem opensSeparator_trim {cs : List Char} (h : opensSeparator cs = true) :
    opensSeparator (Text.trim cs) = true := by
  obtain ⟨rest, rfl⟩ := List.isPrefixOf_iff_prefix.1 h
  have hhyphen : Text.isBlank '-' = false := by decide
  rw [Text.trim, Text.trimWhile, List.cons_append, List.dropWhile_cons_of_neg (by simp [hhyphen])]
  simp only [List.cons_append, List.nil_append, Text.dropEndWhile_cons_of_neg hhyphen]
  rfl

/-- What comes behind a line. -/
def EndsLine (cs : List Char) : Prop :=
  ∀ c, cs.head? = some c → c = '\n'

theorem opensSeparator_of_atMark {cs ds : List Char} (hds : EndsLine ds)
    (h : atMark '-' (cs ++ ds) = true) : opensSeparator cs = true := by
  have hnot (es : List Char) : ds ≠ '-' :: es := by
    rintro rfl
    exact absurd (hds '-' rfl) (by decide)
  unfold atMark at h
  split at h
  · rename_i a b d rest heq
    simp only [Bool.and_eq_true, decide_eq_true_eq] at h
    obtain ⟨⟨⟨rfl, rfl⟩, rfl⟩, -⟩ := h
    rcases cs with _ | ⟨a, _ | ⟨b, _ | ⟨d, cs⟩⟩⟩
    · exact absurd heq (hnot _)
    · exact absurd (List.cons.inj heq).2 (hnot _)
    · exact absurd (List.cons.inj (List.cons.inj heq).2).2 (hnot _)
    · simp only [List.cons_append, List.cons.injEq] at heq
      obtain ⟨rfl, rfl, rfl, -⟩ := heq
      rfl
  · cases h

theorem atMark_of_closesLine {cs ds : List Char} (hds : EndsLine ds)
    (h : closesLine cs = true) : atMark '-' ('-' :: '-' :: '-' :: (cs ++ ds)) = true := by
  have hgap : atGapOrBreak (cs ++ ds) = true := by
    cases cs with
    | nil =>
      cases ds with
      | nil => rfl
      | cons d ds =>
        obtain rfl := hds d rfl
        rfl
    | cons c cs => exact (Bool.and_eq_true_iff.1 h).1
  simp [atMark, hgap]

theorem endsLine_lineBreaks {k : Nat} {rest : List Step} (hk : k = 0 → rest = []) :
    EndsLine (List.replicate k '\n' ++ content rest) := by
  cases k with
  | zero =>
    rw [hk rfl]
    rintro c ⟨⟩
  | succ k =>
    rintro c ⟨⟩
    rfl

/-- What comes behind a separator: the end of its line, line breaks and further lines. -/
def Behind (rest : List Step) (cs : List Char) : Prop :=
  ∃ tail k, cs = tail ++ (List.replicate k '\n' ++ content rest) ∧ (k = 0 → rest = []) ∧
    isUnbroken tail = true ∧ closesLine tail = true

theorem Step.exists_tail {s : Step} (h : s.isRegular = true) (hmark : s.isMark = true) :
    ∃ tail, s.line = '-' :: '-' :: '-' :: tail ∧ isUnbroken tail = true ∧
      closesLine tail = true := by
  obtain ⟨hunbroken, hflush⟩ := Bool.and_eq_true_iff.1 h
  rw [isFlush, hmark, Bool.not_true, Bool.false_or, Bool.and_eq_true_iff] at hflush
  obtain ⟨tail, htail⟩ := List.isPrefixOf_iff_prefix.1 hflush.1
  rw [← htail, isUnbroken_append, Bool.and_eq_true_iff] at hunbroken
  rw [← htail] at hflush ⊢
  exact ⟨tail, rfl, hunbroken.2, hflush.2⟩

theorem marks_lineEnd {k : Nat} {rest : List Step} (hk : k = 0 → rest = []) (atStart : Bool) :
    marks atStart (List.replicate k '\n' ++ content rest) = marks true (content rest) := by
  cases k with
  | zero =>
    rw [hk rfl]
    rfl
  | succ k => exact marks_lineBreaks ..

/-- A separator is a mark, and the other marks are those of the lines behind it. -/
theorem exists_marks_of_isMark {s : Step} {rest : List Step}
    (hlines : Text.AreLines ((s :: rest).map (·.raw))) (hregular : s.isRegular = true)
    (hmark : s.isMark = true) :
    ∃ cs, Behind rest cs ∧ marks true (content (s :: rest)) = cs :: marks true (content rest) := by
  have hunbroken := Step.isUnbroken_of_isRegular hregular
  obtain ⟨k, hcontent, hk⟩ := content_cons hlines hunbroken
  obtain ⟨tail, hline, htail, hcloses⟩ := s.exists_tail hregular hmark
  refine ⟨tail ++ (List.replicate k '\n' ++ content rest), ⟨tail, k, rfl, hk, htail, hcloses⟩, ?_⟩
  rw [hcontent, hline, List.cons_append, List.cons_append, List.cons_append, marks,
    if_pos (by rw [atMark_of_closesLine (endsLine_lineBreaks hk) hcloses]; rfl)]
  rw [hline] at hunbroken
  rw [← List.cons_append, ← List.cons_append, marks_unbroken (isUnbroken_tail hunbroken),
    marks_lineEnd hk]
  rfl

/-- A line that is no separator has no marks. -/
theorem marks_of_isMark {s : Step} {rest : List Step}
    (hlines : Text.AreLines ((s :: rest).map (·.raw))) (hunbroken : isUnbroken s.line = true)
    (hne : s.line ≠ []) (hmark : s.isMark = false) :
    marks true (content (s :: rest)) = marks true (content rest) := by
  obtain ⟨k, hcontent, hk⟩ := content_cons hlines hunbroken
  have hnomark : atMark '-' (s.line ++ (List.replicate k '\n' ++ content rest)) = false := by
    refine Bool.eq_false_iff.2 fun hat ↦ ?_
    have hopens := opensSeparator_trim (opensSeparator_of_atMark (endsLine_lineBreaks hk) hat)
    rw [← Step.isMark, hmark] at hopens
    cases hopens
  rw [hcontent]
  generalize s.line = line at hne hunbroken hnomark
  cases line with
  | nil => exact absurd rfl hne
  | cons c cs =>
    rw [List.cons_append] at hnomark ⊢
    rw [marks, if_neg (by rw [hnomark]; simp), (isUnbroken_spec hunbroken List.mem_cons_self).1,
      marks_unbroken (isUnbroken_tail hunbroken), marks_lineEnd hk]

/-- Behind each separator of the check there is what is behind a mark of YAML. -/
theorem behind_marks {l : List Step} (hlines : Text.AreLines (l.map (·.raw)))
    (h : ∀ s ∈ l, s.isRegular = true ∧ s.line ≠ []) :
    List.Forall₂ Behind (sections l) (marks true (content l)) := by
  induction l with
  | nil => exact .nil
  | cons s rest ih =>
    obtain ⟨⟨hregular, hne⟩, hrest⟩ := List.forall_mem_cons.1 h
    cases hmark : s.isMark with
    | true =>
      obtain ⟨cs, hbehind, hmarks⟩ := exists_marks_of_isMark hlines hregular hmark
      rw [sections, if_pos hmark, hmarks]
      exact .cons hbehind (ih hlines.tail hrest)
    | false =>
      rw [sections, if_neg (by simp [hmark]),
        marks_of_isMark hlines (Step.isUnbroken_of_isRegular hregular) hne hmark]
      exact ih hlines.tail hrest

end Grammar

end FolderCommands
