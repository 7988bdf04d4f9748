import FolderCommands.Proofs.Grammar.Entries
import FolderCommands.Proofs.Yaml.Rows

/-!
# Rows that the check accepts

What the check makes of rows. Of the line of a row it sees the key, whatever the text between quotes
holds; a number sign there hides only the rest of the value.
-/

namespace FolderCommands

open Yaml

namespace Text

theorem rawLines_line {line : List Char} (h : '\n' ∉ line) (cs : List Char) :
    rawLines (line ++ '\n' :: cs) = (line ++ ['\n']) :: rawLines cs := by
  induction line with
  | nil => rw [List.nil_append, rawLines, if_pos rfl, List.nil_append]
  | cons c line ih =>
    rw [List.mem_cons, not_or] at h
    rw [List.cons_append, rawLines, if_neg (Ne.symm h.1), ih h.2]
    rfl

/-- A text without blanks at its ends is trimmed. -/
theorem trim_eq_self {c d : Char} {cs front text : List Char} (hfirst : text = c :: cs)
    (hlast : text = front ++ [d]) (hc : isBlank c = false) (hd : isBlank d = false) :
    trim text = text := by
  rw [trim_eq_self_iff]
  constructor
  · rw [hfirst]
    rintro e ⟨⟩
    exact hc
  · rw [hlast, List.getLast?_concat]
    rintro e ⟨⟩
    exact hd

end Text

/-! ## Lines of rows -/

/-- The last character of a scalar is not blank. -/
theorem Yaml.Row.exists_written_concat {r : Row} (h : r.isProper = true) :
    ∃ front c, r.written = front ++ [c] ∧ Text.isBlank c = false := by
  rw [written]
  cases hplain : r.isPlain with
  | true =>
    have htext := isBare_text h hplain
    obtain ⟨c, cs, hchars, -⟩ := exists_isAlphanum_of_isBare htext
    have hne : r.text.toList ≠ [] := by simp [hchars]
    refine ⟨_, _, (List.dropLast_append_getLast hne).symm, ?_⟩
    exact isBlank_of_isBareChar (isBareChar_of_isBare htext _ (List.getLast_mem hne))
  | false => exact ⟨'\'' :: doubled r.text.toList, '\'', rfl, by decide⟩

namespace Grammar

section

variable {r : Row} (hr : r.isProper = true)

include hr

theorem exists_line_cons : ∃ c cs, r.line = c :: cs ∧ isWord c = true ∧ c ≠ '-' := by
  have hkey := Row.isName_key hr
  obtain ⟨c, cs, hchars, hc⟩ := exists_isAlpha_of_isName hkey
  refine ⟨c, cs ++ ':' :: ' ' :: r.written, ?_, isWord_of_isAlpha hc, ?_⟩
  · rw [Row.line, hchars]
    rfl
  · exact Scalar.ne_of_isAlpha hc (by decide)

theorem trim_line : Text.trim r.line = r.line := by
  obtain ⟨c, cs, hline, hc, -⟩ := exists_line_cons hr
  obtain ⟨front, d, hwritten, hd⟩ :=
    Row.exists_written_concat hr
  have hlast : r.line = (r.key.toList ++ ':' :: ' ' :: front) ++ [d] := by
    rw [Row.line, hwritten]
    simp
  exact Text.trim_eq_self hline hlast (isBlank_of_isWord hc) hd

theorem endsContent_line : endsContent (Text.trim r.line) = false := by
  obtain ⟨c, cs, hline, hc, -⟩ := exists_line_cons hr
  have hlength : 3 ≤ r.line.length := by
    obtain ⟨k, ks, hchars, -⟩ := exists_isAlpha_of_isName (Row.isName_key hr)
    rw [Row.line, hchars]
    simp only [List.length_append, List.length_cons]
    omega
  have hfirst : r.line.head? ≠ some '#' := by
    rw [hline]
    rintro ⟨⟩
    cases hc
  rw [trim_line hr, endsContent]
  simp [hfirst, Nat.not_lt.2 hlength]

/-- The check sees the key of a row. -/
theorem declaration?_line : declaration? r.line =
    some ⟨r.key, String.ofList (bareValue (withoutComment (' ' :: r.written)))⟩ := by
  have hkey := Row.isName_key hr
  obtain ⟨c, cs, hchars, -⟩ := exists_isAlpha_of_isName hkey
  have hsplit : withoutComment (' ' :: r.written) ++
      (' ' :: r.written).dropWhile (· ≠ '#') = ' ' :: r.written :=
    List.takeWhile_append_dropWhile
  have hcomment : '#' ∉ withoutComment (' ' :: r.written) := fun hmem ↦ by
    simpa using mem_takeWhile '#' hmem
  have htail : withoutComment ((' ' :: r.written).dropWhile (· ≠ '#')) = [] := by
    cases hdrop : (' ' :: r.written).dropWhile (· ≠ '#') with
    | nil => rfl
    | cons d ds =>
      have hd := Text.head?_dropWhile_false (congrArg List.head? hdrop)
      exact List.takeWhile_cons_of_neg (by simp [hd])
  have hdeclaration := @declaration?_append [] r.key.toList [] _ hcomment (by simp)
    (isWord_of_isName hkey) (by simp [hchars]) (by simp) _ htail
  rw [List.nil_append, List.nil_append, hsplit, String.ofList_toList] at hdeclaration
  exact hdeclaration

/-- The check judges the line of a row by the declaration. -/
theorem judge_line (expect : Expectation) : judge expect r.line = judgeDeclaration expect
    ⟨r.key, String.ofList (bareValue (withoutComment (' ' :: r.written)))⟩ := by
  obtain ⟨c, cs, hline, -, hne⟩ := exists_line_cons hr
  have hopens : opensSeparator r.line = false := by
    rw [hline]
    simp [opensSeparator, List.isPrefixOf, Ne.symm hne]
  simp only [judge, trim_line hr, hopens, declaration?_line hr, Bool.false_eq_true, if_false]

end

/-- The check sees a name as it is. -/
theorem bareValue_name {s : String} (h : isName s = true) :
    String.ofList (bareValue (withoutComment (' ' :: s.toList))) = s := by
  have hword := isWord_of_isName h
  have hcomment : withoutComment (' ' :: s.toList) = ' ' :: s.toList :=
    withoutComment_eq_self (by simpa using notMem_of_isWord hword)
  have hbare : bareValue ([' '] ++ (s.toList ++ [])) = s.toList :=
    bareValue_of_writes .plain hword (by simp [Yaml.isGap]) (by simp)
  rw [List.append_nil, List.singleton_append] at hbare
  rw [hcomment, hbare, String.ofList_toList]

/-- The row of a name, which is not between quotes. -/
def nameRow (key name : String) : Row :=
  ⟨key, name, true⟩

theorem isProper_nameRow {key name : String} (hkey : isName key = true)
    (hname : isName name = true) : (nameRow key name).isProper = true :=
  Bool.and_eq_true_iff.2 ⟨hkey, isBare_of_isName hname⟩

theorem judge_nameRow {key name : String} (hkey : isName key = true) (hname : isName name = true)
    (expect : Expectation) :
    judge expect (nameRow key name).line = judgeDeclaration expect ⟨key, name⟩ := by
  have hwritten : (nameRow key name).written = name.toList := rfl
  rw [judge_line (isProper_nameRow hkey hname), hwritten, bareValue_name hname]
  rfl

/-! ## Lines and documents -/

/-- Whether the check of some lines has nothing to report and ends where `last` is expected. -/
def Admits (expect : Expectation) (cs : List Char) (last : Expectation) : Prop :=
  ∀ number, ∃ lastLine, scanLines expect number (Text.rawLines cs) = ⟨[], last, cs, lastLine⟩

namespace Admits

variable {expect next last : Expectation} {cs : List Char} {set : CommandSet} {spec : CommandSpec}

theorem nil : Admits last [] last :=
  fun number ↦ ⟨number - 1, rfl⟩

/-- One line, and then the others. -/
theorem line {line : List Char} (hline : ∀ c ∈ line, Text.isPrintable c = true)
    (hends : endsContent (Text.trim line) = false) (hjudge : judge expect line = .accept next)
    (h : Admits next cs last) : Admits expect (line ++ '\n' :: cs) last := by
  have hmem {c : Char} (hc : Text.isPrintable c = false) : c ∉ line :=
    fun hmem ↦ ne_of_isPrintable (hline c hmem) hc rfl
  have hcontent : lineContent (line ++ ['\n']) = line := by
    rw [lineContent, Text.dropEndWhile_append_of_pos (by decide)]
    apply Text.dropEndWhile_eq_self_of_getLast
    intro c hc
    have hc' := List.mem_of_getLast? hc
    simp [ne_of_isPrintable (hline c hc') (d := '\n') (by decide),
      ne_of_isPrintable (hline c hc') (d := '\r') (by decide)]
  have htabs (number : Nat) : tabDiagnostics number line = [] := by
    rw [tabDiagnostics, tabColumn?, if_neg (by simpa using hmem (c := '\t') (by decide))]
  intro number
  obtain ⟨lastLine, hscan⟩ := h (number + 1)
  refine ⟨lastLine, ?_⟩
  rw [Text.rawLines_line (hmem (by decide)), scanLines, hcontent, hends, hjudge]
  simp [htabs, hscan]

/-- A mark may stand everywhere. -/
theorem mark (h : Admits expect.afterSeparator cs last) :
    Admits expect ('-' :: '-' :: '-' :: '\n' :: cs) last := by
  have hline : Admits expect (['-', '-', '-'] ++ '\n' :: cs) last :=
    line (List.all_eq_true.1 (by decide)) (by decide) rfl h
  exact hline

theorem row {r : Row} (hr : r.isProper = true) (hjudge : judge expect r.line = .accept next)
    (h : Admits next cs last) : Admits expect (r.line ++ '\n' :: cs) last :=
  line (fun _ hc ↦ Row.isPrintable_of_mem hr hc) (endsContent_line hr) hjudge h

/-- The line that names the command set. -/
theorem header (h : Admits (.separator set) cs last) :
    Admits .header (rowsText [nameRow "command_set" set.name] ++ cs) last := by
  have hname : isName set.name = true := by cases set <;> decide
  have hfind : CommandSet.find? set.name = some set := by cases set <;> decide +kernel
  have hjudge : judge .header (nameRow "command_set" set.name).line = .accept (.separator set) := by
    rw [judge_nameRow (by decide) hname]
    exact judgeDeclaration_header.2 ⟨rfl, set, hfind, rfl⟩
  simpa [rowsText] using row (isProper_nameRow (by decide) hname) hjudge h

/-- The attributes of a command. -/
theorem attributes {rows : List Row} (hrows : ∀ r ∈ rows, r.isProper = true)
    (hallows : ∀ r ∈ rows, spec.allows r.key = true)
    (h : Admits (.attributes set spec) cs last) :
    Admits (.attributes set spec) (rowsText rows ++ cs) last := by
  induction rows with
  | nil => exact h
  | cons r rows ih =>
    obtain ⟨hr, hrest⟩ := List.forall_mem_cons.1 hrows
    obtain ⟨hallow, hallows⟩ := List.forall_mem_cons.1 hallows
    have hjudge : judge (.attributes set spec) r.line = .accept (.attributes set spec) := by
      rw [judge_line hr]
      exact judgeDeclaration_attributes.2 ⟨hallow, rfl⟩
    simpa [rowsText] using row hr hjudge (ih hrest hallows)

/-- The rows of a command: its name and its attributes. -/
theorem command {rows : List Row} (hspec : set.command? spec.name = some spec)
    (hname : isName spec.name = true) (hrows : ∀ r ∈ rows, r.isProper = true)
    (hallows : ∀ r ∈ rows, spec.allows r.key = true)
    (h : Admits (.attributes set spec) cs last) :
    Admits (.command set) (rowsText (nameRow "command" spec.name :: rows) ++ cs) last := by
  have hjudge : judge (.command set) (nameRow "command" spec.name).line =
      .accept (.attributes set spec) := by
    rw [judge_nameRow (by decide) hname]
    exact judgeDeclaration_command.2 ⟨rfl, spec, hspec, rfl⟩
  simpa [rowsText] using
    row (isProper_nameRow (by decide) hname) hjudge (attributes hrows hallows h)

end Admits

/-- A text whose lines are admitted has no diagnostics, and all of it counts. -/
theorem validate_eq {cs : List Char} {last : Expectation} {set : CommandSet}
    (h : Admits .header cs last) (hlast : last.commandSet? = some set) :
    validate (String.ofList cs) = ⟨[], some set, String.ofList cs⟩ := by
  obtain ⟨lastLine, hscan⟩ := h 1
  have hne : last ≠ .header := by
    rintro rfl
    cases hlast
  rw [validate, String.toList_ofList, hscan]
  simp [headerDiagnostics, hne, hlast]

end Grammar

end FolderCommands
