import FolderCommands.Manifest.Basic
import FolderCommands.Proofs.Grammar.Acceptance

/-!
# The end of the content

Nothing behind a line that ends the content has a bearing on what a text comes to. The check of a
text with such a line finds the errors that it finds in what is in front of the line, numbers
included, and where it finds none it hands on that part of the text and no more.

This holds wherever the check stops first: at an earlier line that ends the content, at a line that
it rejects, or at this one.
-/

namespace FolderCommands

namespace Text

/-- Whether all lines of a text are whole: it is empty or ends in a line feed. -/
def hasWholeLines (cs : List Char) : Bool :=
  cs.getLast?.all (· = '\n')

theorem rawLines_append {cs : List Char} (h : hasWholeLines cs = true) (ds : List Char) :
    rawLines (cs ++ ds) = rawLines cs ++ rawLines ds := by
  induction cs with
  | nil => rfl
  | cons c cs ih =>
    have hrest : hasWholeLines cs = true := by
      cases cs with
      | nil => rfl
      | cons d cs => simpa [hasWholeLines] using h
    rw [List.cons_append, rawLines, rawLines, ih hrest]
    by_cases hc : c = '\n'
    · rw [if_pos hc, if_pos hc, List.cons_append]
    · rw [if_neg hc, if_neg hc]
      cases hlines : rawLines cs with
      | nil =>
        have hempty : cs = [] := by rw [← flatten_rawLines cs, hlines, List.flatten_nil]
        rw [hempty] at h
        exact absurd (by simpa [hasWholeLines] using h) hc
      | cons line rest => rfl

/-- The first lines of a text are the lines of what they add up to. -/
theorem rawLines_flatten {cs : List Char} {front : List (List Char)} (h : front <+: rawLines cs) :
    rawLines front.flatten = front := by
  induction cs generalizing front with
  | nil =>
    rw [List.prefix_nil.1 h]
    rfl
  | cons c cs ih =>
    cases front with
    | nil => rfl
    | cons first front =>
      rw [rawLines] at h
      by_cases hc : c = '\n'
      · rw [if_pos hc] at h
        obtain ⟨rfl, hfront⟩ := List.cons_prefix_cons.1 h
        rw [List.flatten_cons, List.singleton_append, rawLines, if_pos rfl, ih hfront]
      · rw [if_neg hc] at h
        cases hlines : rawLines cs with
        | nil =>
          rw [hlines] at h
          obtain ⟨rfl, hfront⟩ := List.cons_prefix_cons.1 h
          rw [List.prefix_nil.1 hfront]
          simp [rawLines, hc]
        | cons line rest =>
          rw [hlines] at h ih
          obtain ⟨rfl, hfront⟩ := List.cons_prefix_cons.1 h
          have hlines' := ih (List.cons_prefix_cons.2 ⟨rfl, hfront⟩)
          rw [List.flatten_cons] at hlines' ⊢
          rw [List.cons_append, rawLines, if_neg hc, hlines']

end Text

namespace Grammar

/-! ## Scans -/

/-- Whether two scans come to the same, up to warnings. What a scan with errors takes for
meaningful is of no account. -/
structure Scan.Agrees (scan scan' : Scan) : Prop where
  errors : scan.diagnostics.filter (·.isError) = scan'.diagnostics.filter (·.isError)
  expect : scan.expect = scan'.expect
  lastLine : scan.lastLine = scan'.lastLine
  meaningful : scan.diagnostics.filter (·.isError) = [] → scan.meaningful = scan'.meaningful

theorem filter_trailingDiagnostics (number : Nat) (rest : List Char) :
    (trailingDiagnostics number rest).filter (·.isError) = [] :=
  List.filter_eq_nil_iff.2 (List.any_eq_false.1 (any_trailingDiagnostics number rest))

/-- A scan stops at a line that ends the content, if it has not stopped before. -/
theorem scanLines_agrees {marker : List Char}
    (hmarker : endsContent (Text.trim (lineContent marker)) = true) (expect : Expectation)
    (number : Nat) (front rest : List (List Char)) :
    (scanLines expect number (front ++ marker :: rest)).Agrees (scanLines expect number front) := by
  induction front generalizing expect number with
  | nil =>
    rw [List.nil_append, scanLines, scanLines]
    dsimp only
    rw [if_pos hmarker]
    exact ⟨filter_trailingDiagnostics _ _, rfl, rfl, fun _ ↦ rfl⟩
  | cons raw front ih =>
    rw [List.cons_append, scanLines, scanLines]
    dsimp only
    split
    · refine ⟨?_, rfl, rfl, fun _ ↦ rfl⟩
      rw [filter_trailingDiagnostics, filter_trailingDiagnostics]
    · cases hjudge : judge expect (lineContent raw) with
      | reject problem =>
        refine ⟨rfl, rfl, rfl, fun hnone ↦ ?_⟩
        have herror := isError_of_ne (judge_ne_ignoredLines hjudge) number none
        simp [herror] at hnone
      | accept next =>
        obtain ⟨herrors, hexpect, hlast, hmeaningful⟩ := ih next (number + 1)
        refine ⟨?_, hexpect, hlast, fun hnone ↦ ?_⟩
        · rw [List.filter_append, List.filter_append, herrors]
        · rw [List.filter_append, List.append_eq_nil_iff] at hnone
          exact congrArg (raw ++ ·) (hmeaningful hnone.2)

/-- What a scan takes for meaningful is everything, or what is in front of the first line that ends
the content. -/
theorem meaningful_scanLines (expect : Expectation) (number : Nat) (raws : List (List Char)) :
    (scanLines expect number raws).meaningful = raws.flatten ∨
      ∃ front marker rest, raws = front ++ marker :: rest ∧
        endsContent (Text.trim (lineContent marker)) = true ∧
        (∀ raw ∈ front, endsContent (Text.trim (lineContent raw)) = false) ∧
        (scanLines expect number raws).meaningful = front.flatten := by
  induction raws generalizing expect number with
  | nil => exact .inl rfl
  | cons raw raws ih =>
    rw [scanLines]
    dsimp only
    split
    · rename_i hends
      exact .inr ⟨[], raw, raws, rfl, hends, List.forall_mem_nil _, rfl⟩
    · rename_i hcounts
      split
      · exact .inl rfl
      · rename_i next hjudge
        rcases ih next (number + 1) with hall | ⟨front, marker, rest, rfl, hends, hnone, hfront⟩
        · exact .inl (congrArg (raw ++ ·) hall)
        · refine .inr ⟨raw :: front, marker, rest, rfl, hends, ?_, congrArg (raw ++ ·) hfront⟩
          exact List.forall_mem_cons.2 ⟨Bool.eq_false_iff.2 hcounts, hnone⟩

/-- Whether the header is missing is a matter of the errors of a scan alone. -/
theorem Scan.Agrees.headerDiagnostics_eq {scan scan' : Scan} (h : scan.Agrees scan') :
    headerDiagnostics scan = headerDiagnostics scan' := by
  have hall (diagnostics : List Diagnostic) : diagnostics.all (fun d ↦ d.rule ≠ .commandSet) =
      (diagnostics.filter (·.isError)).all (fun d ↦ d.rule ≠ .commandSet) := by
    rw [List.all_filter]
    congr 1
    ext d
    cases herror : d.isError with
    | true => rfl
    | false =>
      have hne : d.rule ≠ .commandSet := fun hrule ↦ by simp [isError_of_rule hrule] at herror
      simp [hne]
  rw [headerDiagnostics, headerDiagnostics, hall scan.diagnostics, hall scan'.diagnostics, h.errors,
    h.expect, h.lastLine]

/-! ## Checks -/

/-- Whether two checks come to the same, up to warnings and what a rejected text has of value. -/
structure Validation.Agrees (v v' : Validation) : Prop where
  errors : v.errors = v'.errors
  commandSet : v.commandSet = v'.commandSet
  meaningful : v.errors = [] → v.meaningful = v'.meaningful

theorem Validation.hasErrors_eq_false_iff {v : Validation} :
    v.hasErrors = false ↔ v.errors = [] := by
  rw [hasErrors, errors, List.any_eq_false, List.filter_eq_nil_iff]

/-- A text and what is in front of one of its end markers. -/
theorem validate_agrees {source front : String} {marker : List Char} {rest : List (List Char)}
    (hraws : Text.rawLines source.toList = Text.rawLines front.toList ++ marker :: rest)
    (hmarker : endsContent (Text.trim (lineContent marker)) = true) :
    (validate source).Agrees (validate front) := by
  have hscan := scanLines_agrees hmarker .header 1 (Text.rawLines front.toList) rest
  rw [← hraws] at hscan
  refine ⟨?_, congrArg Expectation.commandSet? hscan.expect, fun hnone ↦ ?_⟩
  · rw [Validation.errors, Validation.errors, validate, validate]
    dsimp only
    rw [List.filter_append, List.filter_append, hscan.errors, hscan.headerDiagnostics_eq]
  · rw [Validation.errors, validate] at hnone
    dsimp only at hnone
    rw [List.filter_append, List.append_eq_nil_iff] at hnone
    exact congrArg String.ofList (hscan.meaningful hnone.1)

/-- What a check takes for meaningful is everything, or the lines in front of the first that ends
the content. -/
theorem meaningful_validate (source : String) :
    (validate source).meaningful = source ∨
      ∃ front marker rest, Text.rawLines source.toList = front ++ marker :: rest ∧
        endsContent (Text.trim (lineContent marker)) = true ∧
        (∀ raw ∈ front, endsContent (Text.trim (lineContent raw)) = false) ∧
        (validate source).meaningful = String.ofList front.flatten := by
  rw [validate]
  dsimp only
  rcases meaningful_scanLines .header 1 (Text.rawLines source.toList) with hall | hfront
  · left
    rw [hall, Text.flatten_rawLines, String.ofList_toList]
  · obtain ⟨front, marker, rest, hraws, hends, hnone, hmeaningful⟩ := hfront
    exact .inr ⟨front, marker, rest, hraws, hends, hnone, congrArg String.ofList hmeaningful⟩

/-- A text and what its check takes for meaningful. -/
theorem validate_agrees_meaningful (source : String) :
    (validate source).Agrees (validate (validate source).meaningful) := by
  rcases meaningful_validate source with hall | ⟨front, marker, rest, hraws, hends, -, hmeaningful⟩
  · rw [hall]
    exact ⟨rfl, rfl, fun _ ↦ rfl⟩
  · have hfront : front <+: Text.rawLines source.toList := ⟨marker :: rest, hraws.symm⟩
    have hlines : Text.rawLines source.toList =
        Text.rawLines (String.ofList front.flatten).toList ++ marker :: rest := by
      rw [String.toList_ofList, Text.rawLines_flatten hfront, hraws]
    rw [hmeaningful]
    exact validate_agrees hlines hends

end Grammar

namespace Manifest

open Grammar

/-- Reading a manifest is a matter of what its check comes to. -/
theorem parse_eq_of_agrees {source source' : String}
    (h : (validate source).Agrees (validate source')) (folder : String) :
    parse source folder = parse source' folder := by
  have hhas : (validate source).hasErrors = (validate source').hasErrors := by
    rw [Bool.eq_iff_iff, ← not_iff_not, Bool.not_eq_true, Bool.not_eq_true,
      Validation.hasErrors_eq_false_iff, Validation.hasErrors_eq_false_iff, h.errors]
  cases hnone : (validate source).hasErrors with
  | true =>
    rw [hnone] at hhas
    simp only [parse, hnone, ← hhas, h.errors, if_true]
  | false =>
    have hmeaningful := h.meaningful (Validation.hasErrors_eq_false_iff.1 hnone)
    rw [hnone] at hhas
    simp only [parse, hnone, ← hhas, hmeaningful, Bool.false_eq_true, if_false]

/-- What the check takes for meaningful reads like the whole text. -/
theorem parse_meaningful (source folder : String) :
    parse (validate source).meaningful folder = parse source folder :=
  (parse_eq_of_agrees (validate_agrees_meaningful source) folder).symm

/-- Nothing behind a line that ends the content has a bearing on a manifest. -/
theorem parse_behind_marker (folder : String) :
    (∀ front marker tail : String, Text.hasWholeLines front.toList = true →
      '\n' ∉ marker.toList → endsContent (Text.trim marker.toList) = true →
        parse (front ++ marker ++ "\n" ++ tail) folder = parse front folder ∧
        (validate (front ++ marker ++ "\n" ++ tail)).errors = (validate front).errors ∧
        (validate (front ++ marker ++ "\n" ++ tail)).commandSet = (validate front).commandSet) ∧
      ∀ source, parse source folder = parse (validate source).meaningful folder := by
  refine ⟨fun front marker tail hwhole hline hends ↦ ?_,
    fun source ↦ (parse_meaningful source folder).symm⟩
  have hraws : Text.rawLines (front ++ marker ++ "\n" ++ tail).toList =
      Text.rawLines front.toList ++ (marker.toList ++ ['\n']) :: Text.rawLines tail.toList := by
    rw [← Text.rawLines_line hline, ← Text.rawLines_append hwhole]
    simp
  have hmarker : endsContent (Text.trim (lineContent (marker.toList ++ ['\n']))) = true := by
    rw [trim_lineContent]
    have hbreak : ∀ c ∈ ['\n'], Text.isBlank c = true := List.forall_mem_singleton.2 (by decide)
    rw [← hends]
    exact congrArg endsContent (Text.trimWhile_append_end hbreak _)
  have hagrees := validate_agrees hraws hmarker
  exact ⟨parse_eq_of_agrees hagrees folder, hagrees.errors, hagrees.commandSet⟩

/-- A second document that names no command is of no account behind a number sign. -/
theorem parse_behind_numberSign :
    (Text.hasWholeLines "command_set: story\n---\ncommand: story\n".toList = true ∧
      '\n' ∉ "# notes".toList ∧ endsContent (Text.trim "# notes".toList) = true) ∧
    parse ("command_set: story\n---\ncommand: story\n" ++ "# notes" ++ "\n" ++
      "---\ncommand: none\n") "tales" =
        parse "command_set: story\n---\ncommand: story\n" "tales" :=
  have hwhole : Text.hasWholeLines "command_set: story\n---\ncommand: story\n".toList = true := by
    decide
  have hline : '\n' ∉ "# notes".toList := by decide
  have hends : endsContent (Text.trim "# notes".toList) = true := by decide
  ⟨⟨hwhole, hline, hends⟩,
    ((parse_behind_marker "tales").1 _ "# notes" "---\ncommand: none\n" hwhole hline hends).1⟩

end Manifest

end FolderCommands
