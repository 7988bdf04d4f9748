import FolderCommands.Proofs.Manifest.Ending

/-!
# Byte positions of a check

What is meaningful in a text can be told by its length in bytes. A check that goes by byte positions
adds up the lengths of the lines as they stand, while it judges them trimmed, and cuts the text at
two places: behind a line that ends the content, and at the end of what is meaningful. Both are
between characters, so it always comes to an end, and it finds what the check by lines finds.

What is meaningful ends with a line or with the text. Unless the check stops at an error, it is all
that comes before the first line that ends the content; and it is meaningful to the last byte when
it is checked again.
-/

namespace FolderCommands

namespace Text

/-! ## Cutting at a byte position -/

theorem byteLength_append (cs ds : List Char) :
    byteLength (cs ++ ds) = byteLength cs + byteLength ds := by
  induction cs with
  | nil => exact (Nat.zero_add _).symm
  | cons c cs ih =>
    calc byteLength (c :: cs ++ ds)
      _ = c.utf8Size + byteLength (cs ++ ds) := rfl
      _ = c.utf8Size + (byteLength cs + byteLength ds) := by rw [ih]
      _ = byteLength (c :: cs) + byteLength ds := (Nat.add_assoc _ _ _).symm

theorem byteLength_toList (s : String) : byteLength s.toList = s.utf8ByteSize := by
  rw [← String.ofList_toList (s := s), String.toList_ofList]
  induction s.toList with
  | nil => rfl
  | cons c cs ih =>
    have hcons : String.ofList (c :: cs) = String.singleton c ++ String.ofList cs := by
      rw [String.singleton_eq_ofList, ← String.ofList_append, List.singleton_append]
    rw [hcons, String.utf8ByteSize_append, String.utf8ByteSize_singleton, ← ih]
    rfl

/-- Whether a text may be cut at a byte position: it is not behind the end, and not inside a
character. -/
def IsCut (s : String) (position : Nat) : Prop :=
  position ≤ s.utf8ByteSize ∧ String.Pos.Raw.IsValid s ⟨position⟩

instance (s : String) (position : Nat) : Decidable (IsCut s position) :=
  inferInstanceAs (Decidable (_ ∧ _))

/-- The part of a text in front of a byte position. -/
def upTo? (s : String) (position : Nat) : Option String :=
  if h : IsCut s position then some (s.sliceTo ⟨⟨position⟩, h.2⟩).copy else none

/-- The part of a text behind a byte position. -/
def from? (s : String) (position : Nat) : Option String :=
  if h : IsCut s position then some (s.sliceFrom ⟨⟨position⟩, h.2⟩).copy else none

section

variable {s front back : String} (h : s = front ++ back)

include h

theorem isCut_append : IsCut s front.utf8ByteSize := by
  have hvalid : String.Pos.Raw.IsValid s ⟨front.utf8ByteSize⟩ :=
    String.Pos.Raw.isValid_iff_exists_append.2 ⟨front, back, h, rfl⟩
  exact ⟨hvalid.le_utf8ByteSize, hvalid⟩

theorem upTo?_append : upTo? s front.utf8ByteSize = some front := by
  rw [upTo?, dif_pos (isCut_append h)]
  exact congrArg some (String.Pos.Splits.copy_sliceTo_eq ⟨h, rfl⟩)

theorem from?_append : from? s front.utf8ByteSize = some back := by
  rw [from?, dif_pos (isCut_append h)]
  exact congrArg some (String.Pos.Splits.copy_sliceFrom_eq ⟨h, rfl⟩)

end

/-- Lines in front of another line are whole. -/
theorem AreLines.exists_flatten_eq {front rest : List (List Char)} {marker : List Char}
    (h : AreLines (front ++ marker :: rest)) :
    front = [] ∨ ∃ cs, front.flatten = cs ++ ['\n'] := by
  rcases List.eq_nil_or_concat' front with rfl | ⟨init, raw, rfl⟩
  · exact .inl rfl
  · rw [List.append_assoc, List.singleton_append] at h
    cases h.of_isSuffix (List.suffix_append init (raw :: marker :: rest)) with
    | cons line =>
      exact .inr ⟨init.flatten ++ line, by simp⟩

end Text

namespace Grammar

/-! ## Scans -/

/-- What a scan by byte positions has found. What is meaningful is told by its length. -/
structure OffsetScan where
  diagnostics : List Diagnostic
  expect : Expectation
  meaningfulLength : Nat
  lastLine : Nat

/-- Scans lines of a text of which the first has the number `number` and stands at the byte position
`offset`. There is no result if the text would be cut where it may not be. -/
def scanLinesAt? (source : String) (expect : Expectation) (number offset : Nat) :
    List (List Char) → Option OffsetScan
  | [] => some ⟨[], expect, source.utf8ByteSize, number - 1⟩
  | raw :: rest =>
    let line := lineContent raw
    if endsContent (Text.trim line) then do
      let remainder ← Text.from? source (offset + Text.byteLength raw)
      some ⟨trailingDiagnostics number remainder.toList, expect, offset, number - 1⟩
    else match judge expect line with
      | .reject problem =>
        some ⟨tabDiagnostics number line ++ [⟨problem, number, none⟩], expect, source.utf8ByteSize,
          number⟩
      | .accept next => do
        let scan ← scanLinesAt? source next (number + 1) (offset + Text.byteLength raw) rest
        some { scan with diagnostics := tabDiagnostics number line ++ scan.diagnostics }

/-- Checks the text of a manifest by byte positions. The outcome comes with the length that has been
added up. -/
def validateAt? (source : String) : Option (Validation × Nat) := do
  let found ← scanLinesAt? source .header 1 0 (Text.rawLines source.toList)
  let meaningful ← Text.upTo? source (min found.meaningfulLength source.utf8ByteSize)
  let scan : Scan := ⟨found.diagnostics, found.expect, meaningful.toList, found.lastLine⟩
  some (⟨scan.diagnostics ++ headerDiagnostics scan, scan.expect.commandSet?, meaningful⟩,
    found.meaningfulLength)

/-- What a scan has found, as a scan by byte positions tells it. -/
def Scan.at (scan : Scan) (offset : Nat) : OffsetScan :=
  ⟨scan.diagnostics, scan.expect, offset + Text.byteLength scan.meaningful, scan.lastLine⟩

/-- A scan by byte positions finds what the scan finds. The position is the length of the lines that
have been passed. -/
theorem scanLinesAt?_eq {source : String} (passed : List Char) (expect : Expectation) (number : Nat)
    {raws : List (List Char)} (hsource : source.toList = passed ++ raws.flatten) :
    scanLinesAt? source expect number (Text.byteLength passed) raws =
      some ((scanLines expect number raws).at (Text.byteLength passed)) := by
  induction raws generalizing passed expect number with
  | nil =>
    rw [List.flatten_nil, List.append_nil] at hsource
    rw [scanLinesAt?, ← Text.byteLength_toList, hsource]
    rfl
  | cons raw rest ih =>
    have hnext : source.toList = passed ++ raw ++ rest.flatten := by
      rw [hsource, List.flatten_cons, List.append_assoc]
    have hposition := Text.byteLength_append passed raw
    rw [scanLinesAt?, scanLines]
    dsimp only
    split
    · have hcut : source = String.ofList (passed ++ raw) ++ String.ofList rest.flatten := by
        rw [← String.ofList_append, ← hnext, String.ofList_toList]
      have hremainder := Text.from?_append hcut
      rw [← Text.byteLength_toList, String.toList_ofList, hposition] at hremainder
      rw [hremainder, Option.bind_eq_bind, Option.bind_some, String.toList_ofList]
      rfl
    · cases judge expect (lineContent raw) with
      | reject problem =>
        have hlength := Text.byteLength_append passed (raw :: rest).flatten
        rw [← hsource, Text.byteLength_toList] at hlength
        dsimp only
        rw [hlength]
        rfl
      | accept next =>
        have hscan := ih (passed ++ raw) next (number + 1) hnext
        rw [hposition] at hscan
        dsimp only
        rw [hscan, Option.bind_eq_bind, Option.bind_some, Scan.at, Scan.at, Text.byteLength_append,
          Nat.add_assoc]

/-- A scan by byte positions from the start of a text. -/
theorem scanLinesAt?_rawLines (source : String) (expect : Expectation) (number : Nat) :
    scanLinesAt? source expect number 0 (Text.rawLines source.toList) =
      some ((scanLines expect number (Text.rawLines source.toList)).at 0) :=
  scanLinesAt?_eq [] expect number (Text.flatten_rawLines _).symm

/-! ## Where the content ends -/

theorem meaningfulLength_eq (v : Validation) : v.meaningfulLength = v.meaningful.utf8ByteSize :=
  Text.byteLength_toList _

/-- What is meaningful comes first in a text. -/
theorem exists_meaningful_append (source : String) :
    ∃ behind, source = (validate source).meaningful ++ behind := by
  rcases meaningful_validate source with hall | ⟨front, marker, rest, hraws, -, -, hmeaningful⟩
  · exact ⟨"", by rw [hall, String.append_empty]⟩
  · refine ⟨String.ofList (marker :: rest).flatten, ?_⟩
    rw [hmeaningful, ← String.ofList_append, ← List.flatten_append, ← hraws, Text.flatten_rawLines,
      String.ofList_toList]

/-- What is meaningful is empty, everything, or ends with a line. -/
theorem meaningful_ends (source : String) :
    (validate source).meaningful = "" ∨ (validate source).meaningful = source ∨
      ∃ front, (validate source).meaningful = front ++ "\n" := by
  rcases meaningful_validate source with hall | ⟨front, marker, rest, hraws, -, -, hmeaningful⟩
  · exact .inr (.inl hall)
  · have hlines := hraws ▸ Text.areLines_rawLines source.toList
    rcases hlines.exists_flatten_eq with rfl | ⟨cs, hcs⟩
    · exact .inl hmeaningful
    · refine .inr (.inr ⟨String.ofList cs, ?_⟩)
      rw [hmeaningful, hcs, String.ofList_append]

/-- What is meaningful stays so when it is checked again. -/
theorem meaningful_meaningful (source : String) :
    (validate (validate source).meaningful).meaningful = (validate source).meaningful := by
  rcases meaningful_validate source with hall | ⟨front, marker, rest, hraws, -, hnone, hmeaningful⟩
  · rw [hall, hall]
  · have hfront : front <+: Text.rawLines source.toList := ⟨marker :: rest, hraws.symm⟩
    rcases meaningful_validate (validate source).meaningful with hall | hends
    · exact hall
    -- no line of what is meaningful ends the content
    · obtain ⟨init, other, behind, hlines, hother, -⟩ := hends
      rw [hmeaningful, String.toList_ofList, Text.rawLines_flatten hfront] at hlines
      have hmem : other ∈ front := hlines ▸ List.mem_append_right _ List.mem_cons_self
      rw [hnone other hmem] at hother
      cases hother

/-- A check by byte positions comes to an end, and it finds what the check finds. -/
theorem validateAt?_eq (source : String) :
    validateAt? source = some (validate source, (validate source).meaningfulLength) := by
  obtain ⟨behind, hsource⟩ := exists_meaningful_append source
  have hscan := scanLinesAt?_rawLines source .header 1
  rw [validate] at hsource
  rw [meaningfulLength_eq, validateAt?, validate, hscan]
  generalize scanLines .header 1 (Text.rawLines source.toList) = scan at hsource ⊢
  have hlength : (scan.at 0).meaningfulLength = (String.ofList scan.meaningful).utf8ByteSize := by
    rw [← Text.byteLength_toList, String.toList_ofList, Scan.at, Nat.zero_add]
  rw [Option.bind_eq_bind, Option.bind_some, hlength,
    Nat.min_eq_left (Text.isCut_append hsource).1, Text.upTo?_append hsource, Option.bind_eq_bind,
    Option.bind_some, String.toList_ofList]
  rfl

/-! ## The longest part in front of the end -/

/-- Whether a problem stops a scan. The others are a tab, a header that is missing in the end, and
lines behind the end of the content. -/
def Problem.isStructural : Problem → Bool
  | tab | missingHeader | ignoredLines _ => false
  | _ => true

theorem isStructural_of_judgeDeclaration {expect : Expectation} {d : Declaration}
    {problem : Problem} (h : judgeDeclaration expect d = .reject problem) :
    problem.isStructural = true := by
  cases expect with
  | header | command set =>
    rw [judgeDeclaration] at h
    split at h
    · cases h
      rfl
    · split at h <;> cases h
      rfl
  | separator set =>
    cases h
    rfl
  | attributes set spec =>
    rw [judgeDeclaration] at h
    split at h <;> cases h
    rfl

/-- A line is rejected for a problem that stops the scan. -/
theorem isStructural_of_judge {expect : Expectation} {line : List Char} {problem : Problem}
    (h : judge expect line = .reject problem) : problem.isStructural = true := by
  simp only [judge] at h
  split at h
  · split at h <;> cases h
    rfl
  · split at h
    · cases h
      rfl
    · exact isStructural_of_judgeDeclaration h

/-- A scan that no line stops goes on to the first line that ends the content. -/
theorem meaningful_eq_takeWhile {expect : Expectation} {number : Nat} {raws : List (List Char)}
    (h : ∀ d ∈ (scanLines expect number raws).diagnostics, d.problem.isStructural = false) :
    (scanLines expect number raws).meaningful =
      (raws.takeWhile fun raw ↦ !endsContent (Text.trim (lineContent raw))).flatten := by
  induction raws generalizing expect number with
  | nil => rfl
  | cons raw rest ih =>
    rw [scanLines] at h ⊢
    dsimp only at h ⊢
    split at h
    · rename_i hends
      rw [if_pos hends, List.takeWhile_cons_of_neg (by simp [hends])]
      rfl
    · rename_i hcounts
      rw [if_neg hcounts, List.takeWhile_cons_of_pos (by simp [hcounts])]
      cases hjudge : judge expect (lineContent raw) with
      | reject problem =>
        rw [hjudge] at h
        have hproblem := (List.forall_mem_append.1 h).2 _ List.mem_cons_self
        rw [isStructural_of_judge hjudge] at hproblem
        cases hproblem
      | accept next =>
        rw [hjudge] at h
        exact congrArg (raw ++ ·) (ih (List.forall_mem_append.1 h).2)

/-- Whether a text consists of the first lines of another one, whole and none of them ending the
content. -/
def IsOpening (part source : String) : Prop :=
  ∃ lines, lines <+: Text.rawLines source.toList ∧ part.toList = lines.flatten ∧
    ∀ raw ∈ lines, endsContent (Text.trim (lineContent raw)) = false

/-- The first lines up to one that ends the content are the longest such part. -/
theorem isOpening_takeWhile {part source : String} (h : part.toList =
      ((Text.rawLines source.toList).takeWhile fun raw ↦
        !endsContent (Text.trim (lineContent raw))).flatten) :
    IsOpening part source ∧ ∀ other, IsOpening other source → other.toList <+: part.toList := by
  refine ⟨⟨_, List.takeWhile_prefix _, h, fun raw hraw ↦ ?_⟩, ?_⟩
  · simpa using List.all_eq_true.1 List.all_takeWhile raw hraw
  · rintro other ⟨lines, ⟨rest, hraws⟩, hother, hcount⟩
    have hpass : ∀ raw ∈ lines, (!endsContent (Text.trim (lineContent raw))) = true :=
      fun raw hraw ↦ by rw [hcount raw hraw, Bool.not_false]
    rw [h, hother, ← hraws, List.takeWhile_append_of_pos hpass, List.flatten_append]
    exact List.prefix_append _ _

/-- A check never cuts a text inside a character or behind its end. What it takes for meaningful is
empty, everything, or ends with a line. If no line stops the check, that is the longest part made of
whole lines of which none ends the content. Checked again, it has the same errors and declares the
same command set, and it is meaningful to its last byte. -/
theorem meaningful_sound (source : String) :
    validateAt? source = some (validate source, (validate source).meaningfulLength) ∧
    (Text.IsCut source (validate source).meaningfulLength ∧
      Text.upTo? source (validate source).meaningfulLength = some (validate source).meaningful) ∧
    ((validate source).meaningfulLength = 0 ∨
      (validate source).meaningfulLength = source.utf8ByteSize ∨
      ∃ front behind, source = front ++ "\n" ++ behind ∧
        (validate source).meaningfulLength = (front ++ "\n").utf8ByteSize) ∧
    ((∀ d ∈ (validate source).diagnostics, d.problem.isStructural = false) →
      IsOpening (validate source).meaningful source ∧
        ∀ part, IsOpening part source → part.toList <+: (validate source).meaningful.toList) ∧
    (validate (validate source).meaningful).errors = (validate source).errors ∧
    (validate (validate source).meaningful).commandSet = (validate source).commandSet ∧
    (validate (validate source).meaningful).meaningfulLength =
      (validate source).meaningful.utf8ByteSize := by
  obtain ⟨behind, hsource⟩ := exists_meaningful_append source
  have hagrees := validate_agrees_meaningful source
  refine ⟨validateAt?_eq source, ?_, ?_, fun hnone ↦ ?_, hagrees.errors.symm,
    hagrees.commandSet.symm, ?_⟩
  · rw [meaningfulLength_eq]
    exact ⟨Text.isCut_append hsource, Text.upTo?_append hsource⟩
  · rw [meaningfulLength_eq]
    rcases meaningful_ends source with hempty | hall | ⟨front, hfront⟩
    · exact .inl (by rw [hempty, String.utf8ByteSize_empty])
    · exact .inr (.inl (by rw [hall]))
    · exact .inr (.inr ⟨front, behind, by rw [← hfront, ← hsource], by rw [hfront]⟩)
  · refine isOpening_takeWhile ?_
    rw [validate] at hnone ⊢
    rw [String.toList_ofList]
    exact meaningful_eq_takeWhile (List.forall_mem_append.1 hnone).1
  · rw [meaningfulLength_eq, meaningful_meaningful]

/-- Characters of two and three bytes in front of the end, and a last line without a line feed. -/
theorem meaningful_sound_accented :
    (∀ d ∈ (validate "command_set: top # é\n---\t# €\n\nx: ü").diagnostics,
      d.problem.isStructural = false) ∧
    IsOpening "command_set: top # é\n---\t# €\n" "command_set: top # é\n---\t# €\n\nx: ü" := by
  have hmeaningful : (validate "command_set: top # é\n---\t# €\n\nx: ü").meaningful =
      "command_set: top # é\n---\t# €\n" := by decide +kernel
  have hnone : ∀ d ∈ (validate "command_set: top # é\n---\t# €\n\nx: ü").diagnostics,
      d.problem.isStructural = false := by decide +kernel
  exact ⟨hnone, hmeaningful ▸ ((meaningful_sound _).2.2.2.1 hnone).1⟩

end Grammar

end FolderCommands
