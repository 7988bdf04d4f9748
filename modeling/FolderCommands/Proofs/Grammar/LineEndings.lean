import FolderCommands.Proofs.Grammar.Marks
import FolderCommands.Proofs.Grammar.Tabs

/-!
# Line endings

A check does not see how lines end. With a carriage return in front of each line feed, a text gets
the same diagnostics, down to the columns and the lines that are quoted, and declares the same
command set; what is meaningful has the carriage returns and is otherwise the same.

A line is read without the line feed and all carriage returns at its end. So the text may have had
carriage returns before, at line ends and elsewhere.
-/

namespace FolderCommands

namespace Text

/-- A carriage return in front of a line feed; every other character is as it is. -/
def returned (c : Char) : List Char :=
  if c = '\n' then ['\r', '\n'] else [c]

/-- A text with a carriage return in front of each line feed. -/
def withReturns (cs : List Char) : List Char :=
  cs.flatMap returned

theorem withReturns_append (cs ds : List Char) :
    withReturns (cs ++ ds) = withReturns cs ++ withReturns ds :=
  List.flatMap_append

theorem withReturns_flatten (pieces : List (List Char)) :
    withReturns pieces.flatten = (pieces.map withReturns).flatten := by
  induction pieces with
  | nil => rfl
  | cons piece pieces ih =>
    rw [List.flatten_cons, withReturns_append, ih, List.map_cons, List.flatten_cons]

theorem withReturns_of_notMem {cs : List Char} (h : '\n' ∉ cs) : withReturns cs = cs := by
  have hsame : ∀ c ∈ cs, returned c = [c] := fun c hc ↦ if_neg (ne_of_mem_of_not_mem hc h)
  rw [withReturns, List.flatMap_congr hsame, List.flatMap_singleton']

theorem rawLines_withReturns (cs : List Char) :
    rawLines (withReturns cs) = (rawLines cs).map withReturns := by
  induction cs with
  | nil => rfl
  | cons c cs ih =>
    rw [withReturns, List.flatMap_cons, rawLines, returned]
    split
    · rw [List.cons_append, List.singleton_append, rawLines, if_neg (by decide), rawLines,
        if_pos rfl, ← withReturns, ih]
      rfl
    · rename_i hc
      rw [List.singleton_append, rawLines, if_neg hc, ← withReturns, ih]
      cases rawLines cs <;> simp [withReturns, returned, hc]

/-- Whether a piece of a text is a line: the only line feed is at its end. -/
def IsRawLine (raw : List Char) : Prop :=
  ∃ line, '\n' ∉ line ∧ (raw = line ∨ raw = line ++ ['\n'])

theorem isRawLine_of_mem_rawLines {cs raw : List Char} (h : raw ∈ rawLines cs) :
    IsRawLine raw := by
  induction cs generalizing raw with
  | nil => cases h
  | cons c cs ih =>
    rw [rawLines] at h
    split at h
    · rcases List.mem_cons.1 h with rfl | h
      · exact ⟨[], List.not_mem_nil, .inr rfl⟩
      · exact ih h
    · rename_i hc
      have hne : '\n' ≠ c := Ne.symm hc
      split at h
      · rw [List.mem_singleton.1 h]
        exact ⟨[c], by simpa using hne, .inl rfl⟩
      · rename_i first rest hlines
        rcases List.mem_cons.1 h with rfl | h
        · obtain ⟨line, hline, hfirst⟩ := ih (hlines ▸ List.mem_cons_self)
          exact ⟨c :: line, by simp [hne, hline], hfirst.imp (congrArg _) (congrArg _)⟩
        · exact ih (hlines ▸ List.mem_cons_of_mem _ h)

end Text

/-- The text with a carriage return in front of each line feed. -/
def withReturns (s : String) : String :=
  String.ofList (Text.withReturns s.toList)

namespace Grammar

/-- The carriage return goes with the line feed. -/
theorem lineContent_withReturns {raw : List Char} (h : Text.IsRawLine raw) :
    lineContent (Text.withReturns raw) = lineContent raw := by
  obtain ⟨line, hline, rfl | rfl⟩ := h
  · rw [Text.withReturns_of_notMem hline]
  · have hbreak : ∀ c ∈ ['\r', '\n'], (c = '\n' || c = '\r') = true := by simp
    have hfeed : ∀ c ∈ ['\n'], (c = '\n' || c = '\r') = true := by simp
    rw [Text.withReturns_append, Text.withReturns_of_notMem hline]
    exact (Text.dropEndWhile_append hbreak line).trans (Text.dropEndWhile_append hfeed line).symm

theorem trim_withReturns {raw : List Char} (h : Text.IsRawLine raw) :
    Text.trim (Text.withReturns raw) = Text.trim raw := by
  rw [← trim_lineContent, lineContent_withReturns h, trim_lineContent]

/-- Lines behind the end of the content count as before. -/
theorem countIgnored_withReturns (rest : List Char) :
    countIgnored (Text.withReturns rest) = countIgnored rest := by
  simp only [countIgnored, Text.lines, Text.rawLines_withReturns, ← List.countP_eq_length_filter,
    List.countP_map, Function.comp_def, Text.trim_bareLine]
  refine List.countP_congr fun raw hraw ↦ ?_
  rw [trim_withReturns (Text.isRawLine_of_mem_rawLines hraw)]

theorem scanLines_withReturns (expect : Expectation) (number : Nat) {raws : List (List Char)}
    (h : ∀ raw ∈ raws, Text.IsRawLine raw) :
    scanLines expect number (raws.map Text.withReturns) =
      { scanLines expect number raws with
        meaningful := Text.withReturns (scanLines expect number raws).meaningful } := by
  induction raws generalizing expect number with
  | nil => rfl
  | cons raw rest ih =>
    obtain ⟨hraw, hrest⟩ := List.forall_mem_cons.1 h
    rw [List.map_cons, scanLines, scanLines]
    dsimp only
    rw [lineContent_withReturns hraw, ← Text.withReturns_flatten]
    split
    · rw [trailingDiagnostics, countIgnored_withReturns, trailingDiagnostics]
      rfl
    · cases judge expect (lineContent raw) with
      | reject problem =>
        dsimp only
        rw [Text.withReturns_append]
      | accept next =>
        dsimp only
        rw [ih next (number + 1) hrest, Text.withReturns_append]

/-- A check does not see whether lines end in a carriage return and a line feed: the diagnostics and
the command set are the same, and what is meaningful is the same part of the text. -/
theorem validate_withReturns (source : String) :
    (validate (withReturns source)).diagnostics = (validate source).diagnostics ∧
    (validate (withReturns source)).commandSet = (validate source).commandSet ∧
    (validate (withReturns source)).meaningful = withReturns (validate source).meaningful := by
  have hlines : ∀ raw ∈ Text.rawLines source.toList, Text.IsRawLine raw :=
    fun _ ↦ Text.isRawLine_of_mem_rawLines
  have hscan := scanLines_withReturns .header 1 hlines
  rw [← Text.rawLines_withReturns] at hscan
  simp only [validate, withReturns, String.toList_ofList, hscan]
  exact ⟨rfl, trivial, trivial⟩

/-- The tab is in the sixth column and the text in front of the end is kept with its returns. -/
example : validate "--- #\t\r\ncommand_set: top\r\n\r\nx: y\r\n" =
    ⟨[⟨.tab, 1, some 6⟩, ⟨.ignoredLines 1, 3, none⟩], some .top,
      "--- #\t\r\ncommand_set: top\r\n"⟩ := by
  decide +kernel

end Grammar

end FolderCommands
