import FolderCommands.Proofs.Data.Texts
import FolderCommands.Proofs.Grammar.Acceptance
import FolderCommands.Proofs.Grammar.Tabs
import FolderCommands.Store.Rclone

/-!
# Listings that are read back

A tool prints one name to a line. Behind the name there may be a slash, lines may end with a
carriage return, and there may be blank lines between. Whatever mixture of these is printed, the
names that are read are those that were printed, in their order and as often.

A name is what can be a segment of a location and has no line feed; so each name that is read leads
from a location to the one that has it as its last segment.
-/

namespace FolderCommands.Rclone

open RemotePath

/-! ## Rows -/

/-- What a tool prints on one line. -/
inductive Row where
  /-- A name, with a slash behind it or not. -/
  | entry (name : String) (slash carriage : Bool)
  | blank (blanks : String) (carriage : Bool)
deriving DecidableEq, Repr

namespace Row

/-- The name on a line. -/
def name? : Row → Option String
  | entry name _ _ => some name
  | blank _ _ => none

/-- A line up to its line feed. -/
def line : Row → String
  | entry name slash carriage =>
    name ++ (if slash then "/" else "") ++ if carriage then "\r" else ""
  | blank blanks carriage => blanks ++ if carriage then "\r" else ""

/-- Whether a row is one line, with a name that is neither empty nor padded nor holds a slash, or
with blanks alone. -/
def IsProper : Row → Prop
  | entry name _ _ => IsSegment name ∧ '\n' ∉ name.toList
  | blank blanks _ => ∀ c ∈ blanks.toList, Text.isBlank c = true ∧ c ≠ '\n'

instance : DecidablePred IsProper
  | entry name _ _ => inferInstanceAs (Decidable ((name ≠ "" ∧ Text.trimmed name = name ∧
      '/' ∉ name.toList) ∧ '\n' ∉ name.toList))
  | blank blanks _ =>
    List.decidableBAll (fun c ↦ Text.isBlank c = true ∧ c ≠ '\n') blanks.toList

end Row

/-- What a tool prints. -/
def print (rows : List Row) : String :=
  String.join (rows.map fun row ↦ row.line ++ "\n")

/-! ## Lines -/

theorem lines_line {line : List Char} (h : '\n' ∉ line) (rest : List Char) :
    Text.lines (line ++ '\n' :: rest) = Text.bareLine (line ++ ['\n']) :: Text.lines rest := by
  rw [Text.lines, Text.rawLines_line h, List.map_cons, Text.lines]

/-- Blanks at the end of a line are not part of its name. -/
theorem lineName_append {after : List Char} (h : ∀ c ∈ after, Text.isBlank c = true)
    (line : List Char) : lineName (line ++ after) = lineName line := by
  rw [lineName, Text.trim, Text.trimWhile_append_end h, ← Text.trim, lineName]

theorem lineName_bareLine {line : List Char} :
    lineName (Text.bareLine (line ++ ['\n'])) = lineName line := by
  have hfeed : ∀ c ∈ ['\n'], Text.isBlank c = true := List.forall_mem_singleton.2 (by decide)
  rw [lineName, Text.trim_bareLine, ← lineName, lineName_append hfeed]

/-- The name on the first line of a listing is read before those of the other lines. -/
theorem parseListing_line {line : String} (h : '\n' ∉ line.toList) (rest : String) :
    parseListing (line ++ "\n" ++ rest) =
      (if (lineName line.toList).isEmpty then [] else [String.ofList (lineName line.toList)]) ++
        parseListing rest := by
  have hchars : (line ++ "\n" ++ rest).toList = line.toList ++ '\n' :: rest.toList := by simp
  rw [parseListing, hchars, lines_line h, List.map_cons, lineName_bareLine, List.filter_cons,
    parseListing]
  cases (lineName line.toList).isEmpty <;> rfl

theorem isBlank_carriage (carriage : Bool) :
    ∀ c ∈ (if carriage then "\r" else "").toList, Text.isBlank c = true := by
  cases carriage with
  | false => exact List.forall_mem_nil _
  | true => exact List.forall_mem_singleton.2 (by decide)

/-- A name is read off its line. -/
theorem lineName_entry {name : String} (h : IsSegment name) (slash carriage : Bool) :
    lineName (Row.entry name slash carriage).line.toList = name.toList := by
  have htrim := Text.trim_eq_self_iff.1 (trim_of_isSegment h)
  have hlast : ∀ c, name.toList.getLast? = some c → decide (c = '/') = false := fun c hc ↦
    decide_eq_false fun hslash ↦ h.2.2 (hslash ▸ List.mem_of_getLast? hc)
  rw [Row.line, String.toList_append, lineName_append (isBlank_carriage carriage),
    String.toList_append, lineName]
  cases slash with
  | false =>
    rw [if_neg Bool.false_ne_true, String.toList_empty, List.append_nil, trim_of_isSegment h]
    exact Text.dropEndWhile_eq_self_of_getLast hlast
  | true =>
    have hslash : Text.trim (name.toList ++ "/".toList) = name.toList ++ ['/'] := by
      rw [show "/".toList = ['/'] from rfl, Text.trim_eq_self_iff,
        List.head?_append_of_ne_nil _ (toList_ne_nil h), List.getLast?_concat]
      refine ⟨htrim.1, ?_⟩
      rintro c ⟨⟩
      decide
    rw [if_pos rfl, hslash, Text.dropEndWhile_append_of_pos (by simp)]
    exact Text.dropEndWhile_eq_self_of_getLast hlast

/-- A blank line has no name. -/
theorem lineName_blank {blanks : String} (h : ∀ c ∈ blanks.toList, Text.isBlank c = true)
    (carriage : Bool) : lineName (Row.blank blanks carriage).line.toList = [] := by
  rw [Row.line, String.toList_append, lineName_append (isBlank_carriage carriage),
    ← List.nil_append blanks.toList, lineName_append h]
  rfl

theorem feed_notMem_line {row : Row} (h : row.IsProper) : '\n' ∉ row.line.toList := by
  cases row with
  | entry name slash carriage =>
    rw [Row.line]
    cases slash <;> cases carriage <;> simp [h.2]
  | blank blanks carriage =>
    have hfeed : '\n' ∉ blanks.toList := fun hmem ↦ (h '\n' hmem).2 rfl
    rw [Row.line]
    cases carriage <;> simp [hfeed]

/-! ## Listings -/

theorem print_cons (row : Row) (rows : List Row) :
    print (row :: rows) = row.line ++ "\n" ++ print rows := by
  rw [← String.toList_inj, print, print, String.toList_join, String.toList_append,
    String.toList_join]
  rfl

/-- What is read first is what has been printed first. -/
theorem parseListing_print_cons {row : Row} (h : row.IsProper) (rows : List Row) :
    parseListing (print (row :: rows)) = row.name?.toList ++ parseListing (print rows) := by
  rw [print_cons, parseListing_line (feed_notMem_line h)]
  congr 1
  cases row with
  | entry name slash carriage =>
    have hne : name.toList.isEmpty = false := by
      rw [List.isEmpty_eq_false_iff]
      exact toList_ne_nil h.1
    rw [lineName_entry h.1, hne, String.ofList_toList]
    rfl
  | blank blanks carriage =>
    rw [lineName_blank fun c hc ↦ (h c hc).1]
    rfl

/-- The names of a listing are those that were printed, in order and as often, however the lines end
and whatever blank lines are between; and each of them leads from every location to one with just
that segment more. -/
theorem parseListing_print {rows : List Row} (h : ∀ row ∈ rows, row.IsProper) :
    parseListing (print rows) = rows.filterMap (·.name?) ∧
      ∀ name ∈ rows.filterMap (·.name?), ∀ p : RemotePath,
        (p.join name).segments = p.segments ++ [name] := by
  constructor
  · induction rows with
    | nil => rfl
    | cons row rows ih =>
      obtain ⟨hrow, hrows⟩ := List.forall_mem_cons.1 h
      rw [parseListing_print_cons hrow, ih hrows, List.filterMap_cons]
      cases row.name? <;> rfl
  · intro name hname p
    obtain ⟨row, hrow, hmem⟩ := List.mem_filterMap.1 hname
    have hproper := h row hrow
    cases row with
    | blank => cases hmem
    | entry name' slash carriage =>
      cases hmem
      rw [segments_join, segmentsOf_of_isSegment hproper.1]

/-- Names with blanks and a carriage return inside, one of them twice. -/
theorem parseListing_print_mixed :
    (∀ row ∈ [.entry "b\u00a0c" true true, .blank " \u3000" false, .entry "a\rd" false true,
      .blank "" true, .entry "b\u00a0c" false false], Row.IsProper row) ∧
    parseListing "b\u00a0c/\r\n \u3000\na\rd\r\n\r\nb\u00a0c\n" =
      ["b\u00a0c", "a\rd", "b\u00a0c"] ∧
    ((ofText "/news").join "a\rd").segments = (ofText "/news").segments ++ ["a\rd"] := by
  have hproper : ∀ row ∈ [.entry "b\u00a0c" true true, .blank " \u3000" false,
      .entry "a\rd" false true, .blank "" true, .entry "b\u00a0c" false false],
      Row.IsProper row := by decide +kernel
  obtain ⟨hnames, hjoin⟩ := parseListing_print hproper
  exact ⟨hproper, hnames, hjoin "a\rd" (by decide) (ofText "/news")⟩

end FolderCommands.Rclone
