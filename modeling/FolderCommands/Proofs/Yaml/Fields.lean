import FolderCommands.Proofs.Yaml.Rows

/-!
# Fields

A page is a list of fields, each of them a key with a name, a truth value or any text between
quotes. Pages are rows whose scalars stand for what they were written for.
-/

namespace FolderCommands

namespace Yaml

/-- A scalar and how it is written. -/
inductive FieldValue where
  /-- A name as it is. -/
  | name (s : String)
  /-- A truth value as it is. -/
  | flag (b : Bool)
  /-- Any text between single quotes. -/
  | quoted (s : String)
deriving DecidableEq, Repr

namespace FieldValue

/-- The text of a scalar. -/
def text : FieldValue → String
  | name s | quoted s => s
  | flag b => if b then "true" else "false"

def isPlain : FieldValue → Bool
  | name _ | flag _ => true
  | quoted _ => false

/-- What a scalar stands for. -/
def value : FieldValue → Value
  | name s | quoted s => .string s
  | flag b => .bool b

/-- The characters of a scalar. -/
def written (v : FieldValue) : List Char :=
  if v.isPlain then v.text.toList else '\'' :: (doubled v.text.toList ++ ['\''])

/-- Whether a scalar can be written like that in one line. -/
def isProper : FieldValue → Bool
  | name s => isName s
  | flag _ => true
  | quoted s => s.toList.all Text.isPrintable

/-- A scalar stands for its value. -/
theorem resolve_eq {v : FieldValue} (h : v.isProper = true) :
    Scalar.resolve none v.text v.isPlain = .ok v.value := by
  cases v with
  | name s => exact resolvePlain_of_isName h
  | flag b => cases b <;> rfl
  | quoted s => rfl

end FieldValue

/-- A key and its scalar. -/
structure Field where
  key : String
  value : FieldValue
deriving DecidableEq, Repr

namespace Field

/-- The line of a field. -/
def line (f : Field) : List Char :=
  f.key.toList ++ ':' :: ' ' :: f.value.written

def isProper (f : Field) : Bool :=
  isName f.key && f.value.isProper

theorem isProper_mk {key : String} {v : FieldValue} (hkey : isName key = true)
    (hv : v.isProper = true) : (⟨key, v⟩ : Field).isProper = true :=
  Bool.and_eq_true_iff.2 ⟨hkey, hv⟩

/-- The entry that a field is read as. -/
def entry (f : Field) : Value × Value :=
  (.string f.key, f.value.value)

/-- The row of a field. -/
def row (f : Field) : Row :=
  ⟨f.key, f.value.text, f.value.isPlain⟩

theorem isProper_row {f : Field} (h : f.isProper = true) : f.row.isProper = true := by
  obtain ⟨hkey, hvalue⟩ := Bool.and_eq_true_iff.1 h
  refine Bool.and_eq_true_iff.2 ⟨hkey, ?_⟩
  obtain ⟨key, value⟩ := f
  cases value with
  | name s => exact isBare_of_isName hvalue
  | flag b =>
    have hbare : isBare (FieldValue.flag b).text = true := by cases b <;> decide
    exact hbare
  | quoted s => exact hvalue

end Field

/-- The lines of fields. -/
def pageText (fields : List Field) : List Char :=
  fields.flatMap fun f ↦ f.line ++ ['\n']

/-- The lines of pages, each behind a mark. -/
def markedText (pages : List (List Field)) : List Char :=
  pages.flatMap fun fields ↦ '-' :: '-' :: '-' :: '\n' :: pageText fields

/-- Fields that can be read back: there is one, and no key is repeated. -/
structure IsPage (fields : List Field) : Prop where
  ne_nil : fields ≠ []
  isProper : ∀ f ∈ fields, f.isProper = true
  nodup : (fields.map (·.key)).Nodup

theorem pageText_eq (fields : List Field) : pageText fields = rowsText (fields.map Field.row) := by
  rw [pageText, rowsText, List.flatMap_map]
  rfl

theorem markedText_eq (pages : List (List Field)) :
    markedText pages = markedRows (pages.map (·.map Field.row)) := by
  simp only [markedText, markedRows, List.flatMap_map, pageText_eq]

theorem IsPage.areRows {fields : List Field} (h : IsPage fields) :
    AreRows (fields.map Field.row) where
  ne_nil := by simpa using h.ne_nil
  isProper := List.forall_mem_map.2 fun f hf ↦ Field.isProper_row (h.isProper f hf)
  nodup := by
    rw [List.map_map]
    exact h.nodup

end Yaml

end FolderCommands
