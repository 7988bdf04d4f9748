import FolderCommands.Decimal.Layout

/-!
# Values of YAML documents

The data that a document stands for. Entries of a mapping keep their order; as keys, two mappings
are the same when they have the same entries in any order.
-/

namespace FolderCommands.Yaml

/-- A number of a document. -/
inductive Number where
  | int (n : Int)
  | float (x : Decimal.Binary64)
deriving DecidableEq, Repr

namespace Number

/-- The text of a number. -/
def text : Number → String
  | int n => toString n
  | float x => Decimal.Layout.compact.write x

/-- Whether two numbers are the same key. -/
def same : Number → Number → Bool
  | int a, int b => a == b
  | float a, float b => a.sameKey b
  | _, _ => false

end Number

/-- A value of a document. -/
inductive Value where
  | null
  | bool (b : Bool)
  | number (n : Number)
  | string (s : String)
  | sequence (items : List Value)
  | mapping (entries : List (Value × Value))
  /-- A value with a tag of the document's own. -/
  | tagged (tag : String) (value : Value)

namespace Value

/-- The value without its tags. -/
def untagged : Value → Value
  | tagged _ v => v.untagged
  | v => v

/-- The text of a string, tags being of no account. -/
def asString? (v : Value) : Option String :=
  match v.untagged with
  | string s => some s
  | _ => none

def isNull : Value → Bool
  | null => true
  | _ => false

/-- Whether a value is the string `s`. -/
def isString (s : String) : Value → Bool
  | string t => t == s
  | _ => false

/-- The value under a key in a list of entries. -/
def find? (key : String) (entries : List (Value × Value)) : Option Value :=
  (entries.find? fun (k, _) ↦ k.isString key).map (·.2)

/-- The value under a key in a mapping, tags of the mapping being of no account. -/
def get? (v : Value) (key : String) : Option Value :=
  match v.untagged with
  | mapping entries => find? key entries
  | _ => none

/-- A tag without its exclamation mark, unless it is nothing else. -/
def bareTag (tag : String) : String :=
  match tag.toList with
  | '!' :: c :: cs => String.ofList (c :: cs)
  | _ => tag

mutual

/-- Whether two values are the same key. -/
def same : Value → Value → Bool
  | null, null => true
  | bool a, bool b => a == b
  | number a, number b => a.same b
  | string a, string b => a == b
  | sequence xs, sequence ys => sameItems xs ys
  | mapping xs, mapping ys => xs.length == ys.length && sameEntries xs ys
  | tagged s v, tagged t w => bareTag s == bareTag t && same v w
  | _, _ => false

/-- Whether two lists hold the same values in the same order. -/
def sameItems : List Value → List Value → Bool
  | [], [] => true
  | x :: xs, y :: ys => same x y && sameItems xs ys
  | _, _ => false

/-- Whether each of some entries is among others. -/
def sameEntries : List (Value × Value) → List (Value × Value) → Bool
  | [], _ => true
  | (k, v) :: xs, ys => (ys.any fun (l, w) ↦ same k l && same v w) && sameEntries xs ys

end

end Value

end FolderCommands.Yaml
