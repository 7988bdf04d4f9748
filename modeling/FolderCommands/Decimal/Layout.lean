import FolderCommands.Decimal.Shortest

/-!
# Writing doubles

A layout says how the shortest decimal of a double is set out. Two are in use: the compact one of
data formats, which turns to an exponent outside a window, and the plain one of messages, which
never does.
-/

namespace FolderCommands.Decimal

/-- How a double is written. -/
structure Layout where
  nan : String
  infinity : String
  negativeInfinity : String
  /-- The positions of the point that are written without an exponent; all if absent. -/
  window : Option (Int × Int)
deriving Repr

/-- As many zeros. -/
def zeros (n : Nat) : String :=
  String.ofList (List.replicate n '0')

/-- The digits with the point after `point` of them, and at least one digit on either side. -/
def positional (digits : String) (point : Int) : String :=
  if point ≤ 0 then "0." ++ zeros (-point).toNat ++ digits
  else if digits.length ≤ point.toNat then
    digits ++ zeros (point.toNat - digits.length) ++ ".0"
  else
    String.ofList (digits.toList.take point.toNat) ++ "." ++
      String.ofList (digits.toList.drop point.toNat)

/-- The digits with the point after the first of them and an exponent. -/
def scientific (digits : String) (point : Int) : String :=
  let exponent := "e" ++ toString (point - 1)
  match digits.toList with
  | [d] => String.ofList [d] ++ exponent
  | d :: rest => String.ofList [d] ++ "." ++ String.ofList rest ++ exponent
  | [] => exponent

namespace Layout

/-- The written form of a double. -/
def write (l : Layout) : Binary64 → String
  | .nan => l.nan
  | .infinite negative => if negative then l.negativeInfinity else l.infinity
  | .finite negative m q =>
    (if negative then "-" else "") ++
      if m = 0 then "0.0"
      else
        let d := shortest m q
        let digits := toString d.digits
        let point := d.power + digits.length
        match l.window with
        | none => positional digits point
        | some (first, last) =>
          if first ≤ point ∧ point ≤ last then positional digits point
          else scientific digits point

/-- Numbers in documents: positional from `1e-5` to below `1e16`. -/
def compact : Layout :=
  ⟨".nan", ".inf", "-.inf", some (-4, 16)⟩

/-- Numbers in messages about data: always positional. -/
def plain : Layout :=
  ⟨"NaN", "inf", "-inf", none⟩

end Layout

end FolderCommands.Decimal
