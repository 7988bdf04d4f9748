import FolderCommands.Decimal.Binary64

/-!
# Shortest decimal digits

Every double is the nearest one to all numbers of an interval. Its shortest decimal has the least
number of digits that a decimal in the interval can have; of the decimals with so many digits it
is the one nearest to the double.
-/

namespace FolderCommands.Decimal

/-- A decimal `digits * 10 ^ power`. -/
structure Digits where
  digits : Nat
  power : Int
deriving DecidableEq, Repr

/-- A positive double and the interval that rounds to it, over one denominator. -/
structure Rounding where
  low : Nat
  value : Nat
  high : Nat
  den : Nat
  /-- Whether the ends belong to the interval. -/
  closed : Bool
deriving DecidableEq, Repr

namespace Rounding

/-- The interval of `m * 2 ^ q`; the neighbour below is nearer at a power of two. -/
def ofBinary (m : Nat) (q : Int) : Rounding :=
  let narrow := m = Nat.pow 2 52 ∧ Binary64.leastExponent < q
  let low := if narrow then 4 * m - 1 else 4 * m - 2
  let up := if 2 ≤ q then Nat.pow 2 (q - 2).toNat else 1
  let den := if 2 ≤ q then 1 else Nat.pow 2 (2 - q).toNat
  ⟨low * up, 4 * m * up, (4 * m + 2) * up, den, m % 2 = 0⟩

/-- Whether the decimal `d * 10 ^ k` rounds to the double. -/
def holds (r : Rounding) (d : Nat) (k : Int) : Bool :=
  let x := if 0 ≤ k then d * Nat.pow 10 k.toNat * r.den else d * r.den
  let unit := if 0 ≤ k then 1 else Nat.pow 10 (-k).toNat
  if r.closed then r.low * unit ≤ x && x ≤ r.high * unit
  else r.low * unit < x && x < r.high * unit

/-- The decimal with last place `10 ^ k` that rounds to the double, if there is one. -/
def atPlace? (r : Rounding) (k : Int) : Option Digits :=
  let num := if 0 ≤ k then r.value else r.value * Nat.pow 10 (-k).toNat
  let den := if 0 ≤ k then r.den * Nat.pow 10 k.toNat else r.den
  let below := num / den
  let rest := num % den
  let nearBelow := 2 * rest < den || (2 * rest == den && below % 2 == 0)
  let (first, second) := if nearBelow then (below, below + 1) else (below + 1, below)
  if first ≠ 0 ∧ r.holds first k then some ⟨first, k⟩
  else if second ≠ 0 ∧ r.holds second k then some ⟨second, k⟩
  else none

/-- Tries `count` places from `k` downwards. -/
def search (r : Rounding) (k : Int) : Nat → Digits
  | 0 => ⟨r.value / r.den, 0⟩
  | count + 1 =>
    match r.atPlace? k with
    | some found => found
    | none => search r (k - 1) count

end Rounding

/-- Removes the zeros at the end of a decimal. -/
def withoutZeros (d : Digits) : Nat → Digits
  | 0 => d
  | fuel + 1 =>
    if d.digits ≠ 0 ∧ d.digits % 10 = 0 then withoutZeros ⟨d.digits / 10, d.power + 1⟩ fuel else d

/-- The shortest decimal of the positive double `m * 2 ^ q`. -/
def shortest (m : Nat) (q : Int) : Digits :=
  let r := Rounding.ofBinary m q
  let size : Int := digitCount (r.value / r.den)
  let start : Int := if r.value / r.den = 0 then -(digitCount (r.den / r.value) : Int) + 1 else size
  withoutZeros (r.search start 20) 400

end FolderCommands.Decimal
