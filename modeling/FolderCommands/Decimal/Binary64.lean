/-!
# Double-precision numbers

A finite double is a sign and an integer times a power of two. Reading a decimal rounds the exact
value to the nearest double, a tie going to the even neighbour; all arithmetic is on naturals.
-/

namespace FolderCommands.Decimal

/-- A double-precision number. A finite one is `mantissa * 2 ^ exponent`, with a mantissa below
`2 ^ 53` and an exponent of at least `-1074`. -/
inductive Binary64 where
  | nan
  | infinite (negative : Bool)
  | finite (negative : Bool) (mantissa : Nat) (exponent : Int)
deriving DecidableEq, Repr

/-- The quotient rounded to the nearest natural, a tie going to the even neighbour. -/
def roundedQuotient (num den : Nat) : Nat :=
  let low := num / den
  let rest := num % den
  if 2 * rest < den then low
  else if den < 2 * rest then low + 1
  else if low % 2 = 0 then low else low + 1

/-- A rational as a numerator and a denominator after division by `2 ^ q`. -/
def scaled (num den : Nat) (q : Int) : Nat × Nat :=
  if 0 ≤ q then (num, den * Nat.pow 2 q.toNat) else (num * Nat.pow 2 (-q).toNat, den)

/-- The decimal digits of a natural are this many. -/
def digitCount (n : Nat) : Nat :=
  (Nat.toDigits 10 n).length

namespace Binary64

/-- The least exponent of a double. -/
def leastExponent : Int :=
  -1074

/-- The greatest exponent of a double. -/
def greatestExponent : Int :=
  971

/-- The exponent that leaves 53 bits of a positive rational before rounding. -/
def exponentFor (num den : Nat) : Int :=
  let guess : Int := (Nat.log2 num : Int) - Nat.log2 den - 53
  let (n, d) := scaled num den guess
  max leastExponent (if n / d < Nat.pow 2 53 then guess else guess + 1)

/-- The double nearest to a rational. -/
def ofRational (negative : Bool) (num den : Nat) : Binary64 :=
  if num = 0 then finite negative 0 leastExponent
  else
    let q := exponentFor num den
    let (n, d) := scaled num den q
    let m := roundedQuotient n d
    let (m, q) := if m = Nat.pow 2 53 then (Nat.pow 2 52, q + 1) else (m, q)
    if greatestExponent < q then infinite negative else finite negative m q

/-- The double nearest to `digits * 10 ^ power`. -/
def ofDecimal (negative : Bool) (digits : Nat) (power : Int) : Binary64 :=
  if digits = 0 then finite negative 0 leastExponent
  else
    let size := power + digitCount digits
    if 310 < size then infinite negative
    else if size < -330 then finite negative 0 leastExponent
    else if 0 ≤ power then ofRational negative (digits * Nat.pow 10 power.toNat) 1
    else ofRational negative digits (Nat.pow 10 (-power).toNat)

def isFinite : Binary64 → Bool
  | finite .. => true
  | _ => false

/-- Whether two doubles count as the same key: zeros of both signs do, and so do all NaNs. -/
def sameKey : Binary64 → Binary64 → Bool
  | nan, nan => true
  | infinite a, infinite b => a == b
  | finite a m q, finite b n r => m == n && (m == 0 || (a == b && q == r))
  | _, _ => false

end Binary64

end FolderCommands.Decimal
