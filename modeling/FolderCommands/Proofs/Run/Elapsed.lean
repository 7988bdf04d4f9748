import FolderCommands.Proofs.Grammar.Entries
import FolderCommands.Proofs.Time.Timestamps
import FolderCommands.Run.Report
import Mathlib.Algebra.Order.Field.Rat
import Mathlib.Tactic.NormNum
import Mathlib.Tactic.Ring

/-!
# The time that a summary gives

A summary gives the time of a run as a decimal numeral of seconds with three places. The seconds are
rounded toward zero and the milliseconds count upwards, so both belong to one number as long as the
clock was not set back. If it was, the numeral is right for whole seconds, and for whole and a half,
and for nothing else; it is never off by more than a second.
-/

namespace FolderCommands

/-! ## Decimal numerals -/

namespace Decimal

open Grammar

/-- The number that digits stand for, with a point among them. -/
def unsigned? (cs : List Char) : Option ℚ :=
  let whole := cs.takeWhile Char.isDigit
  match cs.dropWhile Char.isDigit with
  | '.' :: places =>
    if whole.isEmpty || places.isEmpty || !places.all Char.isDigit then none
    else some (Nat.ofDigitChars 10 (whole ++ places) 0 / 10 ^ places.length)
  | _ => none

/-- The number that a decimal numeral stands for. -/
def value? (numeral : String) : Option ℚ :=
  match numeral.toList with
  | '-' :: cs => (unsigned? cs).map (-·)
  | cs => unsigned? cs

theorem unsigned?_point {whole : List Char} (h : ∀ c ∈ whole, c.isDigit = true)
    (places : List Char) : unsigned? (whole ++ '.' :: places) =
      if whole.isEmpty || places.isEmpty || !places.all Char.isDigit then none
      else some ((Nat.ofDigitChars 10 (whole ++ places) 0 : ℚ) / 10 ^ places.length) := by
  have hpoint : ∀ d, ('.' :: places).head? = some d → d.isDigit = false := by
    rintro d ⟨⟩
    decide
  rw [unsigned?, dropWhile_append_stop h hpoint, takeWhile_append_stop h hpoint]
  rfl

theorem value?_minus {numeral : String} {cs : List Char} (h : numeral.toList = '-' :: cs) :
    value? numeral = (unsigned? cs).map (-·) := by
  rw [value?, h]
  rfl

theorem value?_digit {numeral : String}
    (h : ∀ c, numeral.toList.head? = some c → c.isDigit = true) :
    value? numeral = unsigned? numeral.toList := by
  rw [value?]
  split
  · rename_i cs hminus
    rw [hminus] at h
    cases h '-' rfl
  · rfl

/-- The value of a numeral with three places. -/
theorem unsigned?_digits (whole : ℕ) {thousandths : ℕ} (h : thousandths < 1000) :
    unsigned? (Nat.toDigits 10 whole ++ '.' :: (Rfc3339.padded 3 thousandths).toList) =
      some (((1000 * whole + thousandths : ℕ) : ℚ) / 1000) := by
  have hwhole : ∀ c ∈ Nat.toDigits 10 whole, c.isDigit = true := fun c hc ↦
    Nat.isDigit_of_mem_toDigits (Nat.zero_lt_succ 9) (Nat.le_refl 10) hc
  have hplaces := List.all_eq_true.2 (Rfc3339.isDigit_padded 3 thousandths)
  have hlength : (Rfc3339.padded 3 thousandths).toList.length = 3 :=
    Rfc3339.length_padded (by decide) h
  have hvalue : Nat.ofDigitChars 10
      (Nat.toDigits 10 whole ++ (Rfc3339.padded 3 thousandths).toList) 0 =
        1000 * whole + thousandths := by
    calc Nat.ofDigitChars 10 (Nat.toDigits 10 whole ++ (Rfc3339.padded 3 thousandths).toList) 0
      _ = Nat.ofDigitChars 10 (Rfc3339.padded 3 thousandths).toList whole := by
        rw [Nat.ofDigitChars_append, Nat.ofDigitChars_ten_toDigits]
      _ = 10 ^ 3 * whole + Nat.ofDigitChars 10 (Rfc3339.padded 3 thousandths).toList 0 := by
        rw [Nat.ofDigitChars_eq_ofDigitChars_zero, hlength]
      _ = 1000 * whole + thousandths := by
        rw [Rfc3339.ofDigitChars_padded]
        rfl
  have hne : (Nat.toDigits 10 whole).isEmpty = false :=
    List.isEmpty_eq_false_iff.2 Nat.toDigits_ne_nil
  have hne' : (Rfc3339.padded 3 thousandths).toList.isEmpty = false := by
    rw [List.isEmpty_eq_false_iff, ← List.length_pos_iff, hlength]
    decide
  rw [unsigned?_point hwhole, hne, hne', hplaces, if_neg (by decide), hvalue, hlength]
  norm_num

/-- The value of a whole number with three places behind it. The places have the sign of what is in
front of the point. -/
theorem value?_places (seconds : ℤ) {thousandths : ℕ} (h : thousandths < 1000) :
    value? (toString seconds ++ "." ++ Rfc3339.padded 3 thousandths) =
      some (((if seconds < 0 then 1000 * seconds - thousandths
        else 1000 * seconds + thousandths : ℤ) : ℚ) / 1000) := by
  have hchars : (toString seconds ++ "." ++ Rfc3339.padded 3 thousandths).toList =
      (Int.repr seconds).toList ++ '.' :: (Rfc3339.padded 3 thousandths).toList := by
    simp [Int.toString_eq_repr]
  cases seconds with
  | ofNat whole =>
    have htext : (Int.repr (Int.ofNat whole)).toList = Nat.toDigits 10 whole := Nat.toList_repr
    rw [htext] at hchars
    rw [value?_digit, hchars, unsigned?_digits whole h, if_neg (by simp)]
    · push_cast
      rfl
    · intro c hc
      rw [hchars, List.head?_append_of_ne_nil _ Nat.toDigits_ne_nil] at hc
      exact Nat.isDigit_of_mem_toDigits (Nat.zero_lt_succ 9) (Nat.le_refl 10)
        (List.mem_of_mem_head? hc)
  | negSucc before =>
    have htext : (Int.repr (Int.negSucc before)).toList = '-' :: Nat.toDigits 10 (before + 1) := by
      change ("-" ++ (before + 1).repr).toList = _
      rw [String.toList_append, Nat.toList_repr]
      rfl
    rw [htext, List.cons_append] at hchars
    rw [value?_minus hchars, unsigned?_digits _ h, Option.map_some,
      if_pos (Int.negSucc_lt_zero before)]
    congr 1
    push_cast [Int.negSucc_eq]
    ring

end Decimal

namespace Report

/-! ## Summaries -/

theorem tdiv_eq (a b : ℤ) : a.tdiv b = if 0 ≤ a then a / b else -(-a / b) := by
  split
  · rename_i ha
    exact Int.tdiv_eq_ediv_of_nonneg ha
  · rename_i ha
    rw [← Int.tdiv_eq_ediv_of_nonneg (by omega), Int.neg_tdiv, neg_neg]

/-- The milliseconds that the numeral of some milliseconds stands for: thousandths that count
upwards, with the sign of the whole seconds. -/
def shown (milliseconds : ℤ) : ℤ :=
  if milliseconds.tdiv 1000 < 0 then 1000 * milliseconds.tdiv 1000 - milliseconds % 1000
  else 1000 * milliseconds.tdiv 1000 + milliseconds % 1000

theorem shown_eq_self_iff (milliseconds : ℤ) : shown milliseconds = milliseconds ↔
    0 ≤ milliseconds ∨ milliseconds % 1000 = 0 ∨
      milliseconds % 1000 = 500 ∧ milliseconds < -1000 := by
  rw [shown, tdiv_eq]
  split <;> split <;> omega

theorem abs_shown_sub_le (milliseconds : ℤ) : |shown milliseconds - milliseconds| ≤ 1000 := by
  rw [shown, tdiv_eq, abs_le]
  split <;> split <;> omega

/-- Whole seconds are whole thousands of milliseconds, both rounded toward zero. -/
theorem tdiv_tdiv (nanos : ℤ) : (nanos.tdiv 1000000).tdiv 1000 = nanos.tdiv 1000000000 := by
  rw [tdiv_eq, tdiv_eq, tdiv_eq]
  split <;> omega

/-- The whole milliseconds from the start of a run to its finish. -/
def milliseconds (r : Report) : ℤ :=
  (r.finishedAt.since r.startedAt).tdiv 1000000

theorem value?_elapsed (r : Report) :
    Decimal.value? r.elapsed = some ((shown r.milliseconds : ℚ) / 1000) := by
  have hnonneg := Int.emod_nonneg r.milliseconds (b := 1000) (by decide)
  have hlt := Int.emod_lt_of_pos r.milliseconds (b := 1000) (by decide)
  rw [milliseconds] at *
  rw [elapsed, Decimal.value?_places _ (by omega), ← tdiv_tdiv, Int.toNat_of_nonneg hnonneg, shown]

/-- The time in the summary of every report is a decimal numeral. It stands for the milliseconds
from the start to the finish, rounded toward zero, if and only if the finish is not before the
start, or before it by whole seconds, or by a half and whole seconds; it is never off by more than a
second. -/
theorem summary_elapsed_iff (r : Report) : ∃ (numeral : String) (thousandths : ℤ),
    r.summary = r.headline ++ " in " ++ numeral ++ "s" ∧
    Decimal.value? numeral = some ((thousandths : ℚ) / 1000) ∧
    (thousandths = r.milliseconds ↔
      0 ≤ r.milliseconds ∨ r.milliseconds % 1000 = 0 ∨
        r.milliseconds % 1000 = 500 ∧ r.milliseconds < -1000) ∧
    |thousandths - r.milliseconds| ≤ 1000 :=
  ⟨r.elapsed, shown r.milliseconds, rfl, value?_elapsed r, shown_eq_self_iff _,
    abs_shown_sub_le _⟩

/-- A run whose clock was set back by a second and a quarter. -/
def setBack : Report where
  runId := .ofNat 0xdeadbeef
  startedAt := ⟨19723, 1, 250000000⟩
  finishedAt := ⟨19723, 0, 0⟩
  status := .completed
  topFolder := "top"
  visited := ["top"]
  failures := []
  error := none
  failedFolder := none
  logRequests := []

/-- The quarter is shown as three quarters. -/
theorem summary_setBack : setBack.milliseconds = -1250 ∧
    setBack.summary = setBack.headline ++ " in " ++ "-1.750" ++ "s" ∧
    Decimal.value? "-1.750" = some (-1750 / 1000) ∧
    Decimal.value? "-1.750" ≠ some (-1250 / 1000) := by
  have hvalue : Decimal.value? "-1.750" = some (-1750 / 1000) := value?_elapsed setBack
  refine ⟨by decide, by decide +kernel, hvalue, ?_⟩
  rw [hvalue]
  norm_num

end Report

end FolderCommands
