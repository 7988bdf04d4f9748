import FolderCommands.Proofs.Names
import FolderCommands.Proofs.Time.Calendar
import FolderCommands.Time.Rfc3339
import Mathlib.Data.List.TakeWhile

/-!
# Timestamps that are read back

An instant of a year with four digits that is no leap second is read from its written form. Every
number of that form has its fixed width, so that reading it never depends on what stands behind;
only the fraction has three widths, and is followed by a letter.
-/

namespace FolderCommands

/-- An instant whose year has four digits and that is no leap second. -/
structure Instant.IsOrdinary (t : Instant) : Prop where
  year_nonneg : 0 ≤ (Date.ofDays t.days).year
  year_le : (Date.ofDays t.days).year ≤ 9999
  second_lt : t.second < 86400
  nanos_lt : t.nanos < 1000000000

namespace Rfc3339

/-! ## Numbers of a fixed width -/

section Padded

variable {width n : Nat} (hwidth : 0 < width) (h : n < Nat.pow 10 width)

theorem toList_padded (width n : Nat) : (padded width n).toList =
    List.replicate (width - (Nat.toDigits 10 n).length) '0' ++ Nat.toDigits 10 n := by
  simp [padded, ← String.length_toList]

include hwidth h in
theorem length_padded : (padded width n).toList.length = width := by
  have hlength := (Nat.length_toDigits_le_iff (by decide) hwidth).2 h
  rw [toList_padded, List.length_append, List.length_replicate]
  omega

theorem isDigit_padded (width n : Nat) : ∀ c ∈ (padded width n).toList, c.isDigit = true := by
  intro c hc
  rw [toList_padded, List.mem_append] at hc
  rcases hc with hc | hc
  · obtain rfl := List.eq_of_mem_replicate hc
    decide
  · exact Nat.isDigit_of_mem_toDigits (Nat.zero_lt_succ 9) (Nat.le_refl 10) hc

theorem ofDigitChars_padded (width n : Nat) :
    Nat.ofDigitChars 10 (padded width n).toList 0 = n := by
  rw [toList_padded, Nat.ofDigitChars_append, Nat.ofDigitChars_replicate_zero, Nat.mul_zero,
    Nat.ofDigitChars_toDigits (by decide) (Nat.le_refl 10)]

theorem foldl_padded (width n : Nat) :
    (padded width n).toList.foldl (fun n d ↦ 10 * n + (d.toNat - 48)) 0 = n := by
  have hvalue := ofDigitChars_padded width n
  rw [Nat.ofDigitChars_eq_foldl] at hvalue
  exact hvalue

include hwidth h in
theorem exists_padded : ∃ c cs, (padded width n).toList = c :: cs ∧ c.isDigit = true := by
  have hlength := length_padded hwidth h
  have hdigits := isDigit_padded width n
  cases hcs : (padded width n).toList with
  | nil =>
    rw [hcs] at hlength
    exact absurd hlength (Nat.ne_of_lt hwidth)
  | cons c cs =>
    rw [hcs] at hdigits
    exact ⟨c, cs, rfl, hdigits c List.mem_cons_self⟩

theorem isBlank_of_isDigit {c : Char} (h : c.isDigit = true) : Text.isBlank c = false :=
  isBlank_of_isWord (by simp [Yaml.isWord, Char.isAlphanum, h])

include hwidth h in
theorem skipBlanks_padded (rest : List Char) :
    skipBlanks ((padded width n).toList ++ rest) = (padded width n).toList ++ rest := by
  obtain ⟨c, cs, hcs, hc⟩ := exists_padded hwidth h
  rw [hcs, List.cons_append]
  exact List.dropWhile_cons_of_neg (by simp [isBlank_of_isDigit hc])

include hwidth h in
/-- A number is read up to its width, or up to a character that is no digit. -/
theorem number_padded {limit : Nat} (hlimit : width ≤ limit) (hsmall : width ≤ 9)
    {rest : List Char} (hrest : width = limit ∨ rest.takeWhile Char.isDigit = []) :
    number (some limit) ((padded width n).toList ++ rest) = .ok (n, rest) := by
  have hlength := length_padded hwidth h
  have hdigits : (((padded width n).toList ++ rest).takeWhile Char.isDigit).take limit =
      (padded width n).toList := by
    rw [List.takeWhile_append_of_pos (isDigit_padded width n)]
    rcases hrest with heq | hnil
    · exact List.take_left' (hlength.trans heq)
    · rw [hnil, List.append_nil, List.take_of_length_le (hlength.trans_le hlimit)]
  have hbound : n < Nat.pow 2 63 := by
    have hpow : Nat.pow 10 width ≤ Nat.pow 10 9 := Nat.pow_le_pow_right (by decide) hsmall
    exact Nat.lt_of_lt_of_le h (hpow.trans (by decide))
  obtain ⟨c, cs, hcs, -⟩ := exists_padded hwidth h
  have hempty : ((padded width n).toList ++ rest).isEmpty = false := by
    rw [hcs]
    rfl
  have hempty' : (padded width n).toList.isEmpty = false := by
    rw [hcs]
    rfl
  simp only [number, hdigits, hempty, hempty', Bool.false_eq_true, if_false, foldl_padded,
    if_pos hbound, List.drop_left]

end Padded

theorem bounded_padded {low high n : Nat} (hlow : low ≤ n) (hhigh : n ≤ high)
    (h : n < 100) (rest : List Char) :
    bounded low high ((padded 2 n).toList ++ rest) = .ok (n, rest) := by
  rw [bounded, skipBlanks_padded (by decide) h,
    number_padded (by decide) h (Nat.le_refl 2) (by decide) (.inl rfl)]
  exact if_pos ⟨hlow, hhigh⟩

theorem bind_of_eq_ok {α β : Type} {x : Except Fault α} {next : α → Except Fault β} {a : α}
    (h : x = .ok a) : (x >>= next) = next a := by
  rw [h]
  rfl

theorem readYear_year {y : Int} (hnonneg : 0 ≤ y) (hle : y ≤ 9999) (rest : List Char) :
    readYear ((year y).toList ++ rest) = .ok (y, rest) := by
  have hfits : y.toNat < Nat.pow 10 4 := by
    change y.toNat < 10000
    omega
  have hnumber : number (some 4) ((padded 4 y.toNat).toList ++ rest) = .ok (y.toNat, rest) :=
    number_padded (by decide) hfits (Nat.le_refl 4) (by decide) (.inl rfl)
  obtain ⟨c, cs, hcs, hc⟩ := exists_padded (by decide) hfits
  have hbounds : -(Nat.pow 2 31 : Int) ≤ y ∧ y < (Nat.pow 2 31 : Int) := by
    have hpow : Nat.pow 2 31 = 2147483648 := by decide
    rw [hpow]
    omega
  rw [year, if_pos ⟨hnonneg, hle⟩]
  unfold readYear
  rw [skipBlanks_padded (by decide) hfits]
  rw [hcs, List.cons_append] at hnumber ⊢
  split
  · rename_i heq
    cases heq
    cases hc
  · rename_i heq
    cases heq
    cases hc
  · refine (bind_of_eq_ok (a := (y, rest)) ?_).trans (if_pos hbounds)
    rw [hnumber]
    change Except.ok ((y.toNat : Int), rest) = _
    rw [Int.toNat_of_nonneg hnonneg]

/-! ## The fraction of a second -/

theorem readFraction_padded {width n : Nat} (hwidth : 0 < width) (hle : width ≤ 9)
    (h : n < Nat.pow 10 width) :
    readFraction ('.' :: ((padded width n).toList ++ ['Z'])) =
      .ok (n * Nat.pow 10 (9 - width), ['Z']) := by
  have hnumber : number (some 9) ((padded width n).toList ++ ['Z']) = .ok (n, ['Z']) :=
    number_padded hwidth h hle hle (.inr rfl)
  have hlength : ((padded width n).toList ++ ['Z']).length - ['Z'].length = width := by
    rw [List.length_append, Nat.add_sub_cancel, length_padded hwidth h]
  change (number (some 9) ((padded width n).toList ++ ['Z']) >>= _) = _
  rw [hnumber]
  change Except.ok (n * Nat.pow 10 (9 - (((padded width n).toList ++ ['Z']).length -
    ['Z'].length)), ['Z']) = _
  rw [hlength]

theorem readFraction_fraction {nanos : Nat} (h : nanos < 1000000000) :
    readFraction ((fraction nanos).toList ++ ['Z']) = .ok (nanos, ['Z']) := by
  unfold fraction
  split_ifs with hzero hmilli hmicro
  · subst hzero
    rfl
  · have hwhole : nanos / 1000000 * 1000000 = nanos := by omega
    have hread := readFraction_padded (n := nanos / 1000000) (by decide) (by decide : 3 ≤ 9)
      (show nanos / 1000000 < 1000 by omega)
    rw [String.toList_append]
    exact hread.trans (congrArg (fun n ↦ Except.ok (n, ['Z'])) hwhole)
  · have hwhole : nanos / 1000 * 1000 = nanos := by omega
    have hread := readFraction_padded (n := nanos / 1000) (by decide) (by decide : 6 ≤ 9)
      (show nanos / 1000 < 1000000 by omega)
    rw [String.toList_append]
    exact hread.trans (congrArg (fun n ↦ Except.ok (n, ['Z'])) hwhole)
  · have hread := readFraction_padded (by decide) (Nat.le_refl 9) h
    rw [String.toList_append]
    exact hread.trans (congrArg (fun n ↦ Except.ok (n, ['Z'])) (Nat.mul_one nanos))

/-! ## The whole -/

/-- The instant of a date and time of its day. -/
theorem instant_ofDays {t : Instant} (h : t.IsOrdinary) :
    instant (Date.ofDays t.days) (t.second / 3600) (t.second / 60 % 60) (t.second % 60) t.nanos 0 =
      .ok t := by
  have hcalendar := Date.isInCalendar_ofDays t.days
  have hvalid : (Date.ofDays t.days).isValid = true := by
    obtain ⟨hfirst, hlast, hday, hlength⟩ := hcalendar
    have hnonneg := h.year_nonneg
    have hle := h.year_le
    simp only [Date.isValid, Bool.and_eq_true, decide_eq_true_eq]
    omega
  have hsecond : t.second % 60 ≠ 60 := by omega
  have hreading : t.days * 86400 + (t.second / 3600 : Nat) * 3600 +
      (t.second / 60 % 60 : Nat) * 60 + ((t.second % 60 : Nat) : Int) - 0 =
        t.days * 86400 + t.second := by
    omega
  have hlt := h.second_lt
  have hdays : (t.days * 86400 + t.second) / 86400 = t.days := by omega
  have hrest : ((t.days * 86400 + t.second) % 86400).toNat = t.second := by omega
  unfold instant
  rw [hvalid, Date.toDays_ofDays]
  change (if (!true || decide (86400 ≤ (0 : Int).natAbs)) = true then _ else _) = _
  rw [if_neg (by decide)]
  simp only [hsecond, if_false, hreading, hdays, hrest, hvalid, if_true]

theorem literal_cons {c : Char} (h : Text.isBlank c = false) (cs : List Char) :
    literal c (c :: cs) = .ok cs := by
  have hskip : skipBlanks (c :: cs) = c :: cs := List.dropWhile_cons_of_neg (by simp [h])
  rw [literal, hskip]
  exact if_pos rfl

theorem toList_render {t : Instant} (h : t.IsOrdinary) :
    (render t).toList = (year (Date.ofDays t.days).year).toList ++
      '-' :: ((padded 2 (Date.ofDays t.days).month).toList ++
        '-' :: ((padded 2 (Date.ofDays t.days).day).toList ++
          'T' :: ((padded 2 (t.second / 3600)).toList ++
            ':' :: ((padded 2 (t.second / 60 % 60)).toList ++
              ':' :: ((padded 2 (t.second % 60)).toList ++
                ((fraction t.nanos).toList ++ ['Z'])))))) := by
  have hnanos : t.nanos % 1000000000 = t.nanos := Nat.mod_eq_of_lt h.nanos_lt
  have hleap : t.second % 60 + t.nanos / 1000000000 = t.second % 60 := by
    rw [Nat.div_eq_of_lt h.nanos_lt, Nat.add_zero]
  have hhyphen : "-".toList = ['-'] := rfl
  have hcolon : ":".toList = [':'] := rfl
  have htime : "T".toList = ['T'] := rfl
  have hzone : "Z".toList = ['Z'] := rfl
  simp only [render, hnanos, hleap, String.toList_append, List.append_assoc, hhyphen, hcolon,
    htime, hzone, List.cons_append, List.nil_append]

/-- An ordinary instant is read from its written form. -/
theorem parse_render {t : Instant} (h : t.IsOrdinary) : parse (render t) = .ok t := by
  obtain ⟨hmonth, hmonth', hday, hday'⟩ := Date.isInCalendar_ofDays t.days
  have hlength := Date.monthLength_le (Date.ofDays t.days).year (Date.ofDays t.days).month
  have hsecond := h.second_lt
  rw [parse, toList_render h]
  refine (bind_of_eq_ok (readYear_year h.year_nonneg h.year_le _)).trans ?_
  refine (bind_of_eq_ok (literal_cons (by decide) _)).trans ?_
  refine (bind_of_eq_ok (bounded_padded hmonth hmonth' (by omega) _)).trans ?_
  refine (bind_of_eq_ok (literal_cons (by decide) _)).trans ?_
  refine (bind_of_eq_ok (bounded_padded hday (by omega) (by omega) _)).trans ?_
  refine (bind_of_eq_ok (a := _) rfl).trans ?_
  refine (bind_of_eq_ok (bounded_padded (Nat.zero_le _) (by omega) (by omega) _)).trans ?_
  refine (bind_of_eq_ok (literal_cons (by decide) _)).trans ?_
  refine (bind_of_eq_ok (bounded_padded (Nat.zero_le _) (by omega) (by omega) _)).trans ?_
  refine (bind_of_eq_ok (literal_cons (by decide) _)).trans ?_
  refine (bind_of_eq_ok (bounded_padded (Nat.zero_le _) (by omega) (by omega) _)).trans ?_
  refine (bind_of_eq_ok (readFraction_fraction h.nanos_lt)).trans ?_
  exact instant_ofDays h

end Rfc3339

end FolderCommands
