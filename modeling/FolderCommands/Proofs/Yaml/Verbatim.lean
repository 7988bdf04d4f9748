import FolderCommands.Manifest.Record
import FolderCommands.Proofs.Yaml.Rows

/-!
# Bare texts that are taken as they are written

A bare text may stand for nothing, for a truth value or for a number, and an attribute that is given
in that way is the text of the value. It is the text that was written where no other spelling of the
value is the one that is written back: where a whole number has decimal digits, fits 64 bits and has
no base in front, and where a float is set out as its own text. Superfluous zeros in front of a whole
number keep a text from being a number at all.
-/

namespace FolderCommands.Yaml.Scalar

/-! ## Bare texts that are numbers -/

/-- The number that digits behind a mark for their base spell. -/
def based? : List Char → Option Nat
  | '0' :: 'x' :: cs => digits? 16 cs
  | '0' :: 'o' :: cs => digits? 8 cs
  | '0' :: 'b' :: cs => digits? 2 cs
  | _ => none

/-- The number that characters spell without a sign. -/
def natural? (cs : List Char) : Option Nat :=
  (based? cs).or (if hasLeadingZero cs then none else digits? 10 cs)

/-- Whether a text is a whole number of more than 64 bits that is refused as such. -/
def isOversized (s : String) : Bool :=
  (natural? s.toList).any fun n ↦ Nat.pow 2 64 ≤ n && n < Nat.pow 2 128

/-- Whether a float, if a text is one, is written back as that text. -/
def isLaidOut (s : String) : Bool :=
  (float? s).all fun x ↦ Decimal.Layout.compact.write x = s

/-- Whether a bare text is the text of what it stands for. -/
def isVerbatim (s : String) : Bool :=
  !isNull s && !(["True", "TRUE", "False", "FALSE"].contains s) &&
    match (natural? s.toList).filter (· < Nat.pow 2 128) with
    | some n => n < Nat.pow 2 64 && (based? s.toList).isNone
    | none => hasLeadingZero s.toList || isLaidOut s

example : ["2024", "2024.1", "007", "1e16", "true", "v1.2/x"].all isVerbatim = true := by
  decide +kernel

example : ["2024.10", "1e3", "0x10", "True", "NULL", "18446744073709551616"].any isVerbatim =
    false := by
  decide +kernel

/-! ## Digits -/

/-- A number with a further digit. -/
def appendDigit (base : Nat) (n : Option Nat) (c : Char) : Option Nat :=
  match n, hexValue? c with
  | some n, some d => if d < base then some (base * n + d) else none
  | _, _ => none

variable {c : Char} {cs : List Char} {base m n : Nat}

theorem digits?_eq_foldl (h : cs ≠ []) :
    digits? base cs = cs.foldl (appendDigit base) (some 0) := by
  rw [digits?, if_neg (by simpa using h)]
  rfl

theorem digitChar_of_hexValue? {d : Nat} (h : hexValue? c = some d) (hd : d < 10) :
    Nat.digitChar d = c := by
  have hdigit := isDigit_of_hexValue? h hd
  rw [hexValue?, if_pos hdigit] at h
  cases h
  rw [isDigit_iff] at hdigit
  apply Char.toNat_inj.1
  rw [Nat.toNat_digitChar_of_lt_ten hd]
  omega

theorem exists_of_foldl_cons
    (h : (c :: cs).foldl (appendDigit 10) (some m) = some n) :
    ∃ d, d < 10 ∧ c = Nat.digitChar d ∧
      cs.foldl (appendDigit 10) (some (10 * m + d)) = some n := by
  have hnone : cs.foldl (appendDigit 10) none = none := List.foldl_fixed' (fun _ ↦ rfl) cs
  rw [List.foldl_cons] at h
  cases hvalue : hexValue? c with
  | none =>
    simp only [appendDigit, hvalue, hnone] at h
    cases h
  | some d =>
    simp only [appendDigit, hvalue] at h
    split at h
    · rename_i hd
      exact ⟨d, hd, (digitChar_of_hexValue? hvalue hd).symm, h⟩
    · rw [hnone] at h
      cases h

/-- Further digits behind a positive number are behind its digits. -/
theorem toDigits_append_of_foldl (hm : 0 < m)
    (h : cs.foldl (appendDigit 10) (some m) = some n) :
    Nat.toDigits 10 m ++ cs = Nat.toDigits 10 n := by
  induction cs generalizing m with
  | nil =>
    cases h
    exact List.append_nil _
  | cons c cs ih =>
    obtain ⟨d, hd, rfl, hrest⟩ := exists_of_foldl_cons h
    have hlast := Nat.toDigits_append_toDigits (b := 10) (n := m) (d := d) (by decide) hm hd
    rw [Nat.toDigits_of_lt_base hd] at hlast
    calc
      Nat.toDigits 10 m ++ Nat.digitChar d :: cs =
          (Nat.toDigits 10 m ++ [Nat.digitChar d]) ++ cs := by
        rw [List.append_assoc, List.singleton_append]
      _ = Nat.toDigits 10 (10 * m + d) ++ cs := by rw [hlast]
      _ = Nat.toDigits 10 n := ih (by omega) hrest

theorem isDigit_digitChar {d : Nat} (hd : d < 10) : (Nat.digitChar d).isDigit = true := by
  rw [isDigit_iff, Nat.toNat_digitChar_of_lt_ten hd]
  omega

theorem isDigit_of_foldl (h : cs.foldl (appendDigit 10) (some m) = some n) :
    ∀ c ∈ cs, c.isDigit = true := by
  induction cs generalizing m with
  | nil => exact List.forall_mem_nil _
  | cons c cs ih =>
    obtain ⟨d, hd, rfl, hrest⟩ := exists_of_foldl_cons h
    exact List.forall_mem_cons.2 ⟨isDigit_digitChar hd, ih hrest⟩

theorem isDigit_of_digits? (h : digits? 10 cs = some n) : ∀ c ∈ cs, c.isDigit = true := by
  cases cs with
  | nil => cases h
  | cons c cs =>
    rw [digits?_eq_foldl (List.cons_ne_nil _ _)] at h
    exact isDigit_of_foldl h

/-- Digits without superfluous zeros are the text of their number. -/
theorem ofList_eq_toString (h : digits? 10 cs = some n) (hzero : hasLeadingZero cs = false) :
    String.ofList cs = toString n := by
  cases cs with
  | nil => cases h
  | cons c cs =>
    rw [digits?_eq_foldl (List.cons_ne_nil _ _)] at h
    obtain ⟨d, hd, rfl, hrest⟩ := exists_of_foldl_cons h
    rw [Nat.mul_zero, Nat.zero_add] at hrest
    have hdigits : Nat.digitChar d :: cs = Nat.toDigits 10 n := by
      rcases Nat.eq_zero_or_pos d with rfl | hpos
      · cases cs with
        | nil =>
          cases hrest
          rfl
        | cons c cs =>
          have hall : (c :: cs).all Char.isDigit = true :=
            List.all_eq_true.2 (isDigit_of_foldl hrest)
          change (c :: cs).all Char.isDigit = false at hzero
          rw [hall] at hzero
          cases hzero
      · rw [← toDigits_append_of_foldl hpos hrest, Nat.toDigits_of_lt_base hd]
        rfl
    rw [hdigits]
    rfl

/-! ## Integers -/

theorem exists_of_based? (h : based? cs = some n) : ∃ c ∈ cs, c.isDigit = false := by
  unfold based? at h
  split at h
  · exact ⟨'x', by simp, by decide⟩
  · exact ⟨'o', by simp, by decide⟩
  · exact ⟨'b', by simp, by decide⟩
  · cases h

/-- A number with a mark for its base is not the text of any number. -/
theorem ofList_ne_toString (h : based? cs = some n) (m : Nat) : String.ofList cs ≠ toString m := by
  rintro heq
  obtain ⟨c, hc, hdigit⟩ := exists_of_based? h
  have hmem : c ∈ Nat.toDigits 10 m := by
    rw [← String.toList_ofList (l := cs), heq] at hc
    simpa using hc
  rw [Nat.isDigit_of_mem_toDigits (Nat.zero_lt_succ 9) (Nat.le_refl 10) hmem] at hdigit
  cases hdigit

theorem magnitude?_eq (cs : List Char) : magnitude? (hasLeadingZero cs) cs = natural? cs := by
  have hdecimal (d : Char) (ds : List Char) (hd : d.isDigit = false) :
      digits? 10 ('0' :: d :: ds) = none := by
    rw [Option.eq_none_iff_forall_ne_some]
    intro n hn
    rw [isDigit_of_digits? hn d (by simp)] at hd
    cases hd
  unfold magnitude?
  split
  · rw [natural?, hdecimal _ _ (by decide), ite_self, Option.or_none]
    rfl
  · rw [natural?, hdecimal _ _ (by decide), ite_self, Option.or_none]
    rfl
  · rw [natural?, hdecimal _ _ (by decide), ite_self, Option.or_none]
    rfl
  · rename_i hx ho hb
    have hbased : based? cs = none := by
      unfold based?
      split
      · exact absurd rfl (hx _)
      · exact absurd rfl (ho _)
      · exact absurd rfl (hb _)
      · rfl
    rw [natural?, hbased, Option.none_or]

theorem int?_eq (hplus : c ≠ '+') (hminus : c ≠ '-') :
    int? (c :: cs) = (natural? (c :: cs)).map Nat.cast := by
  rw [int?, sign_of_ne hplus hminus]
  dsimp only
  rw [magnitude?_eq]
  cases natural? (c :: cs) <;> rfl

theorem intKind_natCast (n : Nat) : intKind (n : Int) =
    if n < Nat.pow 2 64 then .kept else if n < Nat.pow 2 128 then .refused else .noInteger := by
  have hkept : Nat.pow 2 63 = 9223372036854775808 := by decide
  have hkept' : Nat.pow 2 64 = 18446744073709551616 := by decide
  have hrefused : Nat.pow 2 127 = 170141183460469231731687303715884105728 := by decide
  have hrefused' : Nat.pow 2 128 = 340282366920938463463374607431768211456 := by decide
  rw [intKind, hkept, hkept', hrefused, hrefused']
  split_ifs <;> first | rfl | omega

/-! ## What a bare text stands for -/

/-- The text of what a plain scalar stands for. -/
def textOf? (s : String) : Option String :=
  (resolvePlain s).toOption.bind CommandRecord.scalarText?

/-- The plain scalars that stand for nothing or for a truth value. -/
def keywords : List String :=
  ["null", "Null", "NULL", "~", "true", "True", "TRUE", "false", "False", "FALSE"]

variable {s : String}

theorem resolvePlain_of_notMem (hs : s ≠ "") (h : s ∉ keywords) :
    resolvePlain s = match number? s with
      | .error fault => .error fault
      | .ok (some n) => .ok (.number n)
      | .ok none =>
        if hasLeadingZero s.toList then .ok (.string s)
        else match float? s with
          | some x => .ok (.number (.float x))
          | none => .ok (.string s) := by
  have hnull : isNull s = false := by
    simp only [keywords, List.mem_cons, not_or] at h
    simp [isNull, h]
  have hbool : bool? s = none := by
    simp only [keywords, List.mem_cons, not_or] at h
    simp [bool?, h]
  unfold resolvePlain
  rw [hnull, hbool]
  exact if_neg (by simpa using hs)

theorem number?_of_int? {k : Int} (h : int? s.toList = some k) :
    number? s = match intKind k with
      | .kept => .ok (some (.int k))
      | .refused => .error .numberTooLarge
      | .noInteger => .ok none := by
  cases hkind : intKind k <;> simp only [number?, h, hkind]

theorem number?_eq (hc : c ≠ '+' ∧ c ≠ '-') (hs : s.toList = c :: cs) :
    number? s = match natural? s.toList with
      | some n =>
        if n < Nat.pow 2 64 then .ok (some (.int n))
        else if n < Nat.pow 2 128 then .error .numberTooLarge else .ok none
      | none => .ok none := by
  have hint : int? s.toList = (natural? s.toList).map Nat.cast := by
    rw [hs, int?_eq hc.1 hc.2]
  cases hnatural : natural? s.toList with
  | none =>
    rw [hnatural] at hint
    rw [number?, hint]
    rfl
  | some n =>
    rw [hnatural] at hint
    have hkind := intKind_natCast n
    rw [number?_of_int? hint]
    generalize intKind (n : Int) = kind at hkind
    subst hkind
    dsimp only
    split_ifs <;> rfl

/-- What is no integer is a float or a string. -/
theorem resolvePlain_of_number? (hs : s ≠ "") (hkeyword : s ∉ keywords)
    (hnumber : number? s = .ok none) :
    (∃ v, resolvePlain s = .ok v) ∧
      (textOf? s = some s ↔ (hasLeadingZero s.toList || isLaidOut s) = true) := by
  rw [textOf?, resolvePlain_of_notMem hs hkeyword, hnumber]
  dsimp only
  cases hasLeadingZero s.toList with
  | true => exact ⟨⟨_, rfl⟩, iff_of_true rfl rfl⟩
  | false =>
    rw [if_neg Bool.false_ne_true, Bool.false_or, isLaidOut]
    cases float? s with
    | none => exact ⟨⟨_, rfl⟩, iff_of_true rfl rfl⟩
    | some x =>
      refine ⟨⟨_, rfl⟩, ?_⟩
      change some (Decimal.Layout.compact.write x) = some s ↔ decide _ = true
      rw [Option.some.injEq, decide_eq_true_iff]

theorem ne_of_isBare (h : isBare s = true) :
    ∃ c cs, s.toList = c :: cs ∧ c ≠ '+' ∧ c ≠ '-' := by
  obtain ⟨c, cs, hs, hc⟩ := exists_isAlphanum_of_isBare h
  refine ⟨c, cs, hs, ?_, ?_⟩ <;> rintro rfl <;> cases hc

/-- A bare text is refused where it is a whole number that is too large. -/
theorem exists_resolvePlain_iff (h : isBare s = true) :
    (∃ v, resolvePlain s = .ok v) ↔ isOversized s = false := by
  by_cases hkeyword : s ∈ keywords
  · have hall : ∀ s ∈ keywords, (resolvePlain s).toOption.isSome ∧ isOversized s = false := by
      decide +kernel
    obtain ⟨hsome, hoversized⟩ := hall s hkeyword
    refine iff_of_true ?_ hoversized
    cases hresolve : resolvePlain s with
    | error fault =>
      rw [hresolve] at hsome
      cases hsome
    | ok v => exact ⟨v, rfl⟩
  obtain ⟨c, cs, hs, hc⟩ := ne_of_isBare h
  have hne : s ≠ "" := by
    rintro rfl
    cases hs
  have hnumber := number?_eq hc hs
  rw [isOversized]
  cases hnatural : natural? s.toList with
  | none =>
    rw [hnatural] at hnumber
    exact iff_of_true (resolvePlain_of_number? hne hkeyword hnumber).1 rfl
  | some n =>
    rw [hnatural] at hnumber
    dsimp only at hnumber
    rw [Option.any_some, Bool.and_eq_false_iff, decide_eq_false_iff_not, decide_eq_false_iff_not]
    by_cases hkept : n < Nat.pow 2 64
    · rw [if_pos hkept] at hnumber
      refine iff_of_true ⟨.number (.int n), ?_⟩ (.inl (Nat.not_le.2 hkept))
      rw [resolvePlain_of_notMem hne hkeyword, hnumber]
    rw [if_neg hkept] at hnumber
    by_cases hrefused : n < Nat.pow 2 128
    · rw [if_pos hrefused] at hnumber
      refine iff_of_false ?_ (not_or_intro (not_not_intro (Nat.not_lt.1 hkept))
        (not_not_intro hrefused))
      rintro ⟨v, hv⟩
      rw [resolvePlain_of_notMem hne hkeyword, hnumber] at hv
      cases hv
    · rw [if_neg hrefused] at hnumber
      exact iff_of_true (resolvePlain_of_number? hne hkeyword hnumber).1 (.inr hrefused)

/-- A bare text is the text of what it stands for where nothing else is written back. -/
theorem textOf?_eq_some_iff (h : isBare s = true) : textOf? s = some s ↔ isVerbatim s = true := by
  by_cases hkeyword : s ∈ keywords
  · have hall : ∀ s ∈ keywords, textOf? s = some s ↔ isVerbatim s = true := by decide +kernel
    exact hall s hkeyword
  obtain ⟨c, cs, hs, hc⟩ := ne_of_isBare h
  have hne : s ≠ "" := by
    rintro rfl
    cases hs
  have hother : (!isNull s && !(["True", "TRUE", "False", "FALSE"].contains s)) = true := by
    simp only [keywords, List.mem_cons, not_or] at hkeyword
    simp [isNull, hkeyword]
  have hnumber := number?_eq hc hs
  rw [isVerbatim, hother, Bool.true_and]
  cases hnatural : natural? s.toList with
  | none =>
    rw [hnatural] at hnumber
    exact (resolvePlain_of_number? hne hkeyword hnumber).2
  | some n =>
    rw [hnatural] at hnumber
    dsimp only at hnumber
    by_cases hkept : n < Nat.pow 2 64
    · -- the text of a number is its decimal digits
      rw [if_pos hkept] at hnumber
      have htext : textOf? s = some (toString n) := by
        rw [textOf?, resolvePlain_of_notMem hne hkeyword, hnumber]
        rfl
      have hfits : n < Nat.pow 2 128 := Nat.lt_trans hkept (by decide)
      rw [htext, Option.some.injEq, Option.filter_some, if_pos (decide_eq_true hfits)]
      simp only [hkept, decide_true, Bool.true_and, Option.isNone_iff_eq_none]
      have hchars : String.ofList s.toList = s := String.ofList_toList
      cases hbased : based? s.toList with
      | some m =>
        have hdiffers := ofList_ne_toString hbased n
        rw [hchars] at hdiffers
        exact iff_of_false (Ne.symm hdiffers) (by simp)
      | none =>
        rw [natural?, hbased, Option.none_or] at hnatural
        split at hnatural
        · cases hnatural
        · rename_i hzero
          have hsame := ofList_eq_toString hnatural (by simpa using hzero)
          rw [hchars] at hsame
          exact iff_of_true hsame.symm rfl
    rw [if_neg hkept] at hnumber
    by_cases hrefused : n < Nat.pow 2 128
    · rw [if_pos hrefused] at hnumber
      rw [Option.filter_some, if_pos (by simpa using hrefused)]
      refine iff_of_false ?_ fun hfits ↦
        hkept (of_decide_eq_true (Bool.and_eq_true_iff.1 hfits).1)
      rw [textOf?, resolvePlain_of_notMem hne hkeyword, hnumber]
      rintro ⟨⟩
    · rw [if_neg hrefused] at hnumber
      rw [Option.filter_some, if_neg (by simpa using hrefused)]
      exact (resolvePlain_of_number? hne hkeyword hnumber).2

end FolderCommands.Yaml.Scalar
