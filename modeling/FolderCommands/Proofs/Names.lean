import FolderCommands.Catalog
import FolderCommands.Proofs.Yaml.Words
import FolderCommands.Text.Trimming
import FolderCommands.Yaml.Scalar
import Mathlib.Data.List.Basic
import Mathlib.Data.List.TakeWhile

/-!
# Names that are written as words

A word of ASCII letters, digits, hyphens and underscores is looked up by its lower case. A word
that names a command or a command set is neither null nor a truth value nor a number to YAML, so
as a plain scalar it is the string that it looks like.
-/

namespace FolderCommands

open Yaml

variable {w : List Char}

/-! ## Letters and digits -/

theorem isAlpha_iff {c : Char} : c.isAlpha = true ↔
    (65 ≤ c.toNat ∧ c.toNat ≤ 90) ∨ (97 ≤ c.toNat ∧ c.toNat ≤ 122) := by
  change (decide (c.val ≥ 'A'.val ∧ c.val ≤ 'Z'.val) ||
    (decide (c.val ≥ 'a'.val) && decide (c.val ≤ 'z'.val))) = true ↔ _
  rw [Bool.or_eq_true, Bool.and_eq_true, decide_eq_true_eq, decide_eq_true_eq, decide_eq_true_eq]
  rfl

theorem isDigit_iff {c : Char} : c.isDigit = true ↔ 48 ≤ c.toNat ∧ c.toNat ≤ 57 := by
  rw [Char.isDigit, Bool.and_eq_true, decide_eq_true_eq, decide_eq_true_eq]
  rfl

theorem isDigit_of_isAlpha {c : Char} (h : c.isAlpha = true) : c.isDigit = false := by
  rw [isAlpha_iff] at h
  rw [Bool.eq_false_iff, Ne, isDigit_iff]
  omega

theorem isAlpha_of_toLower {c : Char} (h : c.toLower.isAlpha = true) : c.isAlpha = true := by
  by_cases hupper : c.val ≥ 'A'.val ∧ c.val ≤ 'Z'.val
  · exact isAlpha_iff.2 (.inl hupper)
  · have hc : c.toLower = c := dif_neg hupper
    rwa [hc] at h

theorem toNat_of_isWord {c : Char} (h : isWord c = true) : 45 ≤ c.toNat ∧ c.toNat ≤ 122 := by
  simp only [isWord, Char.isAlphanum, Bool.or_eq_true, decide_eq_true_eq, isAlpha_iff,
    isDigit_iff] at h
  rcases h with ((h | h) | rfl) | rfl
  · omega
  · omega
  · decide
  · decide

/-! ## Folding -/

theorem isBlank_of_isWord {c : Char} (h : isWord c = true) : Text.isBlank c = false := by
  obtain ⟨hlow, hhigh⟩ := toNat_of_isWord h
  simp only [Text.isBlank, Bool.or_eq_false_iff, Bool.and_eq_false_iff, decide_eq_false_iff_not,
    beq_eq_false_iff_ne]
  omega

namespace Text

/-- What is between characters to be trimmed and has none itself. -/
theorem trimWhile_append {p : Char → Bool} (before cs after : List Char)
    (hbefore : ∀ c ∈ before, p c = true) (hcs : ∀ c ∈ cs, p c = false)
    (hafter : ∀ c ∈ after, p c = true) : trimWhile p (before ++ (cs ++ after)) = cs := by
  rw [trimWhile_around hbefore hafter, trimWhile,
    dropWhile_eq_self_of_head fun c hc ↦ hcs c (List.mem_of_mem_head? hc)]
  exact dropEndWhile_eq_self_of_getLast fun c hc ↦ hcs c (List.mem_of_getLast? hc)

theorem trim_word (h : ∀ c ∈ w, isWord c = true) : trim w = w := by
  have htrim := trimWhile_append (p := isBlank) [] w [] (by simp)
    (fun c hc ↦ isBlank_of_isWord (h c hc)) (by simp)
  rwa [List.append_nil, List.nil_append] at htrim

theorem lowerFrom_word (h : ∀ c ∈ w, isWord c = true) (before : List Char) :
    lowerFrom before w = w.map Char.toLower := by
  induction w generalizing before with
  | nil => rfl
  | cons c w ih =>
    obtain ⟨hc, hrest⟩ := List.forall_mem_cons.1 h
    have hsigma : c ≠ 'Σ' := ne_of_isWord hc (by decide)
    have hascii : c.toNat < 0x80 := Nat.lt_of_le_of_lt (toNat_of_isWord hc).2 (by decide)
    rw [lowerFrom, if_neg hsigma, lowerChar, if_pos hascii, ih hrest]
    rfl

end Text

/-- A word is looked up by its lower case. -/
theorem foldedName_word (h : ∀ c ∈ w, isWord c = true) :
    foldedName (String.ofList w) = String.ofList (w.map Char.toLower) := by
  rw [foldedName, Text.lowered, Text.trimmed, String.toList_ofList, String.toList_ofList,
    Text.trim_word h, Text.lowerFrom_word h]

/-! ## What plain scalars stand for -/

/-- Whether a value is neither a collection nor one with a tag. -/
def Yaml.Value.isScalar : Value → Bool
  | null | bool _ | number _ | string _ => true
  | _ => false

namespace Yaml.Scalar

theorem isScalar_of_resolvePlain {s : String} {value : Value} (h : resolvePlain s = .ok value) :
    value.isScalar = true := by
  rw [resolvePlain] at h
  repeat' split at h
  all_goals cases h <;> rfl

theorem isScalar_of_resolve {tag : Option Uri} {s : String} {isPlain : Bool} {value : Value}
    (h : resolve tag s isPlain = .ok value) : value.isScalar = true := by
  cases tag with
  | none =>
    rw [resolve] at h
    split at h
    · exact isScalar_of_resolvePlain h
    · cases h
      rfl
  | some tag =>
    rw [resolve, resolveTagged] at h
    repeat' split at h
    all_goals first | exact isScalar_of_resolvePlain h | (cases h <;> rfl)

theorem isNull_of_resolvePlain {s : String} {value : Value} (hs : s ≠ "") (hnull : isNull s = false)
    (h : resolvePlain s = .ok value) : value.isNull = false := by
  rw [resolvePlain, hnull, if_neg (by simpa using hs)] at h
  split at h
  · cases h
    rfl
  split at h
  · cases h
  · cases h
    rfl
  · split at h
    · cases h
      rfl
    split at h <;> cases h <;> rfl

theorem isDigit_of_hexValue? {c : Char} {d : Nat} (h : hexValue? c = some d) (hd : d < 10) :
    c.isDigit = true := by
  rw [hexValue?] at h
  split at h
  · assumption
  split at h
  · rename_i hlow
    cases h
    rw [Bool.and_eq_true, decide_eq_true_eq, Char.le_def, UInt32.le_iff_toNat_le] at hlow
    have hle : 97 ≤ c.toNat := hlow.1
    omega
  split at h
  · rename_i hlow
    cases h
    rw [Bool.and_eq_true, decide_eq_true_eq, Char.le_def, UInt32.le_iff_toNat_le] at hlow
    have hle : 65 ≤ c.toNat := hlow.1
    omega
  · cases h

theorem digits?_eq_none {c : Char} (hc : c.isDigit = false) (cs : List Char) :
    digits? 10 (c :: cs) = none := by
  rw [digits?, if_neg (by simp), List.foldl_cons]
  cases hd : hexValue? c with
  | none => exact List.foldl_fixed' (fun _ ↦ rfl) cs
  | some d =>
    dsimp only
    rw [if_neg fun hlt ↦ ?_]
    · exact List.foldl_fixed' (fun _ ↦ rfl) cs
    · rw [isDigit_of_hexValue? hd hlt] at hc
      cases hc

theorem sign_of_ne {c : Char} {cs : List Char} (hplus : c ≠ '+') (hminus : c ≠ '-') :
    sign (c :: cs) = (none, c :: cs) := by
  rw [sign]
  · rintro _ ⟨⟩
    exact hplus rfl
  · rintro _ ⟨⟩
    exact hminus rfl

/-- Whether a text may start with that character and be a number. -/
def opensNumber (c : Char) : Bool :=
  c.isDigit || c = '+' || c = '-' || c = '.'

theorem ne_of_isAlpha {c d : Char} (hc : c.isAlpha = true) (hd : d.isAlpha = false) : c ≠ d := by
  rintro rfl
  rw [hc] at hd
  cases hd

theorem opensNumber_of_isAlpha {c : Char} (hc : c.isAlpha = true) : opensNumber c = false := by
  simp [opensNumber, isDigit_of_isAlpha hc, ne_of_isAlpha hc (d := '+') (by decide),
    ne_of_isAlpha hc (d := '-') (by decide), ne_of_isAlpha hc (d := '.') (by decide)]

section

variable {c : Char} {cs : List Char} (hc : opensNumber c = false)

include hc

theorem ne_of_opensNumber {d : Char} (hd : opensNumber d = true) : c ≠ d := by
  rintro rfl
  rw [hc] at hd
  cases hd

theorem isDigit_of_opensNumber : c.isDigit = false := by
  simp only [opensNumber, Bool.or_eq_false_iff] at hc
  exact hc.1.1.1

theorem sign_of_opensNumber : sign (c :: cs) = (none, c :: cs) :=
  sign_of_ne (ne_of_opensNumber hc (by decide)) (ne_of_opensNumber hc (by decide))

theorem hasLeadingZero_of_opensNumber : hasLeadingZero (c :: cs) = false := by
  rw [hasLeadingZero, sign_of_opensNumber hc]
  dsimp only
  split
  · rename_i heq
    cases heq
    exact absurd rfl (ne_of_opensNumber hc (by decide))
  · rfl

theorem int?_of_opensNumber : int? (c :: cs) = none := by
  have hmagnitude : magnitude? false (c :: cs) = none := by
    rw [magnitude?, if_neg Bool.false_ne_true, digits?_eq_none (isDigit_of_opensNumber hc)]
    all_goals
      rintro _ ⟨⟩
      exact ne_of_opensNumber hc (by decide) rfl
  rw [int?, sign_of_opensNumber hc, hasLeadingZero_of_opensNumber hc]
  dsimp only
  rw [hmagnitude]
  rfl

theorem float?_of_opensNumber : float? (String.ofList (c :: cs)) = none := by
  have hspecial {ts : List String} (hts : ∀ t ∈ ts, t.toList.head?.any opensNumber = true) :
      ¬ ts.contains (String.ofList (c :: cs)) = true := by
    intro hmem
    have hfirst := hts _ (List.contains_iff_mem.1 hmem)
    rw [String.toList_ofList, List.head?_cons, Option.any_some, hc] at hfirst
    cases hfirst
  have hdecimal : decimal? false (c :: cs) = none := by
    have hpoint : c ≠ '.' := ne_of_opensNumber hc (by decide)
    simp [decimal?, isDigit_of_opensNumber hc, hpoint, digits?]
  rw [float?, String.toList_ofList, sign_of_opensNumber hc, if_neg, if_neg (hspecial (by decide)),
    if_neg (hspecial (by decide))]
  · dsimp only
    rw [hdecimal]
  · split
    · rename_i heq
      cases heq
      exact absurd rfl (ne_of_opensNumber hc (by decide))
    · exact hspecial (by decide)

/-- A text that starts like no number is none. -/
theorem resolvePlain_of_opensNumber (hnull : isNull (String.ofList (c :: cs)) = false)
    (hbool : bool? (String.ofList (c :: cs)) = none) :
    resolvePlain (String.ofList (c :: cs)) = .ok (.string (String.ofList (c :: cs))) := by
  rw [resolvePlain, hnull, hbool, if_neg (by simp), number?, String.toList_ofList,
    int?_of_opensNumber hc, hasLeadingZero_of_opensNumber hc, float?_of_opensNumber hc]
  rfl

end

/-- A text that starts with a letter is no number. -/
theorem resolvePlain_of_isAlpha {c : Char} {cs : List Char} (hc : c.isAlpha = true)
    (hnull : isNull (String.ofList (c :: cs)) = false)
    (hbool : bool? (String.ofList (c :: cs)) = none) :
    resolvePlain (String.ofList (c :: cs)) = .ok (.string (String.ofList (c :: cs))) :=
  resolvePlain_of_opensNumber (opensNumber_of_isAlpha hc) hnull hbool

end Yaml.Scalar

/-! ## Names of the catalog -/

/-- The names of all command sets and commands. -/
def catalogNames : List String :=
  CommandSet.every.map (·.name) ++ CommandSet.every.flatMap (·.commandNames)

theorem mem_catalogNames_of_find? {name : String} {set : CommandSet}
    (h : CommandSet.find? name = some set) : foldedName name ∈ catalogNames := by
  rw [CommandSet.find?] at h
  have hname : set.name = foldedName name := by simpa using List.find?_some h
  rw [← hname]
  exact List.mem_append_left _ (List.mem_map_of_mem set.mem_every)

theorem mem_catalogNames_of_command? {name : String} {set : CommandSet} {spec : CommandSpec}
    (h : set.command? name = some spec) : foldedName name ∈ catalogNames := by
  rw [CommandSet.command?] at h
  have hname : spec.name = foldedName name := by simpa using List.find?_some h
  rw [← hname]
  exact List.mem_append_right _ (List.mem_flatMap.2
    ⟨set, set.mem_every, List.mem_map_of_mem (List.mem_of_find?_eq_some h)⟩)

/-- A name of the catalog is the form in which it is looked up. -/
theorem foldedName_of_mem {name : String} (h : name ∈ catalogNames) : foldedName name = name := by
  have hall : ∀ name ∈ catalogNames, foldedName name = name := by decide +kernel
  exact hall name h

theorem command?_foldedName {name : String} {set : CommandSet} {spec : CommandSpec}
    (h : set.command? name = some spec) : set.command? (foldedName name) = some spec := by
  rw [CommandSet.command?, foldedName_of_mem (mem_catalogNames_of_command? h)]
  exact h

section

variable (hword : ∀ c ∈ w, isWord c = true) (h : foldedName (String.ofList w) ∈ catalogNames)

include hword h

theorem exists_isAlpha_of_mem : ∃ c cs, w = c :: cs ∧ c.isAlpha = true := by
  have hall : ∀ name ∈ catalogNames, name.toList.head?.any (·.isAlpha) = true := by decide +kernel
  have hfirst := hall _ h
  rw [foldedName_word hword, String.toList_ofList] at hfirst
  cases w with
  | nil => cases hfirst
  | cons c cs => exact ⟨c, cs, rfl, isAlpha_of_toLower hfirst⟩

/-- As a plain scalar, a word that names something is a string. -/
theorem resolvePlain_of_mem : Scalar.resolvePlain (String.ofList w) =
    .ok (.string (String.ofList w)) := by
  obtain ⟨c, cs, rfl, hc⟩ := exists_isAlpha_of_mem hword h
  have hspecial {ts : List String} (hts : ∀ t ∈ ts, foldedName t ∉ catalogNames) :
      ts.contains (String.ofList (c :: cs)) = false :=
    Bool.eq_false_iff.2 fun hmem ↦ hts _ (List.contains_iff_mem.1 hmem) h
  have hbool : Scalar.bool? (String.ofList (c :: cs)) = none := by
    rw [Scalar.bool?, hspecial (by decide +kernel), hspecial (by decide +kernel)]
    rfl
  exact Scalar.resolvePlain_of_isAlpha hc (hspecial (by decide +kernel)) hbool

end

end FolderCommands
