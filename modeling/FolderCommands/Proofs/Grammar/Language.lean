import FolderCommands.Proofs.Grammar.Entries
import Mathlib.Computability.Language
import Mathlib.Order.CompletePartialOrder
import Mathlib.Tactic.Abel

/-!
# The language of manifests

The lines of a text that are checked are a word over lines, and a text has no errors if and only if
that word has no tab in it and belongs to a regular language: separators, the header, separators,
and commands with separators between them.

The check is a machine whose states are its expectations. The words that it admits from each state
solve a system of linear equations between languages, one for each kind of state, and Arden's rule
solves the system from the attributes back to the header.
-/

namespace FolderCommands.Grammar

open scoped Computability

/-! ## Lines and words -/

/-- The lines without their line breaks, up to the first that ends the content. -/
def kept (raws : List (List Char)) : List (List Char) :=
  (raws.map lineContent).takeWhile fun line ↦ !endsContent (Text.trim line)

/-- The lines of a text that are checked. -/
def keptLines (source : String) : List (List Char) :=
  kept (Text.rawLines source.toList)

/-- Whether a line is a separator. -/
def IsSeparating (line : List Char) : Prop :=
  opensSeparator (Text.trim line) = true ∧ isSeparator line = true

/-- Whether a line declares a value for a key: in front of a comment there is a word, then a colon
and the value, which may have quotes and blanks at its ends. -/
inductive Declares (line : List Char) : String → String → Prop
  | intro (indent key gap text : List Char)
      (hline : withoutComment line = indent ++ (key ++ (gap ++ ':' :: text)))
      (hindent : ∀ c ∈ indent, isGap c = true) (hkey : ∀ c ∈ key, isKeyChar c = true)
      (hne : key ≠ []) (hgap : ∀ c ∈ gap, isGap c = true) :
      Declares line (String.ofList key) (String.ofList (bareValue text))

namespace Lines

/-- The words of one line with a property. -/
def one (p : List Char → Prop) : Language (List Char) :=
  {word | ∃ line, p line ∧ word = [line]}

def separator : Language (List Char) :=
  one IsSeparating

/-- One separator or more. -/
def separators : Language (List Char) :=
  separator * separator∗

/-- The line that names the command set. -/
def header (set : CommandSet) : Language (List Char) :=
  one fun line ↦ ∃ value, Declares line "command_set" value ∧ CommandSet.find? value = some set

/-- The line that names a command. -/
def opening (set : CommandSet) (spec : CommandSpec) : Language (List Char) :=
  one fun line ↦ ∃ value, Declares line "command" value ∧ set.command? value = some spec

def attr (spec : CommandSpec) : Language (List Char) :=
  one fun line ↦ ∃ key value, Declares line key value ∧ spec.allows key = true

/-- A command of the set with any number of its attributes. -/
def command (set : CommandSet) : Language (List Char) :=
  ⨆ spec, opening set spec * (attr spec)∗

/-- The manifests of a command set. -/
def manifest (set : CommandSet) : Language (List Char) :=
  separator∗ * header set *
    (1 + separators * (command set * separators)∗ * (1 + command set))

variable {p : List Char → Prop} {l : Language (List Char)} {line : List Char}
  {word : List (List Char)}

theorem nil_notMem_one_mul : [] ∉ one p * l := by
  rintro ⟨_, ⟨line, -, rfl⟩, rest, -, h⟩
  cases h

theorem nil_notMem_one : [] ∉ one p := by
  rintro ⟨line, -, h⟩
  cases h

theorem nil_notMem_separator : [] ∉ separator :=
  nil_notMem_one

theorem nil_notMem_attr {spec : CommandSpec} : [] ∉ attr spec :=
  nil_notMem_one

theorem opening_eq_zero {set : CommandSet} {spec : CommandSpec} (h : spec ∉ set.commands) :
    opening set spec = 0 := by
  ext word
  simp only [Language.notMem_zero, iff_false]
  rintro ⟨line, ⟨value, -, hspec⟩, -⟩
  exact h (List.mem_of_find?_eq_some hspec)

theorem cons_mem_one_mul : line :: word ∈ one p * l ↔ p line ∧ word ∈ l := by
  constructor
  · rintro ⟨_, ⟨first, hfirst, rfl⟩, rest, hrest, h⟩
    obtain ⟨rfl, rfl⟩ := List.cons.inj h
    exact ⟨hfirst, hrest⟩
  · rintro ⟨hline, hword⟩
    exact ⟨[line], ⟨line, hline, rfl⟩, word, hword, rfl⟩

end Lines

/-! ## Declarations -/

section

variable {line : List Char} {key value : String}

/-- The check reads a line by its form. -/
theorem declares_iff : Declares line key value ↔ declaration? line = some ⟨key, value⟩ := by
  have hcomment : '#' ∉ withoutComment line := fun hmem ↦ by simpa using mem_takeWhile '#' hmem
  constructor
  · rintro ⟨indent, key, gap, text, hline, hindent, hkey, hne, hgap⟩
    have htext : '#' ∉ text := fun hmem ↦ hcomment (by rw [hline]; simp [hmem])
    have hread : declaration? (indent ++ (key ++ (gap ++ ':' :: (text ++ [])))) =
        some ⟨String.ofList key, String.ofList (bareValue text)⟩ :=
      declaration?_append htext hindent hkey hne hgap rfl
    rw [List.append_nil, ← hline] at hread
    rw [← hread, declaration?, declaration?, withoutComment_eq_self hcomment]
  · intro h
    rw [declaration?] at h
    generalize hcs : withoutComment line = cs at h
    split at h
    · rename_i text htext
      split at h
      · cases h
      · rename_i hne
        cases h
        refine .intro (cs.takeWhile isGap) _ (((cs.dropWhile isGap).dropWhile isKeyChar).takeWhile
          isGap) text ?_ mem_takeWhile mem_takeWhile (by simpa using hne) mem_takeWhile
        rw [hcs, ← htext, List.takeWhile_append_dropWhile, List.takeWhile_append_dropWhile,
          List.takeWhile_append_dropWhile]
    · cases h

theorem isBlank_of_isGap {c : Char} (h : isGap c = true) : Text.isBlank c = true := by
  have hc : c = ' ' ∨ c = '\t' := by simpa [isGap] using h
  rcases hc with rfl | rfl <;> decide

theorem head?_trim {indent rest : List Char} {c : Char} (hindent : ∀ c ∈ indent, isGap c = true)
    (hc : Text.isBlank c = false) : (Text.trim (indent ++ c :: rest)).head? = some c := by
  have hdrop : (indent ++ c :: rest).dropWhile Text.isBlank = c :: rest := by
    apply dropWhile_append_stop fun d hd ↦ isBlank_of_isGap (hindent d hd)
    rintro d ⟨⟩
    exact hc
  rw [Text.trim, Text.head?_trimWhile, hdrop, List.head?_cons]

theorem Declares.head? (h : Declares line key value) :
    (Text.trim line).head? = key.toList.head? := by
  obtain ⟨indent, key, gap, text, hline, hindent, hkey, hne, hgap⟩ := h
  obtain ⟨c, cs, rfl⟩ := List.exists_cons_of_ne_nil hne
  have hsplit : line = indent ++ c :: (cs ++ (gap ++ ':' :: text) ++ line.dropWhile (· ≠ '#')) := by
    have happend : withoutComment line ++ line.dropWhile (· ≠ '#') = line :=
      List.takeWhile_append_dropWhile
    rw [hline] at happend
    simpa using happend.symm
  rw [hsplit, head?_trim hindent (isBlank_of_isWord (hkey c List.mem_cons_self)),
    String.toList_ofList, List.head?_cons]

theorem Declares.opensSeparator_eq_false (h : Declares line key value)
    (hkey : key.toList.head? ≠ some '-') : opensSeparator (Text.trim line) = false := by
  rw [← h.head?] at hkey
  rw [Bool.eq_false_iff]
  intro hopens
  obtain ⟨rest, hrest⟩ := List.isPrefixOf_iff_prefix.1 hopens
  exact hkey (by rw [← hrest]; rfl)

end

/-! ## What a line leads to -/

section

variable {line : List Char} {next : Expectation} {set : CommandSet} {spec : CommandSpec}

/-- A line is judged as a separator, or else by what it declares. -/
theorem judge_eq_accept_iff {expect : Expectation} :
    judge expect line = .accept next ↔ IsSeparating line ∧ next = expect.afterSeparator ∨
      opensSeparator (Text.trim line) = false ∧
        ∃ key value, Declares line key value ∧
          judgeDeclaration expect ⟨key, value⟩ = .accept next := by
  simp only [judge, IsSeparating, declares_iff]
  cases hopens : opensSeparator (Text.trim line) with
  | true =>
    simp only [if_true, true_and, Bool.true_eq_false, false_and, or_false]
    cases isSeparator line <;> simp [eq_comm]
  | false =>
    simp only [Bool.false_eq_true, if_false, false_and, true_and, false_or]
    cases declaration? line with
    | none => simp
    | some d =>
      constructor
      · exact fun h ↦ ⟨d.key, d.value, rfl, h⟩
      · rintro ⟨key, value, ⟨⟩, h⟩
        exact h

/-- The command set stays. -/
theorem commandSet?_of_judge {expect : Expectation} (h : judge expect line = .accept next)
    (hset : expect.commandSet? = some set) : next.commandSet? = some set := by
  rcases judge_eq_accept_iff.1 h with ⟨-, rfl⟩ | ⟨-, key, value, -, hjudge⟩
  · rw [Expectation.afterSeparator, hset]
    rfl
  · cases expect with
    | header => cases hset
    | separator => cases hjudge
    | command =>
      cases hset
      obtain ⟨-, spec, -, rfl⟩ := judgeDeclaration_command.1 hjudge
      rfl
    | attributes =>
      cases hset
      obtain ⟨-, rfl⟩ := judgeDeclaration_attributes.1 hjudge
      rfl

theorem judge_header : judge .header line = .accept next ↔
    IsSeparating line ∧ next = .header ∨
      ∃ set, (∃ value, Declares line "command_set" value ∧ CommandSet.find? value = some set) ∧
        next = .separator set := by
  rw [judge_eq_accept_iff]
  apply or_congr Iff.rfl
  constructor
  · rintro ⟨-, key, value, hd, hjudge⟩
    obtain ⟨rfl, set, hset, hnext⟩ := judgeDeclaration_header.1 hjudge
    exact ⟨set, ⟨value, hd, hset⟩, hnext⟩
  · rintro ⟨set, ⟨value, hd, hset⟩, hnext⟩
    exact ⟨hd.opensSeparator_eq_false (by decide), _, _, hd,
      judgeDeclaration_header.2 ⟨rfl, set, hset, hnext⟩⟩

theorem judge_separator : judge (.separator set) line = .accept next ↔
    IsSeparating line ∧ next = .command set := by
  rw [judge_eq_accept_iff]
  apply or_iff_left
  rintro ⟨-, key, value, -, hjudge⟩
  cases hjudge

theorem judge_command : judge (.command set) line = .accept next ↔
    IsSeparating line ∧ next = .command set ∨
      ∃ spec, (∃ value, Declares line "command" value ∧ set.command? value = some spec) ∧
        next = .attributes set spec := by
  rw [judge_eq_accept_iff]
  apply or_congr Iff.rfl
  constructor
  · rintro ⟨-, key, value, hd, hjudge⟩
    obtain ⟨rfl, spec, hspec, hnext⟩ := judgeDeclaration_command.1 hjudge
    exact ⟨spec, ⟨value, hd, hspec⟩, hnext⟩
  · rintro ⟨spec, ⟨value, hd, hspec⟩, hnext⟩
    exact ⟨hd.opensSeparator_eq_false (by decide), _, _, hd,
      judgeDeclaration_command.2 ⟨rfl, spec, hspec, hnext⟩⟩

/-- The attributes of the catalog are no separators. -/
theorem head?_ne_of_allows {attr : String} (hspec : spec ∈ set.commands)
    (hattr : spec.allows attr = true) : attr.toList.head? ≠ some '-' := by
  have hall : set.commands.all (fun spec ↦ spec.attributes.all (·.toList.head? ≠ some '-')) := by
    cases set <;> decide
  have hname := List.all_eq_true.1 (List.all_eq_true.1 hall spec hspec) attr
    (List.contains_iff_mem.1 hattr)
  exact of_decide_eq_true hname

theorem judge_attributes (hspec : spec ∈ set.commands) :
    judge (.attributes set spec) line = .accept next ↔
      IsSeparating line ∧ next = .command set ∨
        (∃ key value, Declares line key value ∧ spec.allows key = true) ∧
          next = .attributes set spec := by
  rw [judge_eq_accept_iff]
  apply or_congr Iff.rfl
  constructor
  · rintro ⟨-, key, value, hd, hjudge⟩
    obtain ⟨hallows, hnext⟩ := judgeDeclaration_attributes.1 hjudge
    exact ⟨⟨key, value, hd, hallows⟩, hnext⟩
  · rintro ⟨⟨key, value, hd, hallows⟩, hnext⟩
    exact ⟨hd.opensSeparator_eq_false (head?_ne_of_allows hspec hallows), _, _, hd,
      judgeDeclaration_attributes.2 ⟨hallows, hnext⟩⟩

end

/-! ## Words that are admitted -/

/-- What is expected behind some lines, if all of them are accepted. -/
def leadsTo? : Expectation → List (List Char) → Option Expectation
  | expect, [] => some expect
  | expect, line :: word =>
    match judge expect line with
    | .accept next => leadsTo? next word
    | .reject _ => none

/-- The words that lead from an expectation to one where the set has been declared. -/
def admitted (set : CommandSet) (expect : Expectation) : Language (List Char) :=
  {word | ∃ last, leadsTo? expect word = some last ∧ last.commandSet? = some set}

section

variable {set : CommandSet} {spec : CommandSpec} {expect : Expectation} {line : List Char}
  {word : List (List Char)}

theorem nil_mem_admitted : [] ∈ admitted set expect ↔ expect.commandSet? = some set := by
  constructor
  · rintro ⟨last, ⟨⟩, h⟩
    exact h
  · exact fun h ↦ ⟨expect, rfl, h⟩

theorem cons_mem_admitted : line :: word ∈ admitted set expect ↔
    ∃ next, judge expect line = .accept next ∧ word ∈ admitted set next := by
  constructor
  · rintro ⟨last, hlast, h⟩
    rw [leadsTo?] at hlast
    split at hlast
    · exact ⟨_, ‹_›, last, hlast, h⟩
    · cases hlast
  · rintro ⟨next, hjudge, last, hlast, h⟩
    refine ⟨last, ?_, h⟩
    rw [leadsTo?, hjudge]
    exact hlast

/-- Once a set has been declared, no word declares another. -/
theorem eq_of_mem_admitted {other : CommandSet} (h : word ∈ admitted set expect)
    (hother : expect.commandSet? = some other) : other = set := by
  induction word generalizing expect with
  | nil => exact Option.some.inj (hother.symm.trans (nil_mem_admitted.1 h))
  | cons line word ih =>
    obtain ⟨next, hjudge, hword⟩ := cons_mem_admitted.1 h
    exact ih hword (commandSet?_of_judge hjudge hother)

end

/-! ## Equations -/

section

open Lines

variable {set : CommandSet} {spec : CommandSpec} {line : List Char} {word : List (List Char)}

theorem admitted_separator :
    admitted set (.separator set) = 1 + separator * admitted set (.command set) := by
  ext word
  rw [Language.mem_add, Language.mem_one]
  cases word with
  | nil => simp [nil_mem_admitted, Expectation.commandSet?]
  | cons line word =>
    simp only [cons_mem_admitted, judge_separator, separator, cons_mem_one_mul, reduceCtorEq,
      false_or]
    constructor
    · rintro ⟨next, ⟨hline, rfl⟩, hword⟩
      exact ⟨hline, hword⟩
    · rintro ⟨hline, hword⟩
      exact ⟨_, ⟨hline, rfl⟩, hword⟩

theorem admitted_attributes (hspec : spec ∈ set.commands) :
    admitted set (.attributes set spec) = attr spec * admitted set (.attributes set spec) +
      (1 + separator * admitted set (.command set)) := by
  ext word
  rw [Language.mem_add, Language.mem_add, Language.mem_one]
  cases word with
  | nil => simp [nil_mem_admitted, Expectation.commandSet?]
  | cons line word =>
    simp only [cons_mem_admitted, judge_attributes hspec, attr, separator, cons_mem_one_mul,
      reduceCtorEq, false_or]
    constructor
    · rintro ⟨next, ⟨hline, rfl⟩ | ⟨hattr, rfl⟩, hword⟩
      · exact .inr ⟨hline, hword⟩
      · exact .inl ⟨hattr, hword⟩
    · rintro (⟨hattr, hword⟩ | ⟨hline, hword⟩)
      · exact ⟨_, .inr ⟨hattr, rfl⟩, hword⟩
      · exact ⟨_, .inl ⟨hline, rfl⟩, hword⟩

theorem admitted_command :
    admitted set (.command set) = separator * admitted set (.command set) +
      (1 + ⨆ spec, opening set spec * admitted set (.attributes set spec)) := by
  ext word
  rw [Language.mem_add, Language.mem_add, Language.mem_one, Language.mem_iSup]
  cases word with
  | nil => simp [nil_mem_admitted, Expectation.commandSet?]
  | cons line word =>
    simp only [cons_mem_admitted, judge_command, opening, separator, cons_mem_one_mul,
      reduceCtorEq, false_or]
    constructor
    · rintro ⟨next, ⟨hline, rfl⟩ | ⟨spec, hspec, rfl⟩, hword⟩
      · exact .inl ⟨hline, hword⟩
      · exact .inr ⟨spec, hspec, hword⟩
    · rintro (⟨hline, hword⟩ | ⟨spec, hspec, hword⟩)
      · exact ⟨_, .inl ⟨hline, rfl⟩, hword⟩
      · exact ⟨_, .inr ⟨spec, hspec, rfl⟩, hword⟩

theorem admitted_header :
    admitted set .header = separator * admitted set .header +
      header set * admitted set (.separator set) := by
  ext word
  rw [Language.mem_add]
  cases word with
  | nil =>
    have hnone : [] ∉ admitted set .header := by simp [nil_mem_admitted, Expectation.commandSet?]
    simp [hnone, separator, header, nil_notMem_one_mul]
  | cons line word =>
    simp only [cons_mem_admitted, judge_header, header, separator, cons_mem_one_mul]
    constructor
    · rintro ⟨next, ⟨hline, rfl⟩ | ⟨other, hother, rfl⟩, hword⟩
      · exact .inl ⟨hline, hword⟩
      · obtain rfl := eq_of_mem_admitted hword rfl
        exact .inr ⟨hother, hword⟩
    · rintro (⟨hline, hword⟩ | ⟨hset, hword⟩)
      · exact ⟨_, .inl ⟨hline, rfl⟩, hword⟩
      · exact ⟨_, .inr ⟨set, hset, rfl⟩, hword⟩

/-- A command is behind its attributes as the separator behind the header is. -/
theorem iSup_opening_mul_admitted :
    ⨆ spec, opening set spec * admitted set (.attributes set spec) =
      command set * (1 + separator * admitted set (.command set)) := by
  rw [command, Language.iSup_mul]
  apply iSup_congr
  intro spec
  by_cases hspec : spec ∈ set.commands
  · have hattr : admitted set (.attributes set spec) =
        (attr spec)∗ * (1 + separator * admitted set (.command set)) :=
      (Language.self_eq_mul_add_iff nil_notMem_attr).1 (admitted_attributes hspec)
    rw [hattr, mul_assoc]
  · rw [opening_eq_zero hspec, zero_mul, zero_mul, zero_mul]

/-- What comes behind the header, if anything does. -/
theorem separator_mul_admitted :
    separator * admitted set (.command set) =
      separators * (command set * separators)∗ * (1 + command set) := by
  -- Both sides solve one equation, which by Arden's rule has one solution.
  let rest := separator * admitted set (.command set)
  let solution := separators * (command set * separators)∗ * (1 + command set)
  have hcommand : admitted set (.command set) = separator∗ * (1 + command set * (1 + rest)) := by
    apply (Language.self_eq_mul_add_iff nil_notMem_separator).1
    rw [← iSup_opening_mul_admitted]
    exact admitted_command
  have hrest : rest = separators * command set * rest + separators * (1 + command set) := by
    calc rest = separator * (separator∗ * (1 + command set * (1 + rest))) :=
          congrArg (separator * ·) hcommand
      _ = separators * command set * rest + separators * (1 + command set) := by
          simp only [separators, mul_add, mul_one, mul_assoc]
          abel
  have hsolution :
      solution = separators * command set * solution + separators * (1 + command set) := by
    calc solution = separators * (1 + command set * separators * (command set * separators)∗) *
            (1 + command set) := by rw [Language.one_add_self_mul_kstar_eq_kstar]
      _ = separators * command set * solution + separators * (1 + command set) := by
          simp only [solution, mul_add, add_mul, mul_one, mul_assoc]
          abel
  have hnil : [] ∉ separators * command set := by
    rw [separators, mul_assoc]
    exact nil_notMem_one_mul
  rw [Language.self_eq_mul_add_iff hnil] at hrest hsolution
  exact hrest.trans hsolution.symm

/-- The words of manifests, and no others, lead from the start to a declared command set. -/
theorem admitted_header_eq : admitted set .header = manifest set := by
  have hheader : admitted set .header =
      separator∗ * (header set * admitted set (.separator set)) :=
    (Language.self_eq_mul_add_iff nil_notMem_separator).1 admitted_header
  rw [hheader, admitted_separator, separator_mul_admitted, manifest, mul_assoc (separator∗)]

end

/-! ## Checks -/

theorem kept_cons_of_ends {raw : List Char} (h : endsContent (Text.trim (lineContent raw)) = true)
    (rest : List (List Char)) : kept (raw :: rest) = [] := by
  simp [kept, h]

theorem kept_cons {raw : List Char} (h : endsContent (Text.trim (lineContent raw)) = false)
    (rest : List (List Char)) : kept (raw :: rest) = lineContent raw :: kept rest := by
  simp [kept, h]

theorem tabDiagnostics_eq_false_iff {number : Nat} {line : List Char} :
    (tabDiagnostics number line).any (·.isError) = false ↔ '\t' ∉ line := by
  refine ⟨not_mem_of_tabDiagnostics, fun h ↦ ?_⟩
  rw [tabDiagnostics, tabColumn?, if_neg (by simpa using h)]
  rfl

/-- A scan ends without errors if and only if there is no tab and every line is accepted. -/
theorem scanLines_iff_leadsTo {expect last : Expectation} (number : Nat)
    {raws : List (List Char)} :
    (scanLines expect number raws).diagnostics.any (·.isError) = false ∧
        (scanLines expect number raws).expect = last ↔
      (∀ line ∈ kept raws, '\t' ∉ line) ∧ leadsTo? expect (kept raws) = some last := by
  induction raws generalizing expect number with
  | nil => simp [scanLines, kept, leadsTo?]
  | cons raw rest ih =>
    rw [scanLines]
    cases hends : endsContent (Text.trim (lineContent raw)) with
    | true => simp [hends, kept_cons_of_ends, any_trailingDiagnostics, leadsTo?]
    | false =>
      simp only [Bool.false_eq_true, if_false, kept_cons hends, leadsTo?, List.forall_mem_cons]
      cases hjudge : judge expect (lineContent raw) with
      | reject problem =>
        have herror := isError_of_ne (judge_ne_ignoredLines hjudge) number none
        simp [herror]
      | accept next =>
        simp only [List.any_append, Bool.or_eq_false_iff, tabDiagnostics_eq_false_iff, ih,
          and_assoc]

theorem headerDiagnostics_eq_nil {scan : Scan} {set : CommandSet}
    (h : scan.expect.commandSet? = some set) : headerDiagnostics scan = [] := by
  rw [headerDiagnostics, if_neg]
  rintro ⟨hheader, -⟩
  rw [hheader] at h
  cases h

/-- A text without errors declares a command set. -/
theorem exists_commandSet {source : String} (h : (validate source).hasErrors = false) :
    ∃ set, (validate source).commandSet = some set := by
  obtain ⟨-, set, -, -, hset, -⟩ := validate_accepts h
  exact ⟨set, hset⟩

theorem validate_iff_mem_admitted {source : String} {set : CommandSet} :
    (validate source).hasErrors = false ∧ (validate source).commandSet = some set ↔
      (∀ line ∈ keptLines source, '\t' ∉ line) ∧ keptLines source ∈ admitted set .header := by
  rw [Validation.hasErrors, validate]
  constructor
  · rintro ⟨herrors, hset⟩
    rw [List.any_append, Bool.or_eq_false_iff] at herrors
    obtain ⟨htabs, hlast⟩ := (scanLines_iff_leadsTo 1).1 ⟨herrors.1, rfl⟩
    exact ⟨htabs, _, hlast, hset⟩
  · rintro ⟨htabs, last, hlast, hset⟩
    obtain ⟨herrors, rfl⟩ := (scanLines_iff_leadsTo 1).2 ⟨htabs, hlast⟩
    dsimp only
    rw [headerDiagnostics_eq_nil hset, List.append_nil]
    exact ⟨herrors, hset⟩

/-- A text has no errors if and only if its lines hold no tab and form the manifest of a command
set; and that set is the one that is found. -/
theorem validate_iff_mem_manifest (source : String) :
    ((validate source).hasErrors = false ↔
      (∀ line ∈ keptLines source, '\t' ∉ line) ∧
        ∃ set, keptLines source ∈ Lines.manifest set) ∧
    ∀ set, (validate source).hasErrors = false ∧ (validate source).commandSet = some set ↔
      (∀ line ∈ keptLines source, '\t' ∉ line) ∧ keptLines source ∈ Lines.manifest set := by
  have hset (set : CommandSet) :
      (validate source).hasErrors = false ∧ (validate source).commandSet = some set ↔
        (∀ line ∈ keptLines source, '\t' ∉ line) ∧ keptLines source ∈ Lines.manifest set := by
    rw [validate_iff_mem_admitted, admitted_header_eq]
  refine ⟨⟨fun herrors ↦ ?_, ?_⟩, hset⟩
  · obtain ⟨set, hfound⟩ := exists_commandSet herrors
    obtain ⟨htabs, hmanifest⟩ := (hset set).1 ⟨herrors, hfound⟩
    exact ⟨htabs, set, hmanifest⟩
  · rintro ⟨htabs, set, hmanifest⟩
    exact ((hset set).2 ⟨htabs, hmanifest⟩).1

end FolderCommands.Grammar
