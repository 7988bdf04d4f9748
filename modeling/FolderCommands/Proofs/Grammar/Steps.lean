import FolderCommands.Grammar.Validation

/-!
# The lines that a check accepts

A check without errors has accepted one line after the other up to the end of the content. The
lines form a chain: separators, then the header, then separators, commands and attributes. Once
the header has been passed, the command set stays, and each line that declares a command stands
right behind a separator.
-/

namespace FolderCommands.Grammar

/-- A line that was accepted, with what was expected there and what is expected next. -/
structure Step where
  before : Expectation
  raw : List Char
  after : Expectation

namespace Step

/-- The line without its line break. -/
def line (s : Step) : List Char :=
  lineContent s.raw

/-- Whether the line is a separator. -/
def isMark (s : Step) : Bool :=
  opensSeparator (Text.trim s.line)

/-- Whether the line is the one that declares a command. -/
def opensCommand (s : Step) : Bool :=
  match s.before, s.after with
  | .command _, .attributes .. => true
  | _, _ => false

/-- Whether the check accepts the line. -/
structure IsAccepted (s : Step) : Prop where
  counts : endsContent (Text.trim s.line) = false
  verdict : judge s.before s.line = .accept s.after
  noTabs : '\t' ∉ s.line

end Step

/-- The lines that are accepted before the content ends or a line is rejected. -/
def steps (expect : Expectation) : List (List Char) → List Step
  | [] => []
  | raw :: rest =>
    if endsContent (Text.trim (lineContent raw)) then []
    else match judge expect (lineContent raw) with
      | .reject _ => []
      | .accept next => ⟨expect, raw, next⟩ :: steps next rest

/-- The lines of a text that are accepted. -/
def accepted (source : String) : List Step :=
  steps .header (Text.rawLines source.toList)

/-- How many lines of a text declare a command. -/
def commandCount (source : String) : Nat :=
  (accepted source).countP (·.opensCommand)

/-- Accepted lines that lead from one expectation to another. -/
inductive Chain : Expectation → List Step → Expectation → Prop
  | nil (e : Expectation) : Chain e [] e
  | cons {s : Step} {rest : List Step} {e : Expectation} (h : s.IsAccepted)
      (hrest : Chain s.after rest e) : Chain s.before (s :: rest) e

/-! ## Checks without errors -/

theorem isPrefix_steps (expect : Expectation) (lines : List (List Char)) :
    (steps expect lines).map (·.raw) <+: lines := by
  induction lines generalizing expect with
  | nil => exact List.prefix_refl _
  | cons raw rest ih =>
    rw [steps]
    split
    · exact List.nil_prefix
    · split
      · exact List.nil_prefix
      · exact List.cons_prefix_cons.2 ⟨rfl, ih _⟩

theorem isError_of_ne {problem : Problem} (h : ∀ count, problem ≠ .ignoredLines count)
    (line : Nat) (column : Option Nat) : (⟨problem, line, column⟩ : Diagnostic).isError = true := by
  cases problem <;> first | rfl | exact absurd rfl (h _)

theorem rule_of_judgeDeclaration {expect : Expectation} {d : Declaration} {problem : Problem}
    (h : judgeDeclaration expect d = .reject problem) :
    problem.rule ≠ .noTabs ∧ problem.rule ≠ .trailingContent := by
  cases expect with
  | header | command set =>
    rw [judgeDeclaration] at h
    split at h
    · cases h
      exact ⟨nofun, nofun⟩
    · split at h <;> cases h
      exact ⟨nofun, nofun⟩
  | separator set =>
    cases h
    exact ⟨nofun, nofun⟩
  | attributes set spec =>
    rw [judgeDeclaration] at h
    split at h <;> cases h
    exact ⟨nofun, nofun⟩

/-- A line is rejected neither for its tabs nor for what follows the end of the content. -/
theorem rule_of_judge {expect : Expectation} {line : List Char} {problem : Problem}
    (h : judge expect line = .reject problem) :
    problem.rule ≠ .noTabs ∧ problem.rule ≠ .trailingContent := by
  simp only [judge] at h
  split at h
  · split at h <;> cases h
    exact ⟨nofun, nofun⟩
  · split at h
    · cases h
      exact ⟨nofun, nofun⟩
    · exact rule_of_judgeDeclaration h

theorem judge_ne_ignoredLines {expect : Expectation} {line : List Char} {problem : Problem}
    (h : judge expect line = .reject problem) (count : Nat) : problem ≠ .ignoredLines count := by
  rintro rfl
  exact (rule_of_judge h).2 rfl

/-- What follows the end marker is warned about at most. -/
theorem any_trailingDiagnostics (number : Nat) (rest : List Char) :
    (trailingDiagnostics number rest).any (·.isError) = false := by
  rw [trailingDiagnostics]
  split <;> rfl

theorem not_mem_of_tabDiagnostics {number : Nat} {line : List Char}
    (h : (tabDiagnostics number line).any (·.isError) = false) : '\t' ∉ line := by
  intro htab
  rw [tabDiagnostics, tabColumn?, if_pos (by simpa using htab)] at h
  cases h

/-- What a check without errors has kept and where it has ended. -/
structure Scan.Accepts (scan : Scan) (expect : Expectation) (accepted : List Step) : Prop where
  meaningful : scan.meaningful = accepted.flatMap (·.raw)
  chain : Chain expect accepted scan.expect

theorem scanLines_accepts {expect : Expectation} {number : Nat} {lines : List (List Char)}
    (h : (scanLines expect number lines).diagnostics.any (·.isError) = false) :
    (scanLines expect number lines).Accepts expect (steps expect lines) := by
  induction lines generalizing expect number with
  | nil => exact ⟨rfl, .nil _⟩
  | cons raw rest ih =>
    simp only [scanLines] at h ⊢
    rw [steps]
    split at h
    · rename_i hend
      rw [if_pos hend, if_pos hend]
      exact ⟨rfl, .nil _⟩
    · rename_i hend
      rw [if_neg hend, if_neg hend]
      generalize hjudge : judge expect (lineContent raw) = verdict at h ⊢
      cases verdict with
      | reject problem =>
        have herror := isError_of_ne (judge_ne_ignoredLines hjudge) number none
        rw [List.any_append, List.any_cons, herror] at h
        simp at h
      | accept next =>
        rw [List.any_append, Bool.or_eq_false_iff] at h
        obtain ⟨hmeaningful, hchain⟩ := ih h.2
        have haccepted : (⟨expect, raw, next⟩ : Step).IsAccepted :=
          ⟨Bool.eq_false_iff.2 hend, hjudge, not_mem_of_tabDiagnostics h.1⟩
        exact ⟨congrArg (raw ++ ·) hmeaningful, .cons haccepted hchain⟩

theorem isError_of_rule {d : Diagnostic} (h : d.rule = .commandSet) : d.isError = true := by
  obtain ⟨problem, line, column⟩ := d
  cases problem <;> first | rfl | cases h

/-- A text without errors has accepted lines that declare a command set. -/
theorem validate_accepts {source : String} (h : (validate source).hasErrors = false) :
    (validate source).meaningful = String.ofList ((accepted source).flatMap (·.raw)) ∧
      ∃ set e, e.commandSet? = some set ∧ (validate source).commandSet = some set ∧
        Chain .header (accepted source) e := by
  rw [accepted]
  rw [Validation.hasErrors] at h
  simp only [validate] at h ⊢
  generalize hscan : scanLines .header 1 (Text.rawLines source.toList) = scan at h ⊢
  rw [List.any_append, Bool.or_eq_false_iff] at h
  obtain ⟨hmeaningful, hchain⟩ := hscan ▸ scanLines_accepts (hscan.symm ▸ h.1)
  refine ⟨by rw [hmeaningful], ?_⟩
  have hne : scan.expect ≠ .header := by
    intro hheader
    have hrule : scan.diagnostics.all (fun d ↦ d.rule ≠ .commandSet) = true := by
      rw [List.all_eq_true]
      intro d hd
      rw [decide_eq_true_eq]
      intro hd'
      have hnone := List.any_eq_false.1 h.1 d hd
      exact hnone (isError_of_rule hd')
    rw [headerDiagnostics, if_pos ⟨hheader, hrule⟩] at h
    cases h.2
  cases hexpect : scan.expect with
  | header => exact absurd hexpect hne
  | separator set | command set | attributes set spec =>
    exact ⟨set, _, rfl, rfl, hexpect ▸ hchain⟩

/-! ## What a line leads to -/

section

variable {d : Declaration} {next : Expectation} {set : CommandSet} {spec : CommandSpec}

theorem judgeDeclaration_header :
    judgeDeclaration .header d = .accept next ↔
      d.key = "command_set" ∧ ∃ set, CommandSet.find? d.value = some set ∧
        next = .separator set := by
  rw [judgeDeclaration]
  split
  · simp_all
  · cases CommandSet.find? d.value <;> simp_all [eq_comm]

theorem judgeDeclaration_command :
    judgeDeclaration (.command set) d = .accept next ↔
      d.key = "command" ∧ ∃ spec, set.command? d.value = some spec ∧
        next = .attributes set spec := by
  rw [judgeDeclaration]
  split
  · simp_all
  · cases set.command? d.value <;> simp_all [eq_comm]

theorem judgeDeclaration_attributes :
    judgeDeclaration (.attributes set spec) d = .accept next ↔
      spec.allows d.key = true ∧ next = .attributes set spec := by
  rw [judgeDeclaration]
  cases spec.allows d.key <;> simp [eq_comm]

end

namespace Step

variable {s : Step}

namespace IsAccepted

/-- A separator asks for a command, once the header has been passed. -/
theorem after_mark (h : s.IsAccepted) (hmark : s.isMark = true) :
    isSeparator s.line = true ∧ s.after = s.before.afterSeparator := by
  have hverdict := h.verdict
  rw [isMark] at hmark
  simp only [judge] at hverdict
  rw [if_pos hmark] at hverdict
  split at hverdict
  · rename_i hsep
    exact ⟨hsep, (Verdict.accept.inj hverdict).symm⟩
  · cases hverdict

theorem exists_declaration (h : s.IsAccepted) (hmark : s.isMark = false) :
    ∃ d, declaration? s.line = some d ∧ judgeDeclaration s.before d = .accept s.after := by
  have hverdict := h.verdict
  rw [isMark] at hmark
  simp only [judge] at hverdict
  rw [if_neg (by rw [hmark]; simp)] at hverdict
  split at hverdict
  · cases hverdict
  · rename_i d hd
    exact ⟨d, hd, hverdict⟩

/-- The header. -/
theorem of_header (h : s.IsAccepted) (hmark : s.isMark = false) (hbefore : s.before = .header) :
    ∃ value set, declaration? s.line = some ⟨"command_set", value⟩ ∧
      CommandSet.find? value = some set ∧ s.after = .separator set := by
  obtain ⟨⟨key, value⟩, hd, hjudge⟩ := h.exists_declaration hmark
  rw [hbefore] at hjudge
  obtain ⟨rfl, set, hset, hafter⟩ := judgeDeclaration_header.1 hjudge
  exact ⟨value, set, hd, hset, hafter⟩

/-- A line that declares a command. -/
theorem of_command (h : s.IsAccepted) (hmark : s.isMark = false) {set : CommandSet}
    (hbefore : s.before = .command set) :
    ∃ value spec, declaration? s.line = some ⟨"command", value⟩ ∧
      set.command? value = some spec ∧ s.after = .attributes set spec := by
  obtain ⟨⟨key, value⟩, hd, hjudge⟩ := h.exists_declaration hmark
  rw [hbefore] at hjudge
  obtain ⟨rfl, spec, hspec, hafter⟩ := judgeDeclaration_command.1 hjudge
  exact ⟨value, spec, hd, hspec, hafter⟩

/-- Right after the header there is a separator. -/
theorem isMark_of_separator (h : s.IsAccepted) {set : CommandSet}
    (hbefore : s.before = .separator set) : s.isMark = true := by
  cases hmark : s.isMark with
  | true => rfl
  | false =>
    obtain ⟨d, -, hjudge⟩ := h.exists_declaration hmark
    rw [hbefore] at hjudge
    cases hjudge

theorem of_attributes (h : s.IsAccepted) (hmark : s.isMark = false) {set : CommandSet}
    {spec : CommandSpec} (hbefore : s.before = .attributes set spec) :
    s.after = .attributes set spec := by
  obtain ⟨d, -, hjudge⟩ := h.exists_declaration hmark
  rw [hbefore] at hjudge
  exact (judgeDeclaration_attributes.1 hjudge).2

/-- The command set stays. -/
theorem commandSet_after (h : s.IsAccepted) {set : CommandSet}
    (hset : s.before.commandSet? = some set) : s.after.commandSet? = some set := by
  cases hmark : s.isMark with
  | true =>
    rw [(h.after_mark hmark).2, Expectation.afterSeparator, hset]
    rfl
  | false =>
    cases hbefore : s.before with
    | header =>
      rw [hbefore] at hset
      cases hset
    | separator set' =>
      rw [h.isMark_of_separator hbefore] at hmark
      cases hmark
    | command set' =>
      rw [hbefore] at hset
      cases hset
      obtain ⟨value, spec, -, -, hafter⟩ := h.of_command hmark hbefore
      rw [hafter]
      rfl
    | attributes set' spec =>
      rw [hbefore] at hset
      cases hset
      rw [h.of_attributes hmark hbefore]
      rfl

end IsAccepted

end Step

/-! ## Chains -/

namespace Chain

variable {e e' : Expectation} {l : List Step} {set : CommandSet}

theorem isAccepted (h : Chain e l e') {s : Step} (hs : s ∈ l) : s.IsAccepted := by
  induction h with
  | nil => cases hs
  | cons h _ ih =>
    rcases List.mem_cons.1 hs with rfl | hs
    · exact h
    · exact ih hs

theorem before_eq {s : Step} {rest : List Step} (h : Chain e (s :: rest) e') : s.before = e := by
  cases h
  rfl

theorem before_of_head? {s : Step} (h : Chain e l e') (hs : s ∈ l.head?) : s.before = e := by
  cases l with
  | nil => cases hs
  | cons s' rest =>
    cases hs
    exact h.before_eq

theorem commandSet_last (h : Chain e l e') (he : e.commandSet? = some set) :
    e'.commandSet? = some set := by
  induction h with
  | nil => exact he
  | cons h _ ih => exact ih (h.commandSet_after he)

end Chain

/-- The parts of accepted lines that declare a command set. -/
structure Headed (l : List Step) (set : CommandSet) where
  leading : List Step
  header : Step
  rest : List Step
  eq_append : l = leading ++ header :: rest
  leading_isMark : ∀ s ∈ leading, s.isMark = true ∧ s.before = .header
  isMark : header.isMark = false
  before : header.before = .header
  after : header.after = .separator set

/-- Lines that declare a command set start with the header, separators apart. -/
theorem Chain.headed {l : List Step} {e : Expectation} {set : CommandSet}
    (h : Chain .header l e) (he : e.commandSet? = some set) :
    ∃ parts : Headed l set, Chain (.separator set) parts.rest e := by
  generalize hfirst : Expectation.header = first at h
  induction h with
  | nil =>
    rw [← hfirst] at he
    cases he
  | @cons s rest e h hrest ih =>
    cases hmark : s.isMark with
    | true =>
      have hafter : s.after = .header := by
        rw [(h.after_mark hmark).2, ← hfirst]
        rfl
      obtain ⟨parts, hparts⟩ := ih he hafter.symm
      refine ⟨⟨s :: parts.leading, parts.header, parts.rest, ?_, ?_, parts.isMark, parts.before,
        parts.after⟩, hparts⟩
      · rw [List.cons_append, ← parts.eq_append]
      · exact List.forall_mem_cons.2 ⟨⟨hmark, hfirst.symm⟩, parts.leading_isMark⟩
    | false =>
      obtain ⟨value, set', -, -, hafter⟩ := h.of_header hmark hfirst.symm
      obtain rfl : set' = set := by
        have hlast := hrest.commandSet_last (by rw [hafter]; rfl)
        rw [he] at hlast
        exact (Option.some.inj hlast).symm
      rw [hafter] at hrest
      have hleading : ∀ s ∈ ([] : List Step), s.isMark = true ∧ s.before = .header := by simp
      exact ⟨⟨[], s, rest, rfl, hleading, hmark, hfirst.symm, hafter⟩, hrest⟩

/-! ## Sections -/

/-- What comes after each separator. -/
def sections : List Step → List (List Step)
  | [] => []
  | s :: rest => if s.isMark then rest :: sections rest else sections rest

/-- Whether some lines start with a declaration. -/
def startsDeclared (l : List Step) : Bool :=
  l.head?.any (!·.isMark)

theorem isSuffix_of_mem_sections {l sec : List Step} (h : sec ∈ sections l) : sec <:+ l := by
  induction l with
  | nil => cases h
  | cons s rest ih =>
    rw [sections] at h
    split at h
    · rcases List.mem_cons.1 h with rfl | h
      · exact List.suffix_cons s sec
      · exact (ih h).trans (List.suffix_cons s rest)
    · exact (ih h).trans (List.suffix_cons s rest)

/-- Behind a separator there is a command. -/
theorem Chain.of_mem_sections {e e' : Expectation} {l sec : List Step} {set : CommandSet}
    (h : Chain e l e') (he : e.commandSet? = some set) (hsec : sec ∈ sections l) :
    Chain (.command set) sec e' := by
  induction h with
  | nil => cases hsec
  | @cons s rest e' h hrest ih =>
    have hset := h.commandSet_after he
    cases hmark : s.isMark with
    | false =>
      rw [sections, if_neg (by simp [hmark])] at hsec
      exact ih hset hsec
    | true =>
      rw [sections, if_pos hmark] at hsec
      rcases List.mem_cons.1 hsec with rfl | hsec
      · have hafter : s.after = .command set := by
          rw [(h.after_mark hmark).2, Expectation.afterSeparator, he]
        rwa [hafter] at hrest
      · exact ih hset hsec

/-- A line declares a command just where a declaration comes first behind a separator. -/
theorem Chain.countP_opensCommand {e e' : Expectation} {l : List Step} {set : CommandSet}
    (h : Chain e l e') (he : e.commandSet? = some set) :
    l.countP (·.opensCommand) = (sections l).countP startsDeclared +
      if e = .command set ∧ startsDeclared l = true then 1 else 0 := by
  induction h with
  | nil => simp [sections, startsDeclared]
  | @cons s rest e' h hrest ih =>
    have hih := ih (h.commandSet_after he)
    cases hmark : s.isMark with
    | true =>
      have hafter : s.after = .command set := by
        rw [(h.after_mark hmark).2, Expectation.afterSeparator, he]
      have hopens : s.opensCommand = false := by
        rw [Step.opensCommand, hafter]
        cases s.before <;> rfl
      have hstarts : startsDeclared (s :: rest) = false := by simp [startsDeclared, hmark]
      rw [sections, if_pos hmark, List.countP_cons_of_neg (by simp [hopens]), hih, hafter,
        List.countP_cons, hstarts]
      simp
    | false =>
      rw [sections, if_neg (by simp [hmark])]
      cases hbefore : s.before with
      | header =>
        rw [hbefore] at he
        cases he
      | separator set' =>
        rw [h.isMark_of_separator hbefore] at hmark
        cases hmark
      | command set' =>
        rw [hbefore] at he
        cases he
        obtain ⟨value, spec, -, -, hafter⟩ := h.of_command hmark hbefore
        have hopens : s.opensCommand = true := by rw [Step.opensCommand, hbefore, hafter]
        rw [List.countP_cons_of_pos hopens, hih, hafter]
        simp [startsDeclared, hmark]
      | attributes set' spec =>
        have hopens : s.opensCommand = false := by rw [Step.opensCommand, hbefore]
        rw [List.countP_cons_of_neg (by simp [hopens]), hih, h.of_attributes hmark hbefore]
        simp

end FolderCommands.Grammar
