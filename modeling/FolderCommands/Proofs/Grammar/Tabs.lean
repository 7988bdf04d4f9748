import FolderCommands.Proofs.Grammar.Language

/-!
# Tabs

A tab is reported, and otherwise it is taken for a space. A text and the same text with a space for
each tab have the same command set, the same problems at the same lines and the same length of what
is meaningful, tabs apart. The tabs that are reported are the first ones of the lines that the check
goes over.
-/

namespace FolderCommands

/-- A space for a tab, and every other character as it is. -/
def spaced (c : Char) : Char :=
  if c = '\t' then ' ' else c

/-- The text with a space for each tab. -/
def untabbed (s : String) : String :=
  String.ofList (s.toList.map spaced)

/-! ## Characters -/

theorem spaced_of_ne {c : Char} (h : c ≠ '\t') : spaced c = c :=
  if_neg h

theorem spaced_ne_tab (c : Char) : spaced c ≠ '\t' := by
  rw [spaced]
  split
  · decide
  · assumption

/-- What holds alike of tabs and spaces does not see the difference. -/
theorem apply_spaced {α : Type} {f : Char → α} (h : f ' ' = f '\t') (c : Char) :
    f (spaced c) = f c := by
  rw [spaced]
  split
  · rename_i hc
    rw [hc, h]
  · rfl

theorem spaced_eq_iff {c d : Char} (hspace : d ≠ ' ') (htab : d ≠ '\t') : spaced c = d ↔ c = d := by
  rw [spaced]
  split
  · rename_i hc
    rw [hc]
    exact iff_of_false (Ne.symm hspace) (Ne.symm htab)
  · exact Iff.rfl

theorem map_spaced_of_notMem {cs : List Char} (h : '\t' ∉ cs) : cs.map spaced = cs := by
  conv_rhs => rw [← List.map_id cs]
  exact List.map_congr_left fun c hc ↦ spaced_of_ne fun heq ↦ h (heq ▸ hc)

/-- A text without tabs and spaces is met at the same places. -/
theorem map_spaced_eq_iff {cs word : List Char} (hspace : ' ' ∉ word) (htab : '\t' ∉ word) :
    cs.map spaced = word ↔ cs = word := by
  constructor
  · rintro rfl
    exact (map_spaced_of_notMem fun h ↦ hspace (List.mem_map.2 ⟨'\t', h, rfl⟩)).symm
  · rintro rfl
    exact map_spaced_of_notMem htab

namespace Text

/-! ## Cutting and trimming -/

section

variable {p : Char → Bool} (h : p ' ' = p '\t') (cs : List Char)

include h

theorem takeWhile_spaced : (cs.map spaced).takeWhile p = (cs.takeWhile p).map spaced := by
  rw [List.takeWhile_map, show p ∘ spaced = p from funext (apply_spaced h)]

theorem dropWhile_spaced : (cs.map spaced).dropWhile p = (cs.dropWhile p).map spaced := by
  rw [List.dropWhile_map, show p ∘ spaced = p from funext (apply_spaced h)]

theorem dropEndWhile_spaced : dropEndWhile p (cs.map spaced) = (dropEndWhile p cs).map spaced := by
  rw [dropEndWhile, ← List.map_reverse, dropWhile_spaced h, ← List.map_reverse, dropEndWhile]

theorem trimWhile_spaced : trimWhile p (cs.map spaced) = (trimWhile p cs).map spaced := by
  rw [trimWhile, dropWhile_spaced h, dropEndWhile_spaced h, trimWhile]

end

theorem trim_spaced (cs : List Char) : trim (cs.map spaced) = (trim cs).map spaced :=
  trimWhile_spaced (by decide) cs

theorem rawLines_spaced (cs : List Char) :
    rawLines (cs.map spaced) = (rawLines cs).map (List.map spaced) := by
  induction cs with
  | nil => rfl
  | cons c cs ih =>
    rw [List.map_cons, rawLines, rawLines, ih]
    simp only [spaced_eq_iff (d := '\n') (by decide) (by decide)]
    split
    · rfl
    · cases rawLines cs <;> rfl

theorem byteLength_spaced (cs : List Char) : byteLength (cs.map spaced) = byteLength cs := by
  induction cs with
  | nil => rfl
  | cons c cs ih =>
    change (spaced c).utf8Size + byteLength (cs.map spaced) = c.utf8Size + byteLength cs
    rw [ih, apply_spaced (f := Char.utf8Size) (by decide)]

/-- The line break at the end of a line is trimmed anyway. -/
theorem trim_bareLine (line : List Char) : trim (bareLine line) = trim line := by
  have hend (ends : List Char) {rest : List Char} (hline : line.reverse = ends ++ rest)
      (hblank : ∀ c ∈ ends, isBlank c = true) : trim rest.reverse = trim line := by
    have hback : ∀ c ∈ ends.reverse, isBlank c = true := fun c hc ↦ hblank c (List.mem_reverse.1 hc)
    rw [← List.reverse_reverse line, hline, List.reverse_append]
    exact (trimWhile_append_end hback _).symm
  rw [bareLine]
  split
  · rename_i rest hline
    exact hend ['\n', '\r'] hline (List.all_eq_true.1 (by decide))
  · rename_i rest hline
    exact hend ['\n'] hline (List.all_eq_true.1 (by decide))
  · rfl

theorem mem_lowerFrom {c : Char} {cs : List Char} (h : c ∈ cs) (hlower : lowerChar c = [c])
    (hsigma : c ≠ 'Σ') (before : List Char) : c ∈ lowerFrom before cs := by
  induction cs generalizing before with
  | nil => cases h
  | cons d cs ih =>
    rw [lowerFrom, List.mem_append]
    rcases List.mem_cons.1 h with rfl | h
    · rw [if_neg hsigma, hlower]
      exact .inl List.mem_cons_self
    · exact .inr (ih h _)

end Text

/-! ## Names -/

theorem isBlank_of_mem_catalogNames {name : String} (h : name ∈ catalogNames) :
    ∀ c ∈ name.toList, Text.isBlank c = false := by
  have hall : catalogNames.all (fun name ↦ name.toList.all fun c ↦ !Text.isBlank c) = true := by
    decide +kernel
  intro c hc
  rw [← Bool.not_eq_true']
  exact List.all_eq_true.1 (List.all_eq_true.1 hall name h) c hc

/-- Neither a text with a tab inside nor one with a space there is a name of the catalog. -/
theorem eq_foldedName_untabbed_iff {name : String} (h : name ∈ catalogNames) (value : String) :
    name = foldedName (untabbed value) ↔ name = foldedName value := by
  have hother {cs : List Char} {c : Char} (hc : c ∈ cs) (hblank : Text.isBlank c = true)
      (hlower : Text.lowerChar c = [c]) (hsigma : c ≠ 'Σ') :
      name ≠ String.ofList (Text.lowerFrom [] cs) := by
    rintro rfl
    have hmem := Text.mem_lowerFrom hc hlower hsigma []
    rw [isBlank_of_mem_catalogNames h c (by rwa [String.toList_ofList])] at hblank
    cases hblank
  rw [foldedName, foldedName, Text.lowered, Text.lowered, Text.trimmed, Text.trimmed, untabbed,
    String.toList_ofList, String.toList_ofList, String.toList_ofList, Text.trim_spaced]
  by_cases htab : '\t' ∈ Text.trim value.toList
  · have hspace : ' ' ∈ (Text.trim value.toList).map spaced := List.mem_map.2 ⟨_, htab, rfl⟩
    exact iff_of_false (hother hspace (by decide) (by decide) (by decide))
      (hother htab (by decide) (by decide) (by decide))
  · rw [map_spaced_of_notMem htab]

theorem find?_untabbed (value : String) :
    CommandSet.find? (untabbed value) = CommandSet.find? value := by
  rw [CommandSet.find?, CommandSet.find?, ← List.head?_filter, ← List.head?_filter]
  refine congrArg List.head? (List.filter_congr fun set hset ↦ ?_)
  have hname : set.name ∈ catalogNames := List.mem_append_left _ (List.mem_map_of_mem hset)
  rw [Bool.eq_iff_iff, beq_iff_eq, beq_iff_eq, eq_foldedName_untabbed_iff hname]

theorem command?_untabbed (set : CommandSet) (value : String) :
    set.command? (untabbed value) = set.command? value := by
  rw [CommandSet.command?, CommandSet.command?, ← List.head?_filter, ← List.head?_filter]
  refine congrArg List.head? (List.filter_congr fun spec hspec ↦ ?_)
  have hname : spec.name ∈ catalogNames := List.mem_append_right _
    (List.mem_flatMap.2 ⟨set, set.mem_every, List.mem_map_of_mem hspec⟩)
  rw [Bool.eq_iff_iff, beq_iff_eq, beq_iff_eq, eq_foldedName_untabbed_iff hname]

namespace Grammar

/-! ## Lines -/

theorem lineContent_spaced (raw : List Char) :
    lineContent (raw.map spaced) = (lineContent raw).map spaced :=
  Text.dropEndWhile_spaced (by decide) raw

theorem head?_spaced_eq_iff (cs : List Char) :
    (cs.map spaced).head? = some '#' ↔ cs.head? = some '#' := by
  cases cs with
  | nil => rfl
  | cons c cs =>
    rw [List.map_cons, List.head?_cons, List.head?_cons, Option.some_inj, Option.some_inj,
      spaced_eq_iff (by decide) (by decide)]

theorem endsContent_spaced (cs : List Char) : endsContent (cs.map spaced) = endsContent cs := by
  rw [endsContent, endsContent, List.length_map, Bool.eq_iff_iff, Bool.or_eq_true, Bool.or_eq_true,
    beq_iff_eq, beq_iff_eq, head?_spaced_eq_iff]

theorem opensSeparator_spaced (cs : List Char) :
    opensSeparator (cs.map spaced) = opensSeparator cs := by
  have htake (cs : List Char) : opensSeparator cs = true ↔ cs.take 3 = ['-', '-', '-'] := by
    rw [opensSeparator, List.isPrefixOf_iff_prefix, List.prefix_iff_eq_take]
    exact eq_comm
  rw [Bool.eq_iff_iff, htake, htake, ← List.map_take, map_spaced_eq_iff (by decide) (by decide)]

theorem withoutComment_spaced (line : List Char) :
    withoutComment (line.map spaced) = (withoutComment line).map spaced :=
  Text.takeWhile_spaced (by decide) line

theorem isSeparator_spaced (line : List Char) :
    isSeparator (line.map spaced) = isSeparator line := by
  rw [isSeparator, isSeparator, withoutComment_spaced, Text.trim_spaced, Bool.eq_iff_iff,
    beq_iff_eq, beq_iff_eq, map_spaced_eq_iff (by decide) (by decide)]

theorem bareValue_spaced (value : List Char) :
    bareValue (value.map spaced) = (bareValue value).map spaced := by
  rw [bareValue, Text.trim_spaced, Text.trimWhile_spaced (by decide), Text.trim_spaced, bareValue]

/-- The declaration is the same but for what stands for a tab in its value. -/
theorem declaration?_spaced (line : List Char) : declaration? (line.map spaced) =
    (declaration? line).map fun d ↦ ⟨d.key, untabbed d.value⟩ := by
  rw [declaration?, declaration?, withoutComment_spaced, Text.dropWhile_spaced (by decide),
    Text.takeWhile_spaced (by decide), Text.dropWhile_spaced (by decide),
    Text.dropWhile_spaced (by decide)]
  generalize (withoutComment line).dropWhile isGap = start
  have hkey : (start.takeWhile isKeyChar).map spaced = start.takeWhile isKeyChar :=
    map_spaced_of_notMem fun htab ↦ absurd (mem_takeWhile _ htab) (by decide)
  rw [hkey]
  cases (start.dropWhile isKeyChar).dropWhile isGap with
  | nil => rfl
  | cons c value =>
    by_cases hc : c = ':'
    · subst hc
      rw [List.map_cons, show spaced ':' = ':' from rfl]
      simp only [bareValue_spaced]
      split
      · rfl
      · rw [Option.map_some, untabbed, String.toList_ofList]
    · have hspaced : spaced c ≠ ':' := fun h ↦ hc ((spaced_eq_iff (by decide) (by decide)).1 h)
      rw [List.map_cons]
      split
      · rename_i heq
        exact absurd (List.cons.inj heq).1 hspaced
      · split
        · rename_i heq
          exact absurd (List.cons.inj heq).1 hc
        · rfl

/-! ## Verdicts -/

/-- Whether two verdicts are the same but for the words of a problem. -/
inductive Verdict.IsLike : Verdict → Verdict → Prop
  | accept (next : Expectation) : IsLike (.accept next) (.accept next)
  | reject {problem problem' : Problem} (hrule : problem.rule = problem'.rule)
      (hseverity : problem.severity = problem'.severity) :
      IsLike (.reject problem) (.reject problem')

theorem judgeDeclaration_untabbed (expect : Expectation) (key value : String) :
    (judgeDeclaration expect ⟨key, untabbed value⟩).IsLike
      (judgeDeclaration expect ⟨key, value⟩) := by
  cases expect with
  | header =>
    simp only [judgeDeclaration, find?_untabbed]
    split
    · exact .reject rfl rfl
    · split
      · exact .accept _
      · exact .reject rfl rfl
  | separator set => exact .reject rfl rfl
  | command set =>
    simp only [judgeDeclaration, command?_untabbed]
    split
    · exact .reject rfl rfl
    · split
      · exact .accept _
      · exact .reject rfl rfl
  | attributes set spec =>
    rw [judgeDeclaration, judgeDeclaration]
    split
    · exact .accept _
    · exact .reject rfl rfl

theorem judge_spaced (expect : Expectation) (line : List Char) :
    (judge expect (line.map spaced)).IsLike (judge expect line) := by
  simp only [judge, Text.trim_spaced, opensSeparator_spaced, isSeparator_spaced,
    declaration?_spaced]
  split
  · split
    · exact .accept _
    · exact .reject rfl rfl
  · cases declaration? line with
    | none => exact .reject rfl rfl
    | some d => exact judgeDeclaration_untabbed expect d.key d.value

/-! ## Scans -/

/-- What is found in a text, tabs apart. -/
def findings (diagnostics : List Diagnostic) : List (Rule × Severity × Nat) :=
  (diagnostics.filter (·.rule ≠ .noTabs)).map fun d ↦ (d.rule, d.severity, d.line)

theorem findings_append (diagnostics diagnostics' : List Diagnostic) :
    findings (diagnostics ++ diagnostics') = findings diagnostics ++ findings diagnostics' := by
  rw [findings, List.filter_append, List.map_append]
  rfl

theorem findings_singleton {problem problem' : Problem} (hrule : problem.rule = problem'.rule)
    (hseverity : problem.severity = problem'.severity) (number : Nat) :
    findings [⟨problem, number, none⟩] = findings [⟨problem', number, none⟩] := by
  by_cases htab : problem'.rule = .noTabs
  · simp [findings, Diagnostic.rule, hrule, htab]
  · simp [findings, Diagnostic.rule, Diagnostic.severity, hrule, hseverity, htab]

theorem findings_tabDiagnostics (number : Nat) (line : List Char) :
    findings (tabDiagnostics number line) = [] := by
  rw [tabDiagnostics]
  split <;> rfl

/-- A line that would have counted still would. -/
theorem countIgnored_spaced (rest : List Char) :
    countIgnored (rest.map spaced) = countIgnored rest := by
  have hcounts (cs : List Char) : (!(cs.map spaced).isEmpty && (cs.map spaced).head? ≠ some '#') =
      (!cs.isEmpty && cs.head? ≠ some '#') := by
    rw [List.isEmpty_map, Bool.eq_iff_iff, Bool.and_eq_true, Bool.and_eq_true, decide_eq_true_eq,
      decide_eq_true_eq, Ne, head?_spaced_eq_iff]
  simp only [countIgnored, Text.lines, Text.rawLines_spaced, ← List.countP_eq_length_filter,
    List.countP_map, Function.comp_def, Text.trim_bareLine, Text.trim_spaced, hcounts]

/-- Whether a scan has found what another one has found, with spaces for tabs. -/
structure Scan.IsSpacedFrom (scan scan' : Scan) : Prop where
  findings : findings scan.diagnostics = findings scan'.diagnostics
  expect : scan.expect = scan'.expect
  meaningful : scan.meaningful = scan'.meaningful.map spaced
  lastLine : scan.lastLine = scan'.lastLine

theorem scanLines_spaced (expect : Expectation) (number : Nat) (raws : List (List Char)) :
    (scanLines expect number (raws.map (List.map spaced))).IsSpacedFrom
      (scanLines expect number raws) := by
  induction raws generalizing expect number with
  | nil => exact ⟨rfl, rfl, rfl, rfl⟩
  | cons raw rest ih =>
    rw [List.map_cons, scanLines, scanLines]
    dsimp only
    rw [lineContent_spaced, Text.trim_spaced, endsContent_spaced, ← List.map_flatten]
    split
    · refine ⟨?_, rfl, rfl, rfl⟩
      rw [trailingDiagnostics, countIgnored_spaced, trailingDiagnostics]
    · have hjudge := judge_spaced expect (lineContent raw)
      generalize judge expect ((lineContent raw).map spaced) = verdict at hjudge ⊢
      generalize judge expect (lineContent raw) = verdict' at hjudge ⊢
      cases hjudge with
      | reject hrule hseverity =>
        refine ⟨?_, rfl, List.map_append.symm, rfl⟩
        rw [findings_append, findings_append, findings_tabDiagnostics, findings_tabDiagnostics,
          findings_singleton hrule hseverity]
      | accept next =>
        obtain ⟨hfindings, hexpect, hmeaningful, hlast⟩ := ih next (number + 1)
        refine ⟨?_, hexpect, ?_, hlast⟩
        · rw [findings_append, findings_append, findings_tabDiagnostics, findings_tabDiagnostics,
            hfindings]
        · rw [List.map_append, ← hmeaningful]

/-- Whether the header is missing does not hang on tabs. -/
theorem headerDiagnostics_eq {scan scan' : Scan}
    (hfindings : findings scan.diagnostics = findings scan'.diagnostics)
    (hexpect : scan.expect = scan'.expect) (hlast : scan.lastLine = scan'.lastLine) :
    headerDiagnostics scan = headerDiagnostics scan' := by
  have hall (diagnostics : List Diagnostic) :
      diagnostics.all (fun d ↦ d.rule ≠ .commandSet) =
        (findings diagnostics).all fun entry ↦ entry.1 ≠ .commandSet := by
    rw [findings, List.all_map, List.all_filter]
    congr 1
    ext d
    by_cases htab : d.rule = .noTabs <;> simp [htab]
  rw [headerDiagnostics, headerDiagnostics, hall scan.diagnostics, hall scan'.diagnostics,
    hfindings, hexpect, hlast]

/-! ## Reports -/

/-- Whether a diagnostic reports the first tab of a line with a number. -/
structure ReportsTab (entry : List Char × Nat) (d : Diagnostic) : Prop where
  problem : d.problem = .tab
  line : d.line = entry.2
  column : ∃ before after, entry.1 = before ++ '\t' :: after ∧ '\t' ∉ before ∧
    d.column = some (Text.byteLength before + 1)

/-- Those of some lines, with their numbers from `number` on, that a check goes over: all lines in
front of them are accepted. -/
def scannedFrom (expect : Expectation) (number : Nat) (lines : List (List Char)) :
    List (List Char × Nat) :=
  (lines.zipIdx number).filter fun (_, n) ↦ (leadsTo? expect (lines.take (n - number))).isSome

/-- The lines of a text that are gone over, with their numbers. -/
def scannedLines (source : String) : List (List Char × Nat) :=
  scannedFrom .header 1 (keptLines source)

theorem scannedFrom_cons (expect : Expectation) (number : Nat) (line : List Char)
    (lines : List (List Char)) :
    scannedFrom expect number (line :: lines) =
      (line, number) :: match judge expect line with
        | .accept next => scannedFrom next (number + 1) lines
        | .reject _ => [] := by
  have hbehind (entry : List Char × Nat) (hentry : entry ∈ lines.zipIdx (number + 1)) :
      (leadsTo? expect ((line :: lines).take (entry.2 - number))).isSome =
        match judge expect line with
        | .accept next => (leadsTo? next (lines.take (entry.2 - (number + 1)))).isSome
        | .reject _ => false := by
    have hle : number + 1 ≤ entry.2 := List.le_snd_of_mem_zipIdx hentry
    rw [show entry.2 - number = entry.2 - (number + 1) + 1 by omega, List.take_succ_cons, leadsTo?]
    cases judge expect line <;> rfl
  rw [scannedFrom, List.zipIdx_cons, List.filter_cons_of_pos (by simp [leadsTo?]),
    List.filter_congr hbehind]
  cases judge expect line with
  | accept next => rfl
  | reject problem => simp

theorem reportsTab_tabDiagnostics (number : Nat) (line : List Char) :
    List.Forall₂ ReportsTab ([(line, number)].filter (·.1.contains '\t'))
      (tabDiagnostics number line) := by
  rw [tabDiagnostics, tabColumn?]
  cases htab : line.contains '\t' with
  | false =>
    rw [List.filter_cons_of_neg (by rw [htab]; decide), if_neg Bool.false_ne_true]
    exact .nil
  | true =>
    obtain ⟨before, after, hline, hbefore⟩ :=
      List.eq_append_cons_of_mem (List.contains_iff_mem.1 htab)
    have hother : ∀ c ∈ before, decide (c ≠ '\t') = true := fun c hc ↦
      decide_eq_true (ne_of_mem_of_not_mem hc hbefore)
    have hcut : line.takeWhile (· ≠ '\t') = before := by
      rw [hline, List.takeWhile_append_of_pos hother, List.takeWhile_cons_of_neg (by decide),
        List.append_nil]
    have hfilter : [(line, number)].filter (·.1.contains '\t') = [(line, number)] :=
      List.filter_cons_of_pos htab
    rw [hfilter, if_pos rfl, hcut]
    exact .cons ⟨rfl, rfl, before, after, hline, hbefore, rfl⟩ .nil

/-- The diagnostics about tabs. -/
def tabReports (diagnostics : List Diagnostic) : List Diagnostic :=
  diagnostics.filter (·.rule = .noTabs)

theorem tabReports_append (diagnostics diagnostics' : List Diagnostic) :
    tabReports (diagnostics ++ diagnostics') =
      tabReports diagnostics ++ tabReports diagnostics' :=
  List.filter_append ..

theorem tabReports_tabDiagnostics (number : Nat) (line : List Char) :
    tabReports (tabDiagnostics number line) = tabDiagnostics number line := by
  rw [tabDiagnostics]
  split <;> rfl

theorem tabReports_trailingDiagnostics (number : Nat) (rest : List Char) :
    tabReports (trailingDiagnostics number rest) = [] := by
  rw [trailingDiagnostics]
  split <;> rfl

theorem tabReports_headerDiagnostics (scan : Scan) : tabReports (headerDiagnostics scan) = [] := by
  rw [headerDiagnostics]
  split <;> rfl

/-- The diagnostics about tabs match the lines with tabs that are gone over, one to one. -/
theorem reportsTab_scanLines (expect : Expectation) (number : Nat) (raws : List (List Char)) :
    List.Forall₂ ReportsTab
      ((scannedFrom expect number (kept raws)).filter (·.1.contains '\t'))
      (tabReports (scanLines expect number raws).diagnostics) := by
  induction raws generalizing expect number with
  | nil => exact .nil
  | cons raw rest ih =>
    rw [scanLines]
    dsimp only
    cases hends : endsContent (Text.trim (lineContent raw)) with
    | true =>
      rw [kept_cons_of_ends hends, if_pos rfl, tabReports_trailingDiagnostics]
      exact .nil
    | false =>
      rw [kept_cons hends, if_neg Bool.false_ne_true, scannedFrom_cons, ← List.singleton_append,
        List.filter_append]
      have hline := reportsTab_tabDiagnostics number (lineContent raw)
      cases hjudge : judge expect (lineContent raw) with
      | reject problem =>
        have hproblem : tabReports [⟨problem, number, none⟩] = [] :=
          List.filter_cons_of_neg fun h ↦ (rule_of_judge hjudge).1 (of_decide_eq_true h)
        rw [tabReports_append, tabReports_tabDiagnostics, hproblem]
        exact List.rel_append hline .nil
      | accept next =>
        rw [tabReports_append, tabReports_tabDiagnostics]
        exact List.rel_append hline (ih next (number + 1))

theorem reportsTab_validate (source : String) :
    List.Forall₂ ReportsTab ((scannedLines source).filter (·.1.contains '\t'))
      (tabReports (validate source).diagnostics) := by
  rw [validate, tabReports_append, tabReports_headerDiagnostics, List.append_nil]
  exact reportsTab_scanLines .header 1 _

/-- No line of a text without tabs is reported. -/
theorem tabReports_validate_untabbed (source : String) :
    tabReports (validate (untabbed source)).diagnostics = [] := by
  have hlines : ∀ entry ∈ scannedLines (untabbed source), ¬entry.1.contains '\t' := by
    intro entry hentry htab
    have hkept : entry.1 ∈ keptLines (untabbed source) :=
      List.fst_mem_of_mem_zipIdx (List.mem_filter.1 hentry).1
    have hraw := List.takeWhile_subset _ hkept
    rw [untabbed, String.toList_ofList, Text.rawLines_spaced, List.map_map] at hraw
    obtain ⟨raw, -, hraw⟩ := List.mem_map.1 hraw
    rw [← hraw, Function.comp_apply, lineContent_spaced] at htab
    obtain ⟨c, -, hc⟩ := List.mem_map.1 (List.contains_iff_mem.1 htab)
    exact spaced_ne_tab c hc
  have hreports := reportsTab_validate (untabbed source)
  rw [List.filter_eq_nil_iff.2 hlines] at hreports
  exact List.forall₂_nil_left_iff.1 hreports

/-- Tabs are reported and change nothing else. With a space for each tab, a text has the same
command set, as much that is meaningful and the same findings, and no tab is reported. In the text
itself, one tab is reported for each line with tabs that is gone over, in the order of the lines. -/
theorem validate_untabbed (source : String) :
    (validate (untabbed source)).commandSet = (validate source).commandSet ∧
    (validate (untabbed source)).meaningfulLength = (validate source).meaningfulLength ∧
    findings (validate (untabbed source)).diagnostics = findings (validate source).diagnostics ∧
    (∀ d ∈ (validate (untabbed source)).diagnostics, d.rule ≠ .noTabs) ∧
    List.Forall₂ ReportsTab ((scannedLines source).filter (·.1.contains '\t'))
      (tabReports (validate source).diagnostics) := by
  have hscan := scanLines_spaced .header 1 (Text.rawLines source.toList)
  rw [← Text.rawLines_spaced, ← String.toList_ofList (l := source.toList.map spaced)] at hscan
  refine ⟨congrArg Expectation.commandSet? hscan.expect, ?_, ?_, ?_, reportsTab_validate source⟩
  · rw [Validation.meaningfulLength, Validation.meaningfulLength, validate, validate,
      String.toList_ofList, String.toList_ofList]
    exact (congrArg Text.byteLength hscan.meaningful).trans (Text.byteLength_spaced _)
  · rw [validate, validate, findings_append, findings_append]
    exact congrArg₂ (· ++ ·) hscan.findings
      (congrArg findings (headerDiagnostics_eq hscan.findings hscan.expect hscan.lastLine))
  · intro d hd hrule
    have hreport : d ∈ tabReports (validate (untabbed source)).diagnostics :=
      List.mem_filter.2 ⟨hd, decide_eq_true hrule⟩
    rw [tabReports_validate_untabbed] at hreport
    cases hreport

/-- The second line is rejected and its tab is reported; the third line is not gone over. -/
example : tabReports (validate "command_set:\ttop\n\tname: x\n---\t#\n").diagnostics =
    [⟨.tab, 1, some 13⟩, ⟨.tab, 2, some 1⟩] := by
  decide +kernel

end Grammar

end FolderCommands
