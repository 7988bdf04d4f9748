import FolderCommands.Proofs.Grammar.Entries
import FolderCommands.Proofs.Yaml.Heads

/-!
# What accepted lines begin with

An accepted line begins, blanks apart, with the hyphens of a separator or with a key of the catalog,
because attributes are checked against the command in front of them and commands against the
command set. Where no line holds a line break of YAML alone, these are the lines that YAML sees, and
whatever else stands in them, they begin with a string or with the mark of a document.
-/

namespace FolderCommands

namespace Grammar

open Yaml

/-! ## Keys -/

/-- Whether a command whose attributes are expected is one of the command set. -/
def Expectation.IsCatalogued : Expectation → Prop
  | attributes set spec => spec ∈ set.commands
  | _ => True

theorem Step.IsAccepted.isCatalogued {s : Step} (h : s.IsAccepted)
    (hbefore : s.before.IsCatalogued) : s.after.IsCatalogued := by
  cases hmark : s.isMark with
  | true =>
    rw [(h.after_mark hmark).2, Expectation.afterSeparator]
    split <;> trivial
  | false =>
    cases hexpect : s.before with
    | header =>
      obtain ⟨value, set, -, -, hafter⟩ := h.of_header hmark hexpect
      rw [hafter]
      trivial
    | separator set =>
      rw [h.isMark_of_separator hexpect] at hmark
      cases hmark
    | command set =>
      obtain ⟨value, spec, -, hspec, hafter⟩ := h.of_command hmark hexpect
      rw [hafter]
      exact List.mem_of_find?_eq_some hspec
    | attributes set spec =>
      rw [h.of_attributes hmark hexpect, ← hexpect]
      exact hbefore

theorem mem_manifestKeys {set : CommandSet} {spec : CommandSpec} (hspec : spec ∈ set.commands)
    {key : String} (hkey : spec.allows key = true) : key ∈ manifestKeys := by
  refine List.mem_cons_of_mem _ (List.mem_cons_of_mem _ ?_)
  refine List.mem_flatMap.2 ⟨set, set.mem_every, List.mem_flatMap.2 ⟨spec, hspec, ?_⟩⟩
  exact List.contains_iff_mem.1 hkey

/-- A line that is no separator has a key of the catalog. -/
theorem Step.IsAccepted.exists_key {s : Step} (h : s.IsAccepted) (hmark : s.isMark = false)
    (hbefore : s.before.IsCatalogued) :
    ∃ d, declaration? s.line = some d ∧ d.key ∈ manifestKeys := by
  cases hexpect : s.before with
  | header =>
    obtain ⟨value, set, hd, -, -⟩ := h.of_header hmark hexpect
    exact ⟨_, hd, List.mem_cons_self⟩
  | separator set =>
    rw [h.isMark_of_separator hexpect] at hmark
    cases hmark
  | command set =>
    obtain ⟨value, spec, hd, -, -⟩ := h.of_command hmark hexpect
    exact ⟨_, hd, List.mem_cons_of_mem _ List.mem_cons_self⟩
  | attributes set spec =>
    obtain ⟨d, hd, hjudge⟩ := h.exists_declaration hmark
    rw [hexpect] at hbefore hjudge
    exact ⟨d, hd, mem_manifestKeys hbefore (judgeDeclaration_attributes.1 hjudge).1⟩

/-! ## Lines -/

section

variable {a : Char} {cs ds : List Char}

theorem isTame_of_opensString (h : opensString (a :: cs) = true) (ha : Yaml.isGap a = false) :
    isTame (a :: cs) = true := by
  rw [isTame, List.dropWhile_cons_of_neg (by simp [ha]), h, Bool.or_true]

/-- A visible blank starts a string, and other blanks are skipped. -/
theorem isTame_append_of_isBlank (hblank : ∀ c ∈ cs, Text.isBlank c = true)
    (hbreak : ∀ c ∈ cs, isBreak c = false) (hds : isTame ds = true) : isTame (cs ++ ds) = true := by
  induction cs with
  | nil => exact hds
  | cons c cs ih =>
    obtain ⟨hc, hblank⟩ := List.forall_mem_cons.1 hblank
    obtain ⟨hc', hbreak⟩ := List.forall_mem_cons.1 hbreak
    cases hgap : Yaml.isGap c with
    | true =>
      rw [List.cons_append, isTame_of_isGap hgap]
      exact ih hblank hbreak
    | false =>
      refine isTame_of_opensString ?_ hgap
      simp [opensString, isVisibleBlank, hc, hc', hgap]

theorem isTame_of_endsLine (h : EndsLine ds) : isTame ds = true := by
  cases ds with
  | nil => rfl
  | cons d ds =>
    obtain rfl := h d rfl
    rfl

theorem isTame_hyphens (cs : List Char) : isTame ('-' :: '-' :: '-' :: cs) = true :=
  isTame_of_opensString (by simp [opensString, List.isPrefixOf]) rfl

/-- Behind a separator there are blanks and perhaps a comment. -/
theorem exists_of_isSeparator {line : List Char} (h : isSeparator line = true) :
    ∃ before after comment, line = before ++ '-' :: '-' :: '-' :: (after ++ comment) ∧
      (∀ c ∈ before, Text.isBlank c = true) ∧ (∀ c ∈ after, Text.isBlank c = true) ∧
        ∀ c, comment.head? = some c → c = '#' := by
  obtain ⟨before, after, hcut, hbefore, hafter⟩ :=
    Text.exists_trimWhile_append Text.isBlank (withoutComment line)
  have hline : withoutComment line ++ line.dropWhile (· ≠ '#') = line :=
    List.takeWhile_append_dropWhile
  refine ⟨before, after, line.dropWhile (· ≠ '#'), ?_, hbefore, hafter, fun c hc ↦ ?_⟩
  · rw [← Text.trim, eq_of_beq h] at hcut
    nth_rewrite 1 [← hline]
    rw [hcut]
    simp
  · simpa using Text.head?_dropWhile_false hc

theorem opensLine_of_isSeparator {line : List Char} (h : isSeparator line = true)
    (hbreak : isUnbroken line = true) (hds : EndsLine ds) : opensLine (line ++ ds) = true := by
  obtain ⟨before, after, comment, rfl, hbefore, hafter, hcomment⟩ := exists_of_isSeparator h
  have hbreak' : ∀ c ∈ before ++ '-' :: '-' :: '-' :: (after ++ comment), isBreak c = false :=
    fun c hc ↦ (isUnbroken_spec hbreak hc).1
  have hrest : isTame (after ++ (comment ++ ds)) = true := by
    refine isTame_append_of_isBlank hafter (fun c hc ↦ hbreak' c (by simp [hc])) ?_
    cases comment with
    | nil => exact isTame_of_endsLine hds
    | cons c comment =>
      obtain rfl := hcomment c rfl
      rfl
  rw [List.append_assoc, List.cons_append, List.cons_append, List.cons_append, List.append_assoc]
  rw [opensLine, isTame_append_of_isBlank hbefore (fun c hc ↦ hbreak' c (by simp [hc]))
    (isTame_hyphens _), Bool.true_and]
  cases before with
  | nil =>
    rw [List.nil_append, List.drop_succ_cons, List.drop_succ_cons, List.drop_succ_cons,
      List.drop_zero, hrest, Bool.or_true]
  | cons c before =>
    have hc : c ≠ '-' := by
      rintro rfl
      exact absurd (hbefore '-' List.mem_cons_self) (by decide)
    rw [List.cons_append, atMark_eq_false hc]
    rfl

/-- A key is a string, with spaces in front of it or not. -/
theorem opensLine_of_key {key : String} (hkey : key ∈ manifestKeys) (n : Nat) (cs : List Char) :
    opensLine (List.replicate n ' ' ++ (key.toList ++ cs)) = true := by
  obtain ⟨c, word, hchars, hc, hword⟩ := exists_of_mem_manifestKeys hkey
  have htame : isTame (key.toList ++ cs) = true := by
    have hopens : opensString (key.toList ++ cs) = true := by
      have hany : manifestKeys.any (·.toList.isPrefixOf (key.toList ++ cs)) = true :=
        List.any_eq_true.2 ⟨key, hkey, List.isPrefixOf_iff_prefix.2 (List.prefix_append _ _)⟩
      rw [opensString, hany, Bool.true_or, Bool.true_or]
    rw [hchars] at hopens ⊢
    exact isTame_of_opensString hopens (isGap_of_isWord (hword c List.mem_cons_self))
  have hspaces : isTame (List.replicate n ' ' ++ (key.toList ++ cs)) = true := by
    refine isTame_append_of_isBlank ?_ ?_ htame
    all_goals
      intro d hd
      rw [List.eq_of_mem_replicate hd]
      rfl
  have hmark : atMark '-' (List.replicate n ' ' ++ (key.toList ++ cs)) = false := by
    cases n with
    | zero =>
      rw [hchars]
      exact atMark_eq_false (Scalar.ne_of_isAlpha hc (by decide)) _
    | succ n => exact atMark_eq_false (by decide) _
  rw [opensLine, hspaces, hmark]
  rfl

/-- A line begins with a string or with the mark of a document. -/
theorem Step.IsAccepted.opensLine {s : Step} (h : s.IsAccepted) (hbefore : s.before.IsCatalogued)
    (hbreak : isUnbroken s.line = true) (hds : EndsLine ds) :
    Yaml.opensLine (s.line ++ ds) = true := by
  cases hmark : s.isMark with
  | true => exact opensLine_of_isSeparator (h.after_mark hmark).1 hbreak hds
  | false =>
    obtain ⟨d, hd, hkey⟩ := h.exists_key hmark hbefore
    obtain ⟨n, rest, hline, -⟩ := exists_of_declaration? hd h.noTabs
    rw [hline, List.append_assoc, List.append_assoc]
    exact opensLine_of_key hkey n _

/-! ## Texts -/

theorem areTame_unbroken (h : isUnbroken cs = true) (ds : List Char) :
    areTame false (cs ++ ds) = areTame false ds := by
  induction cs with
  | nil => rfl
  | cons c cs ih =>
    rw [List.cons_append, areTame, (isUnbroken_spec h List.mem_cons_self).1, ih (isUnbroken_tail h)]
    rfl

theorem areTame_lineBreaks (atStart : Bool) (k : Nat) (cs : List Char) :
    areTame atStart (List.replicate (k + 1) '\n' ++ cs) = areTame true cs := by
  have hopens (cs : List Char) : Yaml.opensLine ('\n' :: cs) = true := by
    rw [Yaml.opensLine, atMark_eq_false (by decide)]
    rfl
  induction k generalizing atStart with
  | zero =>
    rw [List.replicate_one, List.singleton_append, areTame, hopens, Bool.or_true]
    rfl
  | succ k ih =>
    rw [List.replicate_succ, List.cons_append, areTame, hopens, Bool.or_true]
    exact ih _

end

/-- Where accepted lines hold no line break of YAML alone, each begins with a string or with the
mark of a document. -/
theorem Chain.areTame_content {e e' : Expectation} {l : List Step} (h : Chain e l e')
    (he : e.IsCatalogued) (hlines : Text.AreLines (l.map (·.raw)))
    (hbreak : ∀ s ∈ l, isUnbroken s.line = true) : areTame true (content l) = true := by
  induction h with
  | nil => rfl
  | @cons s rest e' h _ ih =>
    obtain ⟨hs, hrest⟩ := List.forall_mem_cons.1 hbreak
    obtain ⟨k, hcontent, hk⟩ := content_cons hlines hs
    have hopens := h.opensLine he hs (endsLine_lineBreaks hk)
    have htail := ih (h.isCatalogued he) hlines.tail hrest
    have hne := h.line_ne_nil
    rw [hcontent]
    generalize s.line = line at hs hopens hne
    cases line with
    | nil => exact absurd rfl hne
    | cons c cs =>
      rw [List.cons_append] at hopens ⊢
      rw [areTame, hopens, (isUnbroken_spec hs List.mem_cons_self).1,
        areTame_unbroken (isUnbroken_tail hs)]
      cases k with
      | zero =>
        rw [hk rfl]
        rfl
      | succ k =>
        rw [areTame_lineBreaks, htail]
        rfl

end Grammar

end FolderCommands
