import FolderCommands.Text.Blank
import FolderCommands.Text.Lines

/-!
# Laws of trimming and cutting

Trimming twice is trimming once, trimming adds no character, and no piece holds the separator.
-/

namespace FolderCommands.Text

theorem dropWhile_eq_self_of_head {p : Char → Bool} {cs : List Char}
    (h : ∀ c, cs.head? = some c → p c = false) : cs.dropWhile p = cs := by
  cases cs with
  | nil => rfl
  | cons c cs => simp [List.dropWhile, h c rfl]

theorem head?_dropWhile_false {p : Char → Bool} {cs : List Char} {c : Char}
    (h : (cs.dropWhile p).head? = some c) : p c = false := by
  have hhead := List.head?_dropWhile_not p cs
  rwa [h] at hhead

theorem dropEndWhile_isPrefix (p : Char → Bool) (cs : List Char) : dropEndWhile p cs <+: cs := by
  unfold dropEndWhile
  have h := List.dropWhile_suffix p (l := cs.reverse)
  have h' := List.reverse_prefix.2 h
  simpa using h'

theorem getLast?_dropEndWhile_false {p : Char → Bool} {cs : List Char} {c : Char}
    (h : (dropEndWhile p cs).getLast? = some c) : p c = false := by
  unfold dropEndWhile at h
  rw [List.getLast?_reverse] at h
  exact head?_dropWhile_false h

theorem dropEndWhile_eq_self_of_getLast {p : Char → Bool} {cs : List Char}
    (h : ∀ c, cs.getLast? = some c → p c = false) : dropEndWhile p cs = cs := by
  unfold dropEndWhile
  rw [dropWhile_eq_self_of_head, List.reverse_reverse]
  intro c hc
  exact h c (by rwa [List.head?_reverse] at hc)

theorem dropEndWhile_cons_of_neg {p : Char → Bool} {c : Char} (h : p c = false)
    (cs : List Char) : dropEndWhile p (c :: cs) = c :: dropEndWhile p cs := by
  rw [dropEndWhile, dropEndWhile, List.reverse_cons, List.dropWhile_append]
  split
  · rename_i hempty
    rw [List.isEmpty_iff.1 hempty, List.dropWhile_cons_of_neg (by simp [h])]
    rfl
  · rw [List.reverse_append]
    rfl

/-- The first element that trimming keeps is the first that does not satisfy the predicate. -/
theorem head?_trimWhile (p : Char → Bool) (cs : List Char) :
    (trimWhile p cs).head? = (cs.dropWhile p).head? := by
  rw [trimWhile]
  cases hcs : cs.dropWhile p with
  | nil => rfl
  | cons c rest =>
    have hc : p c = false := head?_dropWhile_false (by rw [hcs]; rfl)
    rw [dropEndWhile_cons_of_neg hc, List.head?_cons, List.head?_cons]

theorem dropEndWhile_append_of_pos {p : Char → Bool} {c : Char} (h : p c = true)
    (cs : List Char) : dropEndWhile p (cs ++ [c]) = dropEndWhile p cs := by
  rw [dropEndWhile, List.reverse_append, List.reverse_singleton, List.singleton_append,
    List.dropWhile_cons_of_pos h, dropEndWhile]

/-- What is removed from the end. -/
theorem exists_dropEndWhile_append (p : Char → Bool) (cs : List Char) :
    ∃ removed, cs = dropEndWhile p cs ++ removed ∧ ∀ c ∈ removed, p c = true := by
  refine ⟨(cs.reverse.takeWhile p).reverse, ?_, ?_⟩
  · rw [dropEndWhile, ← List.reverse_append, List.takeWhile_append_dropWhile, List.reverse_reverse]
  · intro c hc
    exact List.all_eq_true.1 List.all_takeWhile c (List.mem_reverse.1 hc)

theorem dropEndWhile_append {p : Char → Bool} {after : List Char} (h : ∀ c ∈ after, p c = true)
    (cs : List Char) : dropEndWhile p (cs ++ after) = dropEndWhile p cs := by
  have hreverse : ∀ c ∈ after.reverse, p c = true := fun c hc ↦ h c (List.mem_reverse.1 hc)
  rw [dropEndWhile, List.reverse_append, List.dropWhile_append_of_pos hreverse, dropEndWhile]

/-- Trimming removes what is to be trimmed at the end first. -/
theorem trimWhile_append_end {p : Char → Bool} {after : List Char} (h : ∀ c ∈ after, p c = true)
    (cs : List Char) : trimWhile p (cs ++ after) = trimWhile p cs := by
  rw [trimWhile, trimWhile, List.dropWhile_append]
  split
  · rename_i hempty
    have hafter : after.dropWhile p = [] := by
      simpa using @List.dropWhile_append_of_pos _ p after [] h
    rw [List.isEmpty_iff.1 hempty, hafter]
  · exact dropEndWhile_append h _

/-- Trimming does not tell what is to be trimmed around a list. -/
theorem trimWhile_around {p : Char → Bool} {before after : List Char}
    (hbefore : ∀ c ∈ before, p c = true) (hafter : ∀ c ∈ after, p c = true) (cs : List Char) :
    trimWhile p (before ++ (cs ++ after)) = trimWhile p cs := by
  have hfront : trimWhile p (before ++ (cs ++ after)) = trimWhile p (cs ++ after) := by
    rw [trimWhile, List.dropWhile_append_of_pos hbefore, trimWhile]
  rw [hfront, trimWhile_append_end hafter]

/-- What is removed at the ends. -/
theorem exists_trimWhile_append (p : Char → Bool) (cs : List Char) :
    ∃ before after, cs = before ++ (trimWhile p cs ++ after) ∧ (∀ c ∈ before, p c = true) ∧
      ∀ c ∈ after, p c = true := by
  obtain ⟨after, hafter, hall⟩ := exists_dropEndWhile_append p (cs.dropWhile p)
  refine ⟨cs.takeWhile p, after, ?_, List.all_eq_true.1 List.all_takeWhile, hall⟩
  rw [trimWhile, ← hafter, List.takeWhile_append_dropWhile]

/-- The ends of a trimmed list do not satisfy the predicate. -/
theorem trimWhile_idem (p : Char → Bool) (cs : List Char) :
    trimWhile p (trimWhile p cs) = trimWhile p cs := by
  have hhead : (trimWhile p cs).dropWhile p = trimWhile p cs := by
    apply dropWhile_eq_self_of_head
    intro c hc
    rw [head?_trimWhile] at hc
    exact head?_dropWhile_false hc
  rw [trimWhile, hhead, trimWhile]
  exact dropEndWhile_eq_self_of_getLast fun c hc ↦ getLast?_dropEndWhile_false hc

theorem trim_idem (cs : List Char) : trim (trim cs) = trim cs :=
  trimWhile_idem isBlank cs

theorem trimmed_idem (s : String) : trimmed (trimmed s) = trimmed s := by
  simp [trimmed, trim_idem]

/-- A text is trimmed if and only if it has no blank at an end. -/
theorem trim_eq_self_iff {cs : List Char} : trim cs = cs ↔
    (∀ c, cs.head? = some c → isBlank c = false) ∧
      ∀ c, cs.getLast? = some c → isBlank c = false := by
  constructor
  · intro h
    constructor
    · intro c hc
      rw [← h, trim, head?_trimWhile] at hc
      exact head?_dropWhile_false hc
    · intro c hc
      rw [← h] at hc
      exact getLast?_dropEndWhile_false hc
  · rintro ⟨hhead, hlast⟩
    rw [trim, trimWhile, dropWhile_eq_self_of_head hhead, dropEndWhile_eq_self_of_getLast hlast]

theorem mem_of_mem_trimWhile {p : Char → Bool} {cs : List Char} {c : Char}
    (h : c ∈ trimWhile p cs) : c ∈ cs :=
  (List.dropWhile_sublist p).subset ((dropEndWhile_isPrefix p _).subset h)

theorem mem_of_mem_trim {cs : List Char} {c : Char} (h : c ∈ trim cs) : c ∈ cs :=
  mem_of_mem_trimWhile h

theorem pieces_ne_nil (sep : Char) (cs : List Char) : pieces sep cs ≠ [] := by
  cases cs with
  | nil => simp [pieces]
  | cons c cs =>
    unfold pieces
    split
    · simp
    · split <;> simp

theorem pieces_append (sep : Char) (cs ds : List Char) :
    pieces sep (cs ++ sep :: ds) = pieces sep cs ++ pieces sep ds := by
  induction cs with
  | nil => simp [pieces]
  | cons c cs ih =>
    rw [List.cons_append, pieces, pieces, ih]
    by_cases hc : c = sep
    · rw [if_pos hc, if_pos hc, List.cons_append]
    · rw [if_neg hc, if_neg hc]
      cases hpieces : pieces sep cs with
      | nil => exact absurd hpieces (pieces_ne_nil sep cs)
      | cons piece rest => rfl

/-- Texts with the separator between are cut where each of them is. -/
theorem split_append (sep : Char) (s t : String) :
    split sep (s ++ String.singleton sep ++ t) = split sep s ++ split sep t := by
  have hchars : (s ++ String.singleton sep ++ t).toList = s.toList ++ sep :: t.toList := by simp
  rw [split, hchars, pieces_append, List.map_append, split, split]

theorem pieces_of_notMem {sep : Char} {cs : List Char} (h : sep ∉ cs) : pieces sep cs = [cs] := by
  induction cs with
  | nil => rfl
  | cons c cs ih =>
    rw [List.mem_cons, not_or] at h
    rw [pieces, if_neg (Ne.symm h.1), ih h.2]

/-- No piece holds the separator. -/
theorem sep_not_mem_of_mem_pieces {sep : Char} {cs piece : List Char}
    (h : piece ∈ pieces sep cs) : sep ∉ piece := by
  induction cs generalizing piece with
  | nil =>
    rw [List.mem_singleton.1 h]
    exact List.not_mem_nil
  | cons c cs ih =>
    rw [pieces] at h
    by_cases hc : c = sep
    · rw [if_pos hc, List.mem_cons] at h
      rcases h with rfl | h
      · exact List.not_mem_nil
      · exact ih h
    · rw [if_neg hc] at h
      cases hpieces : pieces sep cs with
      | nil => exact absurd hpieces (pieces_ne_nil sep cs)
      | cons first rest =>
        rw [hpieces] at h ih
        rcases List.mem_cons.1 h with rfl | h
        · rw [List.mem_cons, not_or]
          exact ⟨Ne.symm hc, ih List.mem_cons_self⟩
        · exact ih (List.mem_cons_of_mem first h)

end FolderCommands.Text
