import FolderCommands.Proofs.Data.Texts
import FolderCommands.Proofs.Descendant

/-!
# Joining a text to a location

A text leads below a location by its segments: the trimmed pieces between its slashes that are not
empty. So it leads away from the location if and only if it has a character that is neither a slash
nor blank, and it leads below a normal location if and only if it has no segment `.` or `..`.

Every segment that a location has more than another one can be joined to that one as text. So the
locations below a normal location are just the normal ones that some text leads to.
-/

namespace FolderCommands

namespace Text

/-- The pieces hold every character but the separator. -/
theorem exists_mem_pieces {sep c : Char} {cs : List Char} (h : c ∈ cs) (hc : c ≠ sep) :
    ∃ piece ∈ pieces sep cs, c ∈ piece := by
  induction cs with
  | nil => cases h
  | cons d cs ih =>
    rw [pieces]
    split
    · rename_i hd
      obtain ⟨piece, hpiece, hmem⟩ := ih ((List.mem_cons.1 h).resolve_left fun hcd ↦ hc (hcd ▸ hd))
      exact ⟨piece, List.mem_cons_of_mem _ hpiece, hmem⟩
    · cases hpieces : pieces sep cs with
      | nil => exact absurd hpieces (pieces_ne_nil sep cs)
      | cons first rest =>
        rcases List.mem_cons.1 h with rfl | h
        · exact ⟨_, List.mem_cons_self, List.mem_cons_self⟩
        · obtain ⟨piece, hpiece, hmem⟩ := ih h
          rw [hpieces] at hpiece
          rcases List.mem_cons.1 hpiece with rfl | hpiece
          · exact ⟨_, List.mem_cons_self, List.mem_cons_of_mem _ hmem⟩
          · exact ⟨piece, List.mem_cons_of_mem _ hpiece, hmem⟩

theorem mem_of_mem_pieces {sep c : Char} {cs piece : List Char} (hpiece : piece ∈ pieces sep cs)
    (h : c ∈ piece) : c ∈ cs := by
  induction cs generalizing piece with
  | nil =>
    rw [List.mem_singleton.1 hpiece] at h
    cases h
  | cons d cs ih =>
    rw [pieces] at hpiece
    split at hpiece
    · rcases List.mem_cons.1 hpiece with rfl | hpiece
      · cases h
      · exact List.mem_cons_of_mem _ (ih hpiece h)
    · cases hpieces : pieces sep cs with
      | nil => exact absurd hpieces (pieces_ne_nil sep cs)
      | cons first rest =>
        rw [hpieces] at hpiece ih
        rcases List.mem_cons.1 hpiece with rfl | hpiece
        · rcases List.mem_cons.1 h with rfl | h
          · exact List.mem_cons_self
          · exact List.mem_cons_of_mem _ (ih List.mem_cons_self h)
        · exact List.mem_cons_of_mem _ (ih (List.mem_cons_of_mem _ hpiece) h)

/-- Only blanks are trimmed. -/
theorem mem_trim {c : Char} {cs : List Char} (h : c ∈ cs) (hc : isBlank c = false) :
    c ∈ trim cs := by
  have hleft : c ∈ cs.dropWhile isBlank := by
    rw [← List.takeWhile_append_dropWhile (p := isBlank) (l := cs)] at h
    refine (List.mem_append.1 h).resolve_left fun hfront ↦ ?_
    have hblank := List.all_eq_true.1 List.all_takeWhile c hfront
    rw [hc] at hblank
    cases hblank
  obtain ⟨removed, hkept, hremoved⟩ := exists_dropEndWhile_append isBlank (cs.dropWhile isBlank)
  rw [hkept] at hleft
  refine (List.mem_append.1 hleft).resolve_right fun hback ↦ ?_
  rw [hremoved c hback] at hc
  cases hc

end Text

/-! ## Segments -/

theorem mem_segmentsOf {text s : String} :
    s ∈ segmentsOf text ↔ s ≠ "" ∧ ∃ piece ∈ Text.pieces '/' text.toList,
      s = String.ofList (Text.trim piece) := by
  simp only [segmentsOf, Text.split, List.mem_filter, List.mem_map, decide_eq_true_eq]
  constructor
  · rintro ⟨⟨_, ⟨piece, hpiece, rfl⟩, rfl⟩, hne⟩
    exact ⟨hne, piece, hpiece, by rw [Text.trimmed, String.toList_ofList]⟩
  · rintro ⟨hne, piece, hpiece, rfl⟩
    exact ⟨⟨_, ⟨piece, hpiece, rfl⟩, by rw [Text.trimmed, String.toList_ofList]⟩, hne⟩

/-- A text names a segment if and only if it has a character that is neither a slash nor blank. -/
theorem segmentsOf_ne_nil_iff (text : String) :
    segmentsOf text ≠ [] ↔ ∃ c ∈ text.toList, c ≠ '/' ∧ Text.isBlank c = false := by
  constructor
  · intro h
    obtain ⟨s, hs⟩ := List.exists_mem_of_ne_nil _ h
    obtain ⟨hne, htrimmed, hslash⟩ := isSegment_of_mem_segmentsOf hs
    obtain ⟨-, piece, hpiece, rfl⟩ := mem_segmentsOf.1 hs
    rw [Text.trimmed, String.toList_ofList] at htrimmed
    rw [String.toList_ofList] at hslash
    cases hcs : Text.trim piece with
    | nil =>
      rw [hcs] at hne
      exact absurd rfl hne
    | cons c cs =>
      have hc : c ∈ Text.trim piece := hcs ▸ List.mem_cons_self
      refine ⟨c, Text.mem_of_mem_pieces hpiece (Text.mem_of_mem_trim hc), ?_, ?_⟩
      · rintro rfl
        exact hslash hc
      · exact (Text.trim_eq_self_iff.1 (Text.trim_idem piece)).1 c (by rw [hcs]; rfl)
  · rintro ⟨c, hc, hslash, hblank⟩
    obtain ⟨piece, hpiece, hmem⟩ := Text.exists_mem_pieces hc hslash
    have hc := Text.mem_trim hmem hblank
    refine List.ne_nil_of_mem (mem_segmentsOf.2 ⟨fun hempty ↦ ?_, piece, hpiece, rfl⟩)
    rw [String.ofList_eq_empty_iff.1 hempty] at hc
    cases hc

namespace RemotePath

variable {p : RemotePath} {child : String}

theorem isNormal_iff : p.isNormal = true ↔ ∀ s ∈ p.segments, s ≠ "." ∧ s ≠ ".." := by
  simp [isNormal]

/-- What a text leads to lies below a normal location if and only if none of its segments is `.` or
`..`. -/
theorem isDescendantOf_join_iff (hp : p.isNormal = true) :
    (p.join child).isDescendantOf p = true ↔ ∀ s ∈ segmentsOf child, s ≠ "." ∧ s ≠ ".." := by
  rw [isDescendantOf_iff, isNormal_iff, segments_join, rooted_join, List.forall_mem_append]
  constructor
  · rintro ⟨⟨-, hchild⟩, -⟩
    exact hchild
  · intro hchild
    exact ⟨⟨isNormal_iff.1 hp, hchild⟩, hp, rfl, List.prefix_append _ _⟩

/-- A location has more segments below it if and only if the text has a segment. -/
theorem length_lt_join_iff :
    p.segments.length < (p.join child).segments.length ↔
      ∃ c ∈ child.toList, c ≠ '/' ∧ Text.isBlank c = false := by
  rw [← segmentsOf_ne_nil_iff, segments_join, List.length_append, Nat.lt_add_right_iff_pos,
    List.length_pos_iff]

/-! ## Descendants -/

/-- Some text leads from a location to every location that starts with its segments. -/
theorem exists_join_iff {p q : RemotePath} :
    (∃ child, q = p.join child) ↔ q.rooted = p.rooted ∧ p.segments <+: q.segments := by
  constructor
  · rintro ⟨child, rfl⟩
    exact ⟨rfl, List.prefix_append _ _⟩
  · rintro ⟨hrooted, added, hadded⟩
    have hsegments : ∀ s ∈ added, IsSegment s := fun s hs ↦
      q.isSegment s (hadded ▸ List.mem_append_right _ hs)
    refine ⟨Text.joinWith "/" added, RemotePath.ext hrooted ?_⟩
    rw [segments_join, segmentsOf_joinWith hsegments, hadded]

/-- The locations below another one are the normal ones that some text leads to from there. -/
theorem isDescendantOf_iff_exists_join {p q : RemotePath} :
    q.isDescendantOf p = true ↔
      p.isNormal = true ∧ q.isNormal = true ∧ ∃ child, q = p.join child := by
  rw [isDescendantOf_iff, exists_join_iff]
  exact and_left_comm

/-- The pieces that make no segment are empty. -/
theorem forall_segmentsOf_iff :
    (∀ s ∈ segmentsOf child, s ≠ "." ∧ s ≠ "..") ↔
      ∀ piece ∈ Text.split '/' child, Text.trimmed piece ≠ "." ∧ Text.trimmed piece ≠ ".." := by
  simp only [segmentsOf, List.mem_filter, List.mem_map, decide_eq_true_eq]
  constructor
  · intro h piece hpiece
    by_cases hempty : Text.trimmed piece = ""
    · rw [hempty]
      decide
    · exact h _ ⟨⟨piece, hpiece, rfl⟩, hempty⟩
  · rintro h _ ⟨⟨piece, hpiece, rfl⟩, -⟩
    exact h piece hpiece

/-- A location is below another one if and only if both are normal and some text leads from the one
to the other. Being below is a partial order on the normal locations in which those above a location
form a chain, and what a text leads to is below where it leads from unless one of the pieces between
its slashes, blanks apart, is `.` or `..`. -/
theorem descendants_are_joins (p q r : RemotePath) :
    (q.isDescendantOf p = true ↔
      p.isNormal = true ∧ q.isNormal = true ∧ ∃ child, q = p.join child) ∧
    (p.isDescendantOf p = true ↔ p.isNormal = true) ∧
    (r.isDescendantOf q = true → q.isDescendantOf p = true → r.isDescendantOf p = true) ∧
    (p.isDescendantOf q = true → q.isDescendantOf p = true → p = q) ∧
    (r.isDescendantOf p = true → r.isDescendantOf q = true →
      p.isDescendantOf q = true ∨ q.isDescendantOf p = true) ∧
    (p.isNormal = true → ∀ child, (p.join child).isDescendantOf p = true ↔
      ∀ piece ∈ Text.split '/' child,
        Text.trimmed piece ≠ "." ∧ Text.trimmed piece ≠ "..") :=
  ⟨isDescendantOf_iff_exists_join, ⟨isNormal_of_isDescendantOf, isDescendantOf_refl⟩,
    isDescendantOf_trans, isDescendantOf_antisymm, isDescendantOf_or_isDescendantOf,
    fun hp _ ↦ (isDescendantOf_join_iff hp).trans forall_segmentsOf_iff⟩

/-- Three locations below one another, a second spelling of the first, and a segment that is not
just dots. -/
theorem descendants_are_joins_news :
    ((ofText "/news/a/b").isDescendantOf (ofText "/news/a") = true ∧
      (ofText "/news/a").isDescendantOf (ofText "/news") = true ∧
        (ofText "/news/a/b").isDescendantOf (ofText "/news") = true) ∧
    ((ofText "/news").isDescendantOf (ofText " / news//") = true ∧
      (ofText " / news//").isDescendantOf (ofText "/news") = true ∧
        ofText "/news" = ofText " / news//") ∧
    ((ofText "/news/a/b").isDescendantOf (ofText "/news") = true ∧
      ((ofText "/news").isDescendantOf (ofText "/news/a") = true ∨
        (ofText "/news/a").isDescendantOf (ofText "/news") = true)) ∧
    (ofText "/news").isNormal = true ∧
      ((ofText "/news").join "a/ .. b").isDescendantOf (ofText "/news") = true := by
  obtain ⟨-, -, htrans, -, hchain, -⟩ :=
    descendants_are_joins (ofText "/news") (ofText "/news/a") (ofText "/news/a/b")
  obtain ⟨-, -, -, hantisymm, -, hjoin⟩ :=
    descendants_are_joins (ofText "/news") (ofText " / news//") (ofText "/news")
  have hlow : (ofText "/news/a/b").isDescendantOf (ofText "/news/a") = true := by decide +kernel
  have hmiddle : (ofText "/news/a").isDescendantOf (ofText "/news") = true := by decide +kernel
  have hthere : (ofText "/news").isDescendantOf (ofText " / news//") = true := by decide +kernel
  have hback : (ofText " / news//").isDescendantOf (ofText "/news") = true := by decide +kernel
  have hnormal : (ofText "/news").isNormal = true := by decide +kernel
  exact ⟨⟨hlow, hmiddle, htrans hlow hmiddle⟩, ⟨hthere, hback, hantisymm hthere hback⟩,
    ⟨htrans hlow hmiddle, hchain (htrans hlow hmiddle) hlow⟩, hnormal,
    (hjoin hnormal "a/ .. b").2 (by decide +kernel)⟩

end RemotePath

end FolderCommands
