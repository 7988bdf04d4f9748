import FolderCommands.RemotePath

/-!
# The order of locations

Being below is a partial order on the normal locations: a location lies below those whose
segments are a beginning of its own. A location that is not normal is below nothing, not even
itself, so the locations within such a one are that one alone.
-/

namespace FolderCommands.RemotePath

theorem isDescendantOf_iff (p q : RemotePath) :
    p.isDescendantOf q = true ↔
      p.isNormal = true ∧ q.isNormal = true ∧ p.rooted = q.rooted ∧ q.segments <+: p.segments := by
  simp only [isDescendantOf, Bool.and_eq_true, beq_iff_eq, List.isPrefixOf_iff_prefix, and_assoc]

theorem isNormal_of_isDescendantOf {p q : RemotePath} (h : p.isDescendantOf q = true) :
    p.isNormal = true :=
  ((isDescendantOf_iff p q).1 h).1

theorem isNormal_ancestor {p q : RemotePath} (h : p.isDescendantOf q = true) :
    q.isNormal = true :=
  ((isDescendantOf_iff p q).1 h).2.1

theorem isDescendantOf_refl {p : RemotePath} (h : p.isNormal = true) :
    p.isDescendantOf p = true :=
  (isDescendantOf_iff p p).2 ⟨h, h, rfl, List.prefix_refl _⟩

theorem isDescendantOf_trans {p q r : RemotePath} (hpq : p.isDescendantOf q = true)
    (hqr : q.isDescendantOf r = true) : p.isDescendantOf r = true := by
  obtain ⟨hp, _, hrooted, hprefix⟩ := (isDescendantOf_iff p q).1 hpq
  obtain ⟨_, hr, hrooted', hprefix'⟩ := (isDescendantOf_iff q r).1 hqr
  exact (isDescendantOf_iff p r).2
    ⟨hp, hr, hrooted.trans hrooted', hprefix'.trans hprefix⟩

theorem isDescendantOf_antisymm {p q : RemotePath} (hpq : p.isDescendantOf q = true)
    (hqp : q.isDescendantOf p = true) : p = q := by
  obtain ⟨_, _, hrooted, hprefix⟩ := (isDescendantOf_iff p q).1 hpq
  obtain ⟨_, _, _, hprefix'⟩ := (isDescendantOf_iff q p).1 hqp
  exact RemotePath.ext hrooted (hprefix'.eq_of_length_le hprefix.length_le)

/-- Of two locations that have a third below them, one lies below the other. -/
theorem isDescendantOf_or_isDescendantOf {p q r : RemotePath} (hp : r.isDescendantOf p = true)
    (hq : r.isDescendantOf q = true) : p.isDescendantOf q = true ∨ q.isDescendantOf p = true := by
  obtain ⟨_, hp, hrooted, hprefix⟩ := (isDescendantOf_iff r p).1 hp
  obtain ⟨_, hq, hrooted', hprefix'⟩ := (isDescendantOf_iff r q).1 hq
  have hsame : p.rooted = q.rooted := hrooted.symm.trans hrooted'
  rcases List.prefix_or_prefix_of_prefix hprefix hprefix' with h | h
  · exact .inr ((isDescendantOf_iff q p).2 ⟨hq, hp, hsame.symm, h⟩)
  · exact .inl ((isDescendantOf_iff p q).2 ⟨hp, hq, hsame, h⟩)

theorem length_le_of_isDescendantOf {p q : RemotePath} (h : p.isDescendantOf q = true) :
    q.segments.length ≤ p.segments.length :=
  ((isDescendantOf_iff p q).1 h).2.2.2.length_le

/-- Whether `p` is `root` or lies below it, whether or not `root` is normal. -/
def IsWithin (p root : RemotePath) : Prop :=
  p = root ∨ p.isDescendantOf root = true

theorem isWithin_refl (root : RemotePath) : root.IsWithin root :=
  .inl rfl

theorem IsWithin.of_isDescendantOf {p q root : RemotePath} (hq : q.IsWithin root)
    (h : p.isDescendantOf q = true) : p.IsWithin root := by
  rcases hq with rfl | hq
  · exact .inr h
  · exact .inr (isDescendantOf_trans h hq)

theorem IsWithin.trans {p q root : RemotePath} (h : p.IsWithin q) (hq : q.IsWithin root) :
    p.IsWithin root := by
  rcases h with rfl | h
  · exact hq
  · exact hq.of_isDescendantOf h

theorem IsWithin.isNormal {p root : RemotePath} (h : p.IsWithin root)
    (hroot : root.isNormal = true) : p.isNormal = true := by
  rcases h with rfl | h
  · exact hroot
  · exact isNormal_of_isDescendantOf h

theorem IsWithin.eq_of_not_isNormal {p root : RemotePath} (h : p.IsWithin root)
    (hroot : root.isNormal ≠ true) : p = root := by
  rcases h with rfl | h
  · rfl
  · exact absurd (isNormal_ancestor h) hroot

theorem IsWithin.length_le {p root : RemotePath} (h : p.IsWithin root) :
    root.segments.length ≤ p.segments.length := by
  rcases h with rfl | h
  · exact Nat.le_refl _
  · exact length_le_of_isDescendantOf h

end FolderCommands.RemotePath
