import Mathlib
import FolderCommands.Proofs.Run.Backing
import FolderCommands.Proofs.Run.Confinement

/-!
# How deep folders are nested

The current folder may become shorter below a folder that is under way, for a command there may
move it back to a new top. The top never becomes shorter. So it is the pair of both lengths, the
top first, that grows from each folder under way to the next one below it, if no command goes to
where it already is. A folder whose manifest was loaded is a folder of the store, and its top is
above it, so there are only finitely many such pairs.
-/

namespace FolderCommands

namespace Traversal

/-- Whether the top of `inner` is longer than the one of `outer`, or as long and the current folder
is longer. -/
def IsDeeper (inner outer : Traversal) : Prop :=
  outer.topFolder.segments.length < inner.topFolder.segments.length ∨
    outer.topFolder.segments.length = inner.topFolder.segments.length ∧
      outer.currentFolder.segments.length < inner.currentFolder.segments.length

theorem IsDeeper.trans {inner middle outer : Traversal} (h : inner.IsDeeper middle)
    (h' : middle.IsDeeper outer) : inner.IsDeeper outer := by
  unfold IsDeeper at *
  omega

/-- Whether the run may be at `t` between the commands of a folder that was entered at `opening`:
it is where it was, or the top has been moved. -/
def Continues (t opening : Traversal) : Prop :=
  t = opening ∨ opening.topFolder.segments.length < t.topFolder.segments.length

theorem Continues.isDeeper {t opening outer : Traversal} (h : t.Continues opening)
    (h' : opening.IsDeeper outer) : t.IsDeeper outer := by
  rcases h with rfl | h
  · exact h'
  · unfold IsDeeper at *
    omega

theorem IsDeeper.continues {inner t opening : Traversal} (h : inner.IsDeeper t)
    (h' : t.Continues opening) : inner.IsDeeper opening := by
  rcases h' with rfl | h'
  · exact h
  · unfold IsDeeper at *
    omega

theorem Continues.of_length_lt {t t' opening : Traversal} (h : t.Continues opening)
    (hlength : t.topFolder.segments.length < t'.topFolder.segments.length) :
    t'.Continues opening := by
  rcases h with rfl | h
  · exact .inr hlength
  · exact .inr (h.trans hlength)

/-- The folders that wait, each with where the folder was entered from which the run went down:
coming back there continues the folder, whatever the top is by then. -/
def Paused (top : RemotePath) (origins : List RemotePath) (openings : List Traversal) : Prop :=
  List.Forall₂ (fun origin opening ↦ Continues ⟨top, origin⟩ opening) origins openings

theorem Paused.of_length_lt {top top' : RemotePath} {origins : List RemotePath}
    {openings : List Traversal} (h : Paused top origins openings)
    (hlength : top.segments.length < top'.segments.length) : Paused top' origins openings :=
  List.Forall₂.imp (fun _ _ hcontinues ↦ Continues.of_length_lt hcontinues hlength) h

/-- A traversal that goes on in the folder entered last, or is on the way from one folder to the
next below it or back. -/
inductive Nested (t : Traversal) : List RemotePath → List Traversal → Prop
  | inside {opening : Traversal} {origins : List RemotePath} {openings : List Traversal}
      (hpaused : Paused t.topFolder origins openings) (h : t.Continues opening) :
      Nested t origins (opening :: openings)
  | between {origins : List RemotePath} {openings : List Traversal}
      (hpaused : Paused t.topFolder origins openings)
      (h : ∀ opening ∈ openings, t.IsDeeper opening) : Nested t origins openings

theorem Paused.length_eq {top : RemotePath} {origins : List RemotePath}
    {openings : List Traversal} (h : Paused top origins openings) :
    origins.length = openings.length :=
  List.Forall₂.length_eq h

/-- Whether folders that were entered at `openings`, innermost first, are nested more deeply one by
one, with the run at `t` and to come back to `origins`. -/
structure IsNesting (t : Traversal) (origins : List RemotePath) (openings : List Traversal) :
    Prop where
  chain : openings.Pairwise IsDeeper
  nested : t.Nested origins openings

/-- The lengths that grow. -/
def lengths (t : Traversal) : Nat × Nat :=
  (t.topFolder.segments.length, t.currentFolder.segments.length)

/-- Traversals that are deeper one by one are no more than there are pairs of lengths. -/
theorem length_le_of_pairwise_isDeeper {openings : List Traversal} {bound : Nat}
    (h : openings.Pairwise IsDeeper)
    (hbound : ∀ opening ∈ openings, opening.topFolder.segments.length ≤ bound ∧
      opening.currentFolder.segments.length ≤ bound) :
    openings.length ≤ (bound + 1) * (bound + 1) := by
  have hnodup : (openings.map lengths).Nodup := by
    rw [List.Nodup, List.pairwise_map]
    refine h.imp fun {inner outer} hdeeper heq ↦ ?_
    simp only [lengths, Prod.mk.injEq] at heq
    unfold IsDeeper at hdeeper
    omega
  have hsubset : (openings.map lengths).toFinset ⊆
      Finset.range (bound + 1) ×ˢ Finset.range (bound + 1) := by
    intro pair hpair
    obtain ⟨opening, hmem, rfl⟩ := List.mem_map.1 (List.mem_toFinset.1 hpair)
    have hlengths := hbound opening hmem
    simp only [lengths, Finset.mem_product, Finset.mem_range]
    omega
  calc
    openings.length = (openings.map lengths).toFinset.card := by
      rw [List.toFinset_card_of_nodup hnodup, List.length_map]
    _ ≤ (Finset.range (bound + 1) ×ˢ Finset.range (bound + 1)).card :=
      Finset.card_le_card hsubset
    _ = (bound + 1) * (bound + 1) := by
      rw [Finset.card_product, Finset.card_range]

namespace IsNesting

variable {t : Traversal} {origins : List RemotePath} {openings : List Traversal}

theorem length_le (h : t.IsNesting origins openings) : openings.length ≤ origins.length + 1 := by
  cases h.nested with
  | inside hpaused _ => rw [List.length_cons, hpaused.length_eq]
  | between hpaused _ => exact (hpaused.length_eq.symm.le).trans (Nat.le_succ _)

theorem between (h : t.IsNesting origins openings) (hlength : openings.length = origins.length) :
    Paused t.topFolder origins openings ∧ ∀ opening ∈ openings, t.IsDeeper opening := by
  cases h.nested with
  | inside hpaused _ =>
    have := hpaused.length_eq
    rw [List.length_cons] at hlength
    omega
  | between hpaused hdeeper => exact ⟨hpaused, hdeeper⟩

theorem exists_inside (h : t.IsNesting origins openings)
    (hlength : openings.length = origins.length + 1) :
    ∃ opening rest, openings = opening :: rest ∧ Paused t.topFolder origins rest ∧
      t.Continues opening ∧ (∀ outer ∈ rest, opening.IsDeeper outer) ∧
      rest.Pairwise IsDeeper := by
  cases h.nested with
  | inside hpaused hcontinues =>
    obtain ⟨hfirst, hrest⟩ := List.pairwise_cons.1 h.chain
    exact ⟨_, _, rfl, hpaused, hcontinues, hfirst, hrest⟩
  | between hpaused _ =>
    have := hpaused.length_eq
    omega

theorem enter (h : t.IsNesting origins openings) (hlength : openings.length = origins.length) :
    t.IsNesting origins (t :: openings) := by
  obtain ⟨hpaused, hdeeper⟩ := h.between hlength
  exact ⟨.cons hdeeper h.chain, .inside hpaused (.inl rfl)⟩

theorem leave (h : t.IsNesting origins openings)
    (hlength : openings.length = origins.length + 1) : t.IsNesting origins openings.tail := by
  obtain ⟨opening, rest, rfl, hpaused, hcontinues, hfirst, hrest⟩ := h.exists_inside hlength
  refine ⟨hrest, .between hpaused fun outer hmem ↦ ?_⟩
  exact hcontinues.isDeeper (hfirst outer hmem)

theorem descend (h : t.IsNesting origins openings)
    (hlength : openings.length = origins.length + 1) {child : RemotePath}
    (hchild : t.currentFolder.segments.length < child.segments.length) :
    IsNesting ⟨t.topFolder, child⟩ (t.currentFolder :: origins) openings := by
  obtain ⟨opening, rest, rfl, hpaused, hcontinues, hfirst, hrest⟩ := h.exists_inside hlength
  have hdeeper : IsDeeper ⟨t.topFolder, child⟩ opening :=
    IsDeeper.continues (t := t) (.inr ⟨rfl, hchild⟩) hcontinues
  refine ⟨h.chain, .between (.cons hcontinues hpaused) ?_⟩
  intro outer hmem
  rcases List.mem_cons.1 hmem with rfl | hmem
  · exact hdeeper
  · exact hdeeper.trans (hfirst outer hmem)

theorem comeBack {origin : RemotePath} (h : t.IsNesting (origin :: origins) openings)
    (hlength : openings.length = origins.length + 1) :
    IsNesting ⟨t.topFolder, origin⟩ origins openings := by
  obtain ⟨hpaused, -⟩ := h.between hlength
  refine ⟨h.chain, ?_⟩
  cases hpaused with
  | cons hcontinues hpaused => exact .inside hpaused hcontinues

theorem of_length_lt (h : t.IsNesting origins openings) {t' : Traversal}
    (hlength : t.topFolder.segments.length < t'.topFolder.segments.length) :
    t'.IsNesting origins openings := by
  refine ⟨h.chain, ?_⟩
  cases h.nested with
  | inside hpaused hcontinues =>
    exact .inside (hpaused.of_length_lt hlength) (Continues.of_length_lt hcontinues hlength)
  | between hpaused hdeeper =>
    refine .between (hpaused.of_length_lt hlength) fun opening hmem ↦ ?_
    exact IsDeeper.trans (.inl hlength) (hdeeper opening hmem)

end IsNesting

end Traversal

namespace Place

/-- The traversals at which the folders under way were entered. -/
def openings (p : Place) : List Traversal :=
  p.active.map (·.opening.traversal)

/-- Whether the folders under way are nested more deeply one by one. -/
def IsNested (p : Place) : Prop :=
  p.session.traversal.IsNesting p.origins p.openings

/-- The folders under way whose manifest has been loaded. -/
def loaded (p : Place) : List Activation :=
  p.active.filter (·.manifest.isSome)

end Place

/-- Whether a note of going down or of moving the top is one of going down a segment at least. -/
def Note.isStrict (note : Note) : Bool :=
  match note.event with
  | .descended child =>
    note.session.traversal.currentFolder.segments.length < child.segments.length
  | .ended (.changeFolder child) => !(segmentsOf child).isEmpty
  | _ => true

namespace Engine

open Traversal

variable {ρ : Type} {e : Engine ρ} {W : World ρ → Prop}

theorem isNested_start (s : Session) : (Place.start s).IsNested where
  chain := .nil
  nested := .between .nil (by simp [Place.start, Place.openings])

theorem length_lt_join {p : RemotePath} {child : String} (h : !(segmentsOf child).isEmpty) :
    p.segments.length < (p.join child).segments.length := by
  have hpos : 0 < (segmentsOf child).length := by
    simpa [List.length_pos_iff] using h
  rw [RemotePath.segments_join, List.length_append]
  omega

theorem isNested_next (p : Place) (note : Note) (hp : p.IsNested)
    (h : e.Turn W p note ∧ note.isStrict) : (p.next note).IsNested := by
  obtain ⟨h, hstrict⟩ := h
  have hlength : p.openings.length = p.active.length := List.length_map _
  cases h with
  | begun | started | asked | delegated | raised | isolated => exact hp
  | loaded hactive | planned hactive =>
    unfold Place.IsNested Place.openings at *
    simp only [Place.next, hactive, List.modifyHead_cons, List.map_cons] at hp ⊢
    exact hp
  | descended hactive h =>
    exact IsNesting.descend hp (hlength.trans hactive) (of_decide_eq_true hstrict)
  | returned hactive h =>
    unfold Place.IsNested at hp
    rw [h] at hactive hp
    have hback := IsNesting.comeBack hp (hlength.trans hactive)
    simp only [Place.IsNested, Place.next, h, List.tail_cons]
    exact hback
  | entered hactive => exact IsNesting.enter hp (hlength.trans hactive)
  | left folder result hactive =>
    have hleft := IsNesting.leave hp (hlength.trans hactive)
    rw [Place.openings, ← List.map_tail] at hleft
    rcases result with (_ | _) | _ <;> exact hleft
  | ended h =>
    cases h with
    | none | identity => exact hp
    | changeFolder h => exact IsNesting.of_length_lt hp (length_lt_join hstrict)

/-- In a run from a folder that is not normal, the run stays in that folder. -/
theorem origins_next_eq_nil {root : RemotePath} (hroot : root.isNormal ≠ true) (p : Place)
    (note : Note) (hp : p.IsWithin root ∧ p.origins = []) (h : e.Turn W p note) :
    (p.next note).IsWithin root ∧ (p.next note).origins = [] := by
  refine ⟨isWithin_next p note hp.1 h, ?_⟩
  have htop := hp.1.session.top.eq_of_not_isNormal hroot
  cases h.moves with
  | stays htraversal hsession horigins => rw [horigins, hp.2]
  | descends child hevent htraversal h =>
    rw [htop] at h
    exact absurd (RemotePath.isNormal_ancestor h) hroot
  | returns child origin origins hevent htraversal h =>
    rw [hp.2] at h
    cases h
  | changes child hevent htraversal h =>
    rw [htop] at h
    exact absurd (RemotePath.isNormal_ancestor h) hroot

/-- A folder of the store whose manifest has been loaded, and the top above it, have at most as
many segments as the deepest folder of the store. -/
theorem IsBacked.lengths_le (hW : e.Lasts W) {folders : Finset (List String)}
    (hfolders : ∀ w, W w → ∀ (dir : RemotePath) (names : List String), dir.isNormal →
      (e.store.listFiles dir w).1 = .ok names → dir.segments ∈ folders)
    {visited : List RemotePath} {a : Activation} (h : e.IsBacked W visited a)
    (hnormal : a.folder.isNormal) (hloaded : a.manifest.isSome) :
    a.opening.traversal.topFolder.segments.length ≤ folders.sup List.length ∧
      a.opening.traversal.currentFolder.segments.length ≤ folders.sup List.length := by
  obtain ⟨manifest, hmanifest⟩ := Option.isSome_iff_exists.1 hloaded
  obtain ⟨mark, requests, hloads⟩ := h.loaded manifest hmanifest
  obtain ⟨world, names, hworld, hlisted⟩ := hloads.listed hW
  have hfolder : a.folder.segments.length ≤ folders.sup List.length :=
    Finset.le_sup (hfolders world hworld a.folder names hnormal hlisted)
  have htop := h.within.length_le
  exact ⟨htop.trans hfolder, h.current ▸ hfolder⟩

/-- At most as many folders whose manifest has been loaded are under way at once as there are
pairs of lengths of folders of the store. -/
theorem length_loaded_le (hW : e.Lasts W) {folders : Finset (List String)}
    (hfolders : ∀ w, W w → ∀ (dir : RemotePath) (names : List String), dir.isNormal →
      (e.store.listFiles dir w).1 = .ok names → dir.segments ∈ folders)
    {limit : Nat} {w : World ρ} {s : Session} (hw : W w)
    (hstrict : ∀ note ∈ e.journal limit w s, note.isStrict) {before : Journal}
    (h : before <+: e.journal limit w s) :
    ((Place.start s).after before).loaded.length ≤
      (folders.sup List.length + 1) * (folders.sup List.length + 1) := by
  obtain ⟨last, hleads⟩ := journal_leads hW limit w s hw
  obtain ⟨rest, hrest⟩ := h
  have halong : e.Along W (.start s) before := by
    have := hleads.along
    rw [← hrest] at this
    exact (Place.throughout_append.1 this).1
  have hbefore : ∀ note ∈ before, note.isStrict :=
    fun note hmem ↦ hstrict note (hrest ▸ List.mem_append_left _ hmem)
  generalize hp : (Place.start s).after before = p
  have hnested : p.IsNested :=
    hp ▸ (halong.and_forall hbefore).invariant isNested_next (isNested_start s)
  have hwithin : p.IsWithin s.traversal.topFolder :=
    hp ▸ halong.invariant isWithin_next (isWithin_start s)
  have hbacked : ∀ a ∈ p.active, e.IsBacked W p.session.visited a :=
    hp ▸ halong.invariant isBacked_next (by simp [Place.start])
  -- A top that is not normal is left for no folder below it, so nothing is known to the store.
  by_cases hnormal : s.traversal.topFolder.isNormal
  · have hbound : ∀ opening ∈ p.loaded.map (·.opening.traversal),
        opening.topFolder.segments.length ≤ folders.sup List.length ∧
          opening.currentFolder.segments.length ≤ folders.sup List.length := by
      intro opening hopening
      obtain ⟨a, ha, rfl⟩ := List.mem_map.1 hopening
      obtain ⟨hactive, hloaded⟩ := List.mem_filter.1 ha
      exact (hbacked a hactive).lengths_le hW hfolders
        ((hwithin.active a hactive).isNormal hnormal) hloaded
    have hchain : (p.loaded.map (·.opening.traversal)).Pairwise IsDeeper :=
      hnested.chain.sublist (List.filter_sublist.map _)
    have hlength := length_le_of_pairwise_isDeeper hchain hbound
    rwa [List.length_map] at hlength
  · have horigins : p.origins = [] :=
      hp ▸ (halong.invariant (origins_next_eq_nil hnormal) ⟨isWithin_start s, rfl⟩).2
    have hlength : p.openings.length ≤ p.origins.length + 1 := hnested.length_le
    rw [horigins, Place.openings, List.length_map] at hlength
    calc
      p.loaded.length ≤ p.active.length := List.length_filter_le _ _
      _ ≤ 1 := hlength
      _ ≤ (folders.sup List.length + 1) * (folders.sup List.length + 1) :=
        Nat.mul_pos (Nat.succ_pos _) (Nat.succ_pos _)

end Engine

end FolderCommands
