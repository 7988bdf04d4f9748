import FolderCommands.Proofs.Run.Blame
import FolderCommands.Proofs.Run.Likeness

/-!
# Children that fail have no bearing on the others

A child of a folder that fails in its content, and leaves the top folder where it is, makes no
difference to its siblings or to anything else that comes after it: the run over a store that does
not list the child is the same but for what the child itself has recorded. This rests on answers
that do not depend on what has been done before. Nothing else is shared by the children but the top
folder, and a child that moves it can keep its siblings from being processed.
-/

namespace FolderCommands

section

variable {ρ : Type}

/-- The store in whose listings of directories some names are left out. -/
def Store.omitting (store : Store ρ) (hidden : RemotePath → String → Bool) : Store ρ :=
  { store with
    listDirectories := fun dir ↦ do
      return (← store.listDirectories dir).filter fun name ↦ !hidden dir name }

theorem Store.omitting_listDirectories (store : Store ρ) (hidden : RemotePath → String → Bool)
    (dir : RemotePath) (w : World ρ) :
    (store.omitting hidden).listDirectories dir w =
      ((store.listDirectories dir w).1.map (·.filter fun name ↦ !hidden dir name),
        (store.listDirectories dir w).2) := by
  simp only [omitting, bind_apply, pure_apply]
  rcases store.listDirectories dir w with ⟨_ | _, _⟩ <;> rfl

end

namespace Engine

variable {ρ : Type}

/-- The engine over a store in which some folders are not listed. -/
def omitting (e : Engine ρ) (hidden : RemotePath → String → Bool) : Engine ρ :=
  { e with store := e.store.omitting hidden }

/-- The engine over the store without a child of a folder. -/
def withoutChild (e : Engine ρ) (parent : RemotePath) (child : String) : Engine ρ :=
  e.omitting fun dir name ↦ dir = parent && name = child

theorem omitting_nothing (e : Engine ρ) : (e.omitting fun _ _ ↦ false) = e := by
  have hlist (dir : RemotePath) (w : World ρ) :
      (e.store.omitting fun _ _ ↦ false).listDirectories dir w = e.store.listDirectories dir w := by
    rw [Store.omitting_listDirectories]
    rcases e.store.listDirectories dir w with ⟨_ | names, w'⟩
    · rfl
    · simp [Except.map]
  have hstore : (e.store.omitting fun _ _ ↦ false).listDirectories = e.store.listDirectories :=
    funext fun dir ↦ funext fun w ↦ hlist dir w
  calc
    (e.omitting fun _ _ ↦ false) = { e with store :=
        { e.store with listDirectories := (e.store.omitting fun _ _ ↦ false).listDirectories } } :=
      rfl
    _ = e := by rw [hstore]

theorem omitting_updatePages (e : Engine ρ) (hidden : RemotePath → String → Bool)
    (folder : RemotePath) : (e.omitting hidden).updatePages folder = e.updatePages folder := by
  have heach (files : List String) :
      (e.omitting hidden).updateEach folder files = e.updateEach folder files := by
    induction files with
    | nil => rfl
    | cons file files ih =>
      rw [updateEach, updateEach, ih]
      rfl
  unfold updatePages
  simp only [heach]
  rfl

/-! ## Coming to a child -/

/-- Whether a note tells that a loop over the children of `parent` comes to `child`: the run goes
down there, or finds that it may not. -/
def comesTo (parent : RemotePath) (child : String) : List Layer → Note → Bool
  | .running .all :: _, ⟨.descended folder, s⟩ =>
    s.traversal.currentFolder = parent && folder = parent.join child
  | .running .all :: _, ⟨.raised error, s⟩ =>
    s.traversal.currentFolder = parent && error = escapeError parent child
  | _, _ => false

/-- Where a run is whenever a loop over the children of `parent` comes to `child`. -/
def arrivals (parent : RemotePath) (child : String) (layers : List Layer) :
    Journal → List Traversal
  | [] => []
  | note :: notes =>
    (if comesTo parent child layers note then [note.session.traversal] else []) ++
      arrivals parent child (Layer.next layers note) notes

theorem arrivals_append (parent : RemotePath) (child : String) (layers : List Layer)
    (notes notes' : Journal) :
    arrivals parent child layers (notes ++ notes') =
      arrivals parent child layers notes ++
        arrivals parent child (Layer.after layers notes) notes' := by
  induction notes generalizing layers with
  | nil => rfl
  | cons note notes ih =>
    rw [List.cons_append, arrivals, arrivals, ih, List.append_assoc]
    rfl

/-- Whether going down to a child from some place ends in a failure of its content and leaves the
top folder where it is. -/
def failsAt (e : Engine ρ) (limit : Nat) (w : World ρ) (t : Traversal) (child : String) : Bool :=
  match descend (e.process limit "") child { world := w, session := { traversal := t } } with
  | (.error (.failed error), s) =>
    error.isRecoverable && s.session.traversal.topFolder = t.topFolder
  | _ => false

/-! ## What a child records -/

/-- What a child of `parent` records that fails in its content, with its failure. -/
def IsChapter (e : Engine ρ) (W : World ρ → Prop) (parent : RemotePath) (child : String)
    (more : Trail) : Prop :=
  ∃ limit s error own, W s.world ∧ s.session.traversal.currentFolder = parent ∧
    (descend (e.process limit "") child s).1 = .error (.failed error) ∧
    error.isRecoverable = true ∧
    (descend (e.process limit "") child s).2.trail = s.trail ++ own ∧
    more = own ++
      { failures := [⟨(parent.join child).text, error.message⟩]
        events := [.isolated (parent.join child) error] }

/-- Trails that are the same but for what a child of `parent` has recorded in the first one. -/
inductive Without (e : Engine ρ) (W : World ρ → Prop) (parent : RemotePath) (child : String) :
    Trail → Trail → Prop
  | empty : Without e W parent child {} {}
  | both {t t' : Trail} (more : Trail) (h : Without e W parent child t t') :
      Without e W parent child (t ++ more) (t' ++ more)
  | own {t t' more : Trail} (h : Without e W parent child t t')
      (hmore : e.IsChapter W parent child more) : Without e W parent child (t ++ more) t'

/-! ## Loops over children -/

variable {e : Engine ρ}

/-- A state that comes later in a run, in the same loop over children, with no error under way. -/
structure Rests (s t : RunState ρ) : Prop where
  failedFolder : t.session.failedFolder = none
  currentFolder : t.session.traversal.currentFolder = s.session.traversal.currentFolder
  journal : s.journal <+: t.journal
  layers : Layer.after [] t.journal = Layer.after [] s.journal

/-- After a child the loop is where it was. -/
theorem rests_of_isolate {limit : Nat} {parent : RemotePath} {name : String} {s t : RunState ρ}
    (hs : s.session.failedFolder = none)
    (h : isolate parent name (descend (e.process limit "") name) s = (.ok (), t)) :
    Rests s t := by
  obtain ⟨notes, hcourse, hjournal, -⟩ :=
    follows_descend (follows_process e.lasts_true limit "") name s trivial
  obtain ⟨failures, -, hlayers, -⟩ := hcourse.settles (Layer.after [] s.journal) trivial
  rw [isolate_apply] at h
  rcases hresult : descend (e.process limit "") name s with ⟨(error | _) | _, s'⟩
  all_goals
    rw [hresult] at h hcourse hjournal
    dsimp only at h hcourse hjournal
  · split at h
    · cases h
      refine ⟨rfl, hcourse.currentFolder_descent, ?_, ?_⟩
      · simp only [RunState.noted, RunState.updated, hjournal, List.append_assoc]
        exact List.prefix_append _ _
      · simp only [RunState.noted, RunState.updated, hjournal, Layer.after_append, hlayers]
        rfl
    · cases h
  · cases h
  · cases h
    refine ⟨hcourse.failedFolder_eq_none hs rfl, hcourse.currentFolder_descent, ?_, ?_⟩
    · rw [hjournal]
      exact List.prefix_append _ _
    · rw [hjournal, Layer.after_append, hlayers]

/-- The first note of a descent out of a loop over children tells that the loop comes there. -/
theorem Course.comesTo {W : World ρ → Prop} {limit : Nat} {name : String} {s s' : Session}
    {notes : Journal} {result : Except Stop Unit} (layers : List Layer)
    (h : e.Course W limit (.descent name) s notes result s') :
    ∃ event rest, notes = ⟨event, s⟩ :: rest ∧
      Engine.comesTo s.traversal.currentFolder name (.running .all :: layers) ⟨event, s⟩ := by
  cases h with
  | raised h =>
    cases h
    exact ⟨_, [], rfl, by simp [Engine.comesTo]⟩
  | descent h hfolder => exact ⟨_, _, rfl, by simp [Engine.comesTo]⟩

theorem mem_arrivals (limit : Nat) (name : String) {s : RunState ρ} {layers : List Layer}
    (h : Layer.after [] s.journal = .running .all :: layers) :
    s.session.traversal ∈ arrivals s.session.traversal.currentFolder name []
      (descend (e.process limit "") name s).2.journal := by
  obtain ⟨notes, hcourse, hjournal, -⟩ :=
    follows_descend (follows_process e.lasts_true limit "") name s trivial
  obtain ⟨event, rest, rfl, hcomes⟩ := hcourse.comesTo layers
  rw [hjournal, arrivals_append, h]
  apply List.mem_append_right
  rw [arrivals, if_pos hcomes]
  exact List.mem_append_left _ (List.mem_singleton_self _)

/-- What is recorded from one state to another, if nothing is taken back. -/
theorem exists_trail_eq_append {s t : RunState ρ} (hsession : s.session.Grows t.session)
    (hjournal : s.journal <+: t.journal) : ∃ own, t.trail = s.trail ++ own := by
  obtain ⟨visited, hvisited⟩ := hsession.visited
  obtain ⟨identities, hidentities⟩ := hsession.identities
  obtain ⟨failures, hfailures⟩ := hsession.failures
  obtain ⟨notes, hnotes⟩ := hjournal
  refine ⟨⟨visited, identities, failures, notes.map (·.event)⟩, ?_⟩
  simp only [RunState.trail, Trail.append_def, hvisited, hidentities, hfailures, ← hnotes,
    List.map_append]

/-! ## The run without some children -/

/-- Whether going down to a child fails in its content, and leaves the top folder where it is, in
every state in which a run stands at `t`, as far as it is not stopped by the limit. -/
def FailsFrom (e : Engine ρ) (W : World ρ → Prop) (limit : Nat) (t : Traversal) (child : String) :
    Prop :=
  ∀ depth ≤ limit, ∀ s : RunState ρ, W s.world → s.session.traversal = t →
    s.session.failedFolder = none → (descend (e.process depth "") child s).1 ≠ .error .tooDeep →
    ∃ error, (descend (e.process depth "") child s).1 = .error (.failed error) ∧
      error.isRecoverable = true ∧
      (descend (e.process depth "") child s).2.session.traversal = t ∧
      W (descend (e.process depth "") child s).2.world

/-- Whether every loop over children that comes to a hidden child finds that it fails. -/
def HidesFailures (e : Engine ρ) (W : World ρ → Prop) (limit : Nat)
    (hidden : RemotePath → String → Bool) (journal : Journal) : Prop :=
  ∀ parent child, hidden parent child = true →
    ∀ t ∈ arrivals parent child [] journal, e.FailsFrom W limit t child

theorem HidesFailures.mono {W : World ρ → Prop} {limit : Nat}
    {hidden : RemotePath → String → Bool} {notes notes' : Journal}
    (h : e.HidesFailures W limit hidden notes') (hfront : notes <+: notes') :
    e.HidesFailures W limit hidden notes := by
  obtain ⟨rest, rfl⟩ := hfront
  intro parent child hchild t ht
  apply h parent child hchild
  rw [arrivals_append]
  exact List.mem_append_left _ ht

section

variable (e : Engine ρ) (W : World ρ → Prop) (R : Trail → Trail → Prop) (limit : Nat)
  (hidden : RemotePath → String → Bool)

/-- Whether a part is not stopped by its limit and comes to hidden children only where they
fail. -/
def IsSound (part : Run ρ Unit) (s : RunState ρ) : Prop :=
  (part s).1 ≠ .error .tooDeep ∧ e.HidesFailures W limit hidden (part s).2.journal

/-- Parts that keep states alike in which the first one is sound. -/
def Parallels (part part' : Run ρ Unit) : Prop :=
  ∀ s s', Alike W R s s' → s.session.failedFolder = none → e.IsSound W limit hidden part s →
    (part' s').1 = (part s).1 ∧ Alike W R (part s).2 (part' s').2

end

section

variable {W : World ρ → Prop} {R : Trail → Trail → Prop} {limit : Nat}
  {hidden : RemotePath → String → Bool}

/-! ### What is sound with a part of it -/

theorem IsSound.of_isolate {part : Run ρ Unit} {parent : RemotePath} {child : String}
    {s : RunState ρ} (h : e.IsSound W limit hidden (isolate parent child part) s) :
    e.IsSound W limit hidden part s := by
  obtain ⟨hdeep, hhides⟩ := h
  rw [isolate_apply] at hdeep hhides
  rw [IsSound]
  rcases hresult : part s with ⟨(error | _) | _, t⟩
  all_goals
    rw [hresult] at hdeep hhides
    dsimp only at hdeep hhides
  · refine ⟨by simp, ?_⟩
    split at hhides
    · exact hhides.mono (List.prefix_append _ _)
    · exact hhides
  · exact absurd rfl hdeep
  · exact ⟨by simp, hhides⟩

theorem IsSound.of_descendEach {depth : Nat} {parent : RemotePath} {name : String}
    {names : List String} {s : RunState ρ} (hname : name ≠ ignoredFolder)
    (h : e.IsSound W limit hidden
      (descendEach (e.process depth "") parent (name :: names)) s) :
    e.IsSound W limit hidden (isolate parent name (descend (e.process depth "") name)) s ∧
      ∀ t, isolate parent name (descend (e.process depth "") name) s = (.ok (), t) →
        e.IsSound W limit hidden (descendEach (e.process depth "") parent names) t := by
  obtain ⟨hdeep, hhides⟩ := h
  rw [descendEach_cons_apply, if_neg hname] at hdeep hhides
  rcases hresult : isolate parent name (descend (e.process depth "") name) s with ⟨stop | _, t⟩
  all_goals
    rw [hresult] at hdeep hhides
    dsimp only at hdeep hhides
  · refine ⟨⟨?_, ?_⟩, fun _ h ↦ nomatch h⟩
    · rwa [hresult]
    · rwa [hresult]
  · obtain ⟨notes, -, hjournal, -⟩ :=
      follows_descendEach (follows_process e.lasts_true depth "") parent names t trivial
    refine ⟨⟨by simp [hresult], ?_⟩, ?_⟩
    · rw [hresult]
      exact hhides.mono (hjournal ▸ List.prefix_append _ _)
    · rintro _ ⟨⟩
      exact ⟨hdeep, hhides⟩

/-! ### Going down -/

variable (hW : e.IsSteady W) (hR : Trail.Lasts R)

include hR

theorem parallels_descend {inner inner' : Run ρ Unit}
    (hinner : e.Parallels W R limit hidden inner inner') (child : String) :
    e.Parallels W R limit hidden (descend inner child) (descend inner' child) := by
  rintro s s' hs hnone ⟨hdeep, hhides⟩
  rw [descend_apply] at hdeep hhides
  rw [descend_apply, descend_apply, hs.traversal]
  dsimp only at hdeep hhides ⊢
  split
  · rename_i hbelow
    rw [if_pos hbelow] at hdeep hhides
    have hstarted := (hs.noted hR
      (.descended (s.session.traversal.currentFolder.join child))).updated (·.entering child)
        (by simp [Session.entering, RunState.noted, hs.traversal]) hs.failedFolder rfl rfl
    obtain ⟨hresult, halike⟩ := hinner _ _ hstarted hnone
      ⟨hdeep, hhides.mono (List.prefix_append _ _)⟩
    refine ⟨hresult, ?_⟩
    have hback := halike.updated (·.backIn s.session.traversal.currentFolder)
      (by simp [Session.backIn, halike.traversal]) halike.failedFolder rfl rfl
    exact hback.noted hR _
  · exact ⟨rfl, hs.noted hR _⟩

theorem parallels_isolate {part part' : Run ρ Unit}
    (hpart : e.Parallels W R limit hidden part part') (parent : RemotePath) (child : String) :
    e.Parallels W R limit hidden (isolate parent child part) (isolate parent child part') := by
  intro s s' hs hnone hsound
  obtain ⟨result, t, t', hleft, hright, halike⟩ :=
    Run.Relates.exists_result (hpart s s' hs hnone hsound.of_isolate)
  rw [isolate_apply, isolate_apply, hleft, hright]
  rcases result with (error | _) | _
  all_goals dsimp only
  · split
    · exact ⟨rfl, (halike.isolating hR _ _).noted hR _⟩
    · exact ⟨rfl, halike⟩
  · exact ⟨rfl, halike⟩
  · exact ⟨rfl, halike⟩

omit hR

variable (hown : ∀ parent child t t' more, hidden parent child = true → R t t' →
  e.IsChapter W parent child more → R (t ++ more) t')

include hown

/-- A loop keeps the failure of a hidden child to itself, and only the child's own records are
added. -/
theorem exists_of_hidden {depth : Nat} (hdepth : depth ≤ limit) {name : String}
    {s s' : RunState ρ} {layers : List Layer} (hs : Alike W R s s')
    (hnone : s.session.failedFolder = none)
    (hhidden : hidden s.session.traversal.currentFolder name = true)
    (hlayers : Layer.after [] s.journal = .running .all :: layers)
    (hsound : e.IsSound W limit hidden (descend (e.process depth "") name) s) :
    ∃ t, isolate s.session.traversal.currentFolder name (descend (e.process depth "") name) s =
      (.ok (), t) ∧ Alike W R t s' := by
  obtain ⟨error, hresult, herror, htraversal, hworld⟩ :=
    hsound.2 _ name hhidden _ (mem_arrivals depth name hlayers) depth hdepth s hs.world rfl hnone
      hsound.1
  obtain ⟨notes, hcourse, hjournal, -⟩ :=
    follows_descend (follows_process e.lasts_true depth "") name s trivial
  obtain ⟨own, htrail⟩ :=
    exists_trail_eq_append hcourse.grows (hjournal ▸ List.prefix_append s.journal notes)
  have hchapter : e.IsChapter W s.session.traversal.currentFolder name _ :=
    ⟨depth, s, error, own, hs.world, rfl, hresult, herror, htrail, rfl⟩
  rw [isolate_apply]
  rcases hleft : descend (e.process depth "") name s with ⟨result, d⟩
  rw [hleft] at hresult htraversal hworld htrail
  cases hresult
  simp only [herror, if_true]
  refine ⟨_, rfl, hworld, hs.world', hs.traversal.trans htraversal.symm,
    hs.failedFolder.trans hnone, ?_⟩
  rw [RunState.trail_noted, RunState.trail_isolating, htrail, Trail.append_assoc,
    Trail.append_assoc]
  exact hown _ _ _ _ _ hhidden hs.trail hchapter

include hR

/-- A loop over children is the same without the hidden ones. -/
theorem parallels_descendEach {depth : Nat} (hdepth : depth ≤ limit) {inner' : Run ρ Unit}
    (hinner : e.Parallels W R limit hidden (e.process depth "") inner') (parent : RemotePath)
    (names : List String) {s s' : RunState ρ} {layers : List Layer} (hs : Alike W R s s')
    (hnone : s.session.failedFolder = none)
    (hparent : s.session.traversal.currentFolder = parent)
    (hlayers : Layer.after [] s.journal = .running .all :: layers)
    (hsound : e.IsSound W limit hidden (descendEach (e.process depth "") parent names) s) :
    (descendEach inner' parent (names.filter fun name ↦ !hidden parent name) s').1 =
        (descendEach (e.process depth "") parent names s).1 ∧
      Alike W R (descendEach (e.process depth "") parent names s).2
        (descendEach inner' parent (names.filter fun name ↦ !hidden parent name) s').2 := by
  induction names generalizing s s' with
  | nil => exact ⟨rfl, hs⟩
  | cons name names ih =>
    by_cases hname : name = ignoredFolder
    · -- It is passed over on both sides, whether or not it is hidden.
      have hsound' : e.IsSound W limit hidden
          (descendEach (e.process depth "") parent names) s := by
        rw [IsSound, descendEach_cons_apply, if_pos hname] at hsound
        exact hsound
      rw [descendEach_cons_apply, if_pos hname]
      cases hhidden : hidden parent name with
      | true =>
        rw [List.filter_cons_of_neg (by simp [hhidden])]
        exact ih hs hnone hparent hlayers hsound'
      | false =>
        rw [List.filter_cons_of_pos (by simp [hhidden]), descendEach_cons_apply, if_pos hname]
        exact ih hs hnone hparent hlayers hsound'
    obtain ⟨hchild, hrest⟩ := hsound.of_descendEach hname
    rw [descendEach_cons_apply, if_neg hname]
    cases hhidden : hidden parent name with
    | true =>
      subst hparent
      obtain ⟨t, hisolated, halike⟩ :=
        exists_of_hidden hown hdepth hs hnone hhidden hlayers hchild.of_isolate
      have ht := rests_of_isolate hnone hisolated
      rw [List.filter_cons_of_neg (by simp [hhidden]), hisolated]
      exact ih halike ht.failedFolder ht.currentFolder (ht.layers.trans hlayers) (hrest t hisolated)
    | false =>
      obtain ⟨hresult, halike⟩ := parallels_isolate hR (parallels_descend hR hinner name) parent
        name s s' hs hnone hchild
      rw [List.filter_cons_of_pos (by simp [hhidden]), descendEach_cons_apply, if_neg hname]
      rcases hleft : isolate parent name (descend (e.process depth "") name) s with ⟨stop | _, t⟩
      all_goals
        rcases hright : isolate parent name (descend inner' name) s' with ⟨_, t'⟩
        rw [hleft, hright] at hresult halike
        cases hresult
      · exact ⟨rfl, halike⟩
      · have ht := rests_of_isolate hnone hleft
        exact ih halike ht.failedFolder (ht.currentFolder.trans hparent)
          (ht.layers.trans hlayers) (hrest t hleft)

/-! ### Commands and folders -/

include hW

theorem parallels_descendAll {depth : Nat} (hdepth : depth ≤ limit) {inner' : Run ρ Unit}
    (hinner : e.Parallels W R limit hidden (e.process depth "") inner') {s s' : RunState ρ}
    {layers : List Layer} (hs : Alike W R s s') (hnone : s.session.failedFolder = none)
    (hlayers : Layer.after [] s.journal = .running .all :: layers)
    (hsound : e.IsSound W limit hidden (e.descendAll (e.process depth "")) s) :
    ((e.omitting hidden).descendAll inner' s').1 = (e.descendAll (e.process depth "") s).1 ∧
      Alike W R (e.descendAll (e.process depth "") s).2
        ((e.omitting hidden).descendAll inner' s').2 := by
  have hstore : (e.omitting hidden).store = e.store.omitting hidden := rfl
  obtain ⟨hnames, hworld⟩ :=
    hW.listDirectories s.session.traversal.currentFolder hs.world hs.world'
  obtain ⟨-, hworld'⟩ :=
    hW.listDirectories s.session.traversal.currentFolder hs.world' hs.world
  have hasked (world world' : World ρ) (hworld : W world) (hworld' : W world') :
      Alike W R
        { s.noted (.asked (.listDirectories s.session.traversal.currentFolder)) with world }
        { s'.noted (.asked (.listDirectories s.session.traversal.currentFolder)) with
          world := world' } :=
    { hs.noted hR (.asked (.listDirectories s.session.traversal.currentFolder)) with
      world := hworld
      world' := hworld' }
  rw [IsSound, descendAll_apply] at hsound
  rw [descendAll_apply, descendAll_apply, hs.traversal, hstore]
  dsimp only at hsound ⊢
  rw [Store.omitting_listDirectories, hnames]
  rcases hlisted : e.store.listDirectories s.session.traversal.currentFolder s.world with
    ⟨error | names, world⟩
  all_goals
    rw [hlisted] at hsound hworld
    dsimp only [Except.map] at hsound ⊢
  · exact ⟨rfl, (hasked _ _ hworld hworld').noted hR _⟩
  · have hasked_layers : Layer.after [] (s.noted (.asked (.listDirectories
        s.session.traversal.currentFolder))).journal = .running .all :: layers := by
      simp only [RunState.noted, Layer.after_append, hlayers]
      rfl
    exact parallels_descendEach hR hown hdepth hinner s.session.traversal.currentFolder names
      (hasked _ _ hworld hworld') hnone rfl hasked_layers hsound

theorem parallels_execute {depth : Nat} (hdepth : depth ≤ limit) {inner' : Run ρ Unit}
    (hinner : e.Parallels W R limit hidden (e.process depth "") inner') (command : Command)
    {s s' : RunState ρ} {layers : List Layer} (hs : Alike W R s s')
    (hnone : s.session.failedFolder = none)
    (hlayers : Layer.after [] s.journal = .running command :: layers)
    (hsound : e.IsSound W limit hidden (e.execute (e.process depth "") command) s) :
    ((e.omitting hidden).execute inner' command s').1 =
        (e.execute (e.process depth "") command s).1 ∧
      Alike W R (e.execute (e.process depth "") command s).2
        ((e.omitting hidden).execute inner' command s').2 := by
  have hcontent {part : Run ρ Unit} (hpart : Run.Mirrors W R part part) :
      (inContent s.session.traversal.currentFolder part s').1 =
          (inContent s.session.traversal.currentFolder part s).1 ∧
        Alike W R (inContent s.session.traversal.currentFolder part s).2
          (inContent s.session.traversal.currentFolder part s').2 :=
    (hpart.mapError _).raising hR s s' hs
  simp only [IsSound, execute, bind_apply, Run.session_apply] at hsound
  simp only [execute, bind_apply, Run.session_apply, hs.traversal]
  cases command with
  | identity person sendLog => exact mirrors_identify hR person sendLog s s' hs
  | changeFolder child => exact mirrors_changeFolder hR child s s' hs
  | singleFolder child folderType =>
    exact parallels_descend hR hinner child s s' hs hnone hsound
  | all => exact parallels_descendAll hW hR hown hdepth hinner hs hnone hlayers hsound
  | processStory => exact hcontent (mirrors_handOver hW hR _)
  | moveFiles target => exact hcontent (mirrors_handOver hW hR _)
  | moveSupportFiles target => exact hcontent (mirrors_transferSupport hW hR _ target)
  | updatePages =>
    dsimp only
    rw [omitting_updatePages]
    exact hcontent (mirrors_updatePages hW hR _)

theorem parallels_executeEach {depth : Nat} (hdepth : depth ≤ limit) {inner' : Run ρ Unit}
    (hinner : e.Parallels W R limit hidden (e.process depth "") inner')
    (commands : List Command) :
    e.Parallels W R limit hidden (e.executeEach (e.process depth "") commands)
      ((e.omitting hidden).executeEach inner' commands) := by
  induction commands with
  | nil => exact fun s s' hs _ _ ↦ ⟨rfl, hs⟩
  | cons command commands ih =>
    rintro s s' hs hnone ⟨hdeep, hhides⟩
    rw [executeEach_cons_apply] at hdeep hhides
    rw [executeEach_cons_apply, executeEach_cons_apply]
    have hlayers : Layer.after [] (s.noted (.started command)).journal =
        .running command :: Layer.after [] s.journal := by
      simp only [RunState.noted, Layer.after_append]
      rfl
    have hexecute := parallels_execute hW hR hown hdepth hinner command
      (hs.noted hR (.started command)) hnone hlayers
    obtain ⟨notes, hcourse, -⟩ := follows_execute e.lasts_true
      (follows_process e.lasts_true depth "") command (s.noted (.started command)) trivial
    rw [IsSound] at hexecute
    rcases hleft : e.execute (e.process depth "") command (s.noted (.started command)) with
      ⟨stop | _, t⟩
    all_goals
      rcases hright : (e.omitting hidden).execute inner' command (s'.noted (.started command)) with
        ⟨_, t'⟩
      rw [hleft] at hdeep hhides hcourse
      rw [hleft, hright] at hexecute
      dsimp only at hdeep hhides hexecute
    · obtain ⟨rfl, halike⟩ := hexecute ⟨hdeep, hhides.mono (List.prefix_append _ _)⟩
      exact ⟨rfl, halike.noted hR _⟩
    · obtain ⟨notes', -, hjournal, -⟩ := follows_executeEach e.lasts_true
        (follows_process e.lasts_true depth "") commands (t.noted (.ended command)) trivial
      have hfront : t.journal <+:
          (e.executeEach (e.process depth "") commands (t.noted (.ended command))).2.journal := by
        rw [hjournal, RunState.noted, List.append_assoc]
        exact List.prefix_append _ _
      obtain ⟨rfl, halike⟩ := hexecute ⟨by simp, hhides.mono hfront⟩
      exact ih _ _ (halike.noted hR _) (hcourse.failedFolder_eq_none hnone rfl) ⟨hdeep, hhides⟩

theorem parallels_processFolder {depth : Nat} (hdepth : depth ≤ limit) {inner' : Run ρ Unit}
    (hinner : e.Parallels W R limit hidden (e.process depth "") inner') {mark : String}
    (hmark : mark = "" ∨ mark = e.options.mark) :
    e.Parallels W R limit hidden (e.processFolder (e.process depth "") mark)
      ((e.omitting hidden).processFolder inner' mark) := by
  rintro s s' hs hnone ⟨hdeep, hhides⟩
  have hfolder : s'.session.traversal.currentFolder = s.session.traversal.currentFolder := by
    rw [hs.traversal]
  obtain ⟨hresult, hplanned⟩ := mirrors_plan hW hR s.session.traversal.currentFolder hmark _ _
    (hs.noted hR (.entered s.session.traversal.currentFolder))
  rcases hleft : e.plan s.session.traversal.currentFolder mark
    (s.noted (.entered s.session.traversal.currentFolder)) with ⟨stop | ⟨set, commands⟩, t⟩
  all_goals
    rcases hright : e.plan s.session.traversal.currentFolder mark
      (s'.noted (.entered s.session.traversal.currentFolder)) with ⟨_, t'⟩
    rw [hleft, hright] at hresult hplanned
    cases hresult
    rw [← hfolder] at hright
  · have hright' := processFolder_of_plan_error (e.omitting hidden) inner' hright
    rw [processFolder_of_plan_error e _ hleft, hright', hfolder]
    exact ⟨rfl, (hplanned.afterwards _ _).noted hR _⟩
  · have hright' := processFolder_of_plan_ok (e.omitting hidden) inner' hright
    rw [processFolder_of_plan_ok e _ hleft] at hdeep hhides
    rw [processFolder_of_plan_ok e _ hleft, hright', hfolder]
    dsimp only at hdeep hhides ⊢
    obtain ⟨_, _, -, -, -, hpasses⟩ := plan_planned
      (s := s.noted (.entered s.session.traversal.currentFolder)) e.lasts_true trivial hleft
    have hbegun := (hplanned.visiting hR s.session.traversal.currentFolder).noted hR
      (.planned s.session.traversal.currentFolder set commands)
    have hnone' : t.session.failedFolder = none := by
      rw [hpasses.session]
      exact hnone
    obtain ⟨hexecuted, halike⟩ := parallels_executeEach hW hR hown hdepth hinner commands _ _
      hbegun hnone' ⟨hdeep, hhides.mono (List.prefix_append _ _)⟩
    rw [hexecuted]
    exact ⟨rfl, (halike.afterwards _ _).noted hR _⟩

theorem parallels_process {depth : Nat} (hdepth : depth ≤ limit) {mark : String}
    (hmark : mark = "" ∨ mark = e.options.mark) :
    e.Parallels W R limit hidden (e.process depth mark) ((e.omitting hidden).process depth mark) := by
  induction depth generalizing mark with
  | zero => exact fun s s' _ _ hsound ↦ absurd rfl hsound.1
  | succ depth ih =>
    have hdepth' : depth ≤ limit := by omega
    exact parallels_processFolder hW hR hown hdepth' (ih hdepth' (.inl rfl)) hmark

end

/-! ## Independence -/

variable {W : World ρ → Prop}

/-- Where a descent leads depends only on where the run is. -/
theorem descend_alike (hW : e.IsSteady W) (limit : Nat) (child : String) {s s' : RunState ρ}
    (hs : Alike W (fun _ _ ↦ True) s s') (hnone : s.session.failedFolder = none)
    (hdeep : (descend (e.process limit "") child s).1 ≠ .error .tooDeep) :
    (descend (e.process limit "") child s').1 = (descend (e.process limit "") child s).1 ∧
      Alike W (fun _ _ ↦ True) (descend (e.process limit "") child s).2
        (descend (e.process limit "") child s').2 := by
  have hR : Trail.Lasts fun _ _ ↦ True := fun _ _ _ _ ↦ trivial
  have hprocess : e.Parallels W (fun _ _ ↦ True) limit (fun _ _ ↦ false)
      (e.process limit "") ((e.omitting fun _ _ ↦ false).process limit "") :=
    parallels_process hW hR (fun _ _ _ _ _ _ _ _ ↦ trivial) (Nat.le_refl limit) (.inl rfl)
  rw [omitting_nothing] at hprocess
  exact parallels_descend hR hprocess child s s' hs hnone ⟨hdeep, fun _ _ h ↦ nomatch h⟩

theorem failsFrom_of_failsAt (hW : e.IsSteady W) {limit : Nat} {w : World ρ} (hw : W w)
    {t : Traversal} {child : String} (h : e.failsAt limit w t child) :
    e.FailsFrom W limit t child := by
  intro depth hdepth s hs htraversal hnone hdeep
  let bare : RunState ρ := { world := w, session := { traversal := t } }
  obtain ⟨notes, hcourse, -⟩ :=
    follows_descend (follows_process e.lasts_true limit "") child bare trivial
  have hfolder := hcourse.currentFolder_descent
  have halike : Alike W (fun _ _ ↦ True) bare s := ⟨hw, hs, htraversal, hnone, trivial⟩
  have hframe := descend_alike hW limit child halike rfl
  -- Without the limit in its way the descent is the same with more room.
  have hlimit := extends_descend (extends_process hdepth "") child s hdeep
  rw [hlimit] at hframe
  change (match descend (e.process limit "") child bare with
    | (.error (.failed error), s) =>
      error.isRecoverable && s.session.traversal.topFolder = t.topFolder
    | _ => false) = true at h
  rcases hbare : descend (e.process limit "") child bare with ⟨(error | _) | _, b⟩
  all_goals
    rw [hbare] at h hframe hfolder
    dsimp only at h hframe hfolder
  · simp only [Bool.and_eq_true, decide_eq_true_eq] at h
    obtain ⟨hresult, hafter⟩ := hframe (by simp)
    refine ⟨error, hresult, h.1, ?_, hafter.world'⟩
    rw [hafter.traversal]
    exact congrArg₂ Traversal.mk h.2 hfolder
  · cases h
  · cases h

section

variable {manifests : List (Location × String)} {answer : Work → Except Error Unit}

/-- A download leaves at most a manifest in the scratch directory. -/
theorem isTidy_downloadFile (folder : RemotePath) {w : World Unit} (hw : w.IsTidy) :
    World.IsTidy ((answering manifests answer).store.downloadFile folder "commands.txt" "/tmp"
      w).2 := by
  have hjoin : LocalPath.join "/tmp" "commands.txt" = "/tmp/commands.txt" := by decide +kernel
  simp only [answering, overManifests, memoryStore, MemoryStore.guarded, List.find?_nil,
    bind_apply, Action.ofExcept, MemoryStore.prepare, MemoryStore.save, Action.change_apply]
  rcases MemoryStore.content (Tree.ofManifests manifests) folder "commands.txt" with _ | content
  · exact hw
  · dsimp only
    rw [hw.makeDirectories_eq]
    dsimp only
    rw [hjoin, hw.writeFile_eq]
    exact .inr ⟨content, rfl⟩

/-- Loading empties the scratch directory first, so it does not matter what was there. -/
theorem load_of_isTidy (folder : RemotePath) {w : World Unit} (hw : w.IsTidy) :
    Manifest.load (answering manifests answer).store "/tmp" folder "" { world := w } =
      Manifest.load (answering manifests answer).store "/tmp" folder ""
        { world := .withScratch } := by
  have hclear {w : World Unit} (hw : w.IsTidy) :
      (Inquiry.act (Action.change (·.clearDirectory "/tmp") FileFault.toError))
        { world := w } = (.ok (), ({ world := .withScratch } : Inquired Unit)) := by
    simp only [Inquiry.act, Action.change_apply, hw.clearDirectory_eq]
  simp only [Manifest.load, Manifest.fetchText, bind_apply, hclear hw, hclear (.inl rfl)]

/-- Loading keeps a world tidy. -/
theorem isTidy_load (folder : RemotePath) {w : World Unit} (hw : w.IsTidy) :
    World.IsTidy (Manifest.load (answering manifests answer).store "/tmp" folder ""
      { world := w }).2.world := by
  have hclear (w : World Unit) (hw : w.IsTidy) :
      World.IsTidy (Action.change (·.clearDirectory "/tmp") FileFault.toError w).2 := by
    rw [Action.change_apply, hw.clearDirectory_eq]
    exact .inl rfl
  have hname : Manifest.fileName "" = "commands.txt" := by decide +kernel
  refine (Manifest.asks_load hclear (fun w hw ↦ hw) (fun w hw ↦ ?_) { world := w } hw).1
  rw [hname]
  exact isTidy_downloadFile folder hw

/-- Over a tree in memory, and with a delegate whose answers are fixed, no answer depends on what
has been done before. -/
theorem isSteady_answering (manifests : List (Location × String))
    (answer : Work → Except Error Unit) : (answering manifests answer).IsSteady World.IsTidy where
  load folder mark h := by
    obtain rfl : mark = "" := h.elim id id
    intro w w' hw hw'
    refine ⟨?_, ?_, isTidy_load folder hw⟩
    · exact (congrArg Prod.fst (load_of_isTidy folder hw')).trans
        (congrArg Prod.fst (load_of_isTidy folder hw)).symm
    · exact (congrArg (·.2.requests) (load_of_isTidy folder hw')).trans
        (congrArg (·.2.requests) (load_of_isTidy folder hw)).symm
  files folder := fun w w' hw hw' ↦ ⟨rfl, rfl, hw⟩
  directories folder := fun w w' hw hw' ↦ ⟨rfl, rfl, hw⟩
  transfer folder target h := nomatch h
  delegate work := fun w w' hw hw' ↦ ⟨rfl, rfl, hw⟩

end

/-- The children `a` and `b` of `t` are stories. That of `a` fails. -/
def failingStory : Engine Unit :=
  answering
    [(["t"], "command_set: content\n---\ncommand: all\n"),
      (["t", "a"], "command_set: story\n---\ncommand: story\n"),
      (["t", "b"], "command_set: story\n---\ncommand: story\n")]
    fun work ↦ if work.folder = .ofText "t/a" then .error (.other "no document") else .ok ()

/-- The child `a` of `t` moves the top to itself before the story of a folder inside it fails. The
child `b` is a story. -/
def movingTop : Engine Unit :=
  answering
    [(["t"], "command_set: content\n---\ncommand: all\n"),
      (["t", "a"], "command_set: top\n---\ncommand: change_folder\nfolder: a\n---\n" ++
        "command: process_single_folder\nfolder: y\nfolder_type: story\n"),
      (["t", "a", "y"], "command_set: story\n---\ncommand: story\n"),
      (["t", "b"], "command_set: story\n---\ncommand: story\n")]
    fun work ↦ if work.folder = .ofText "t/a/y" then .error (.other "no document") else .ok ()

end Engine

end FolderCommands
