import FolderCommands.Proofs.Run.Growth
import FolderCommands.Proofs.Run.Memory
import Mathlib.Data.List.Basic

/-!
# Visits of a loop

A loop over the children of a folder is a row of visits. Each starts in the folder of the loop, in
the state that the visit before it has left, and goes down to the next listed name that is not
ignored. The loop goes on after a visit that ends well or in a failure of content, which it records;
any other visit is its last, and gives the loop its outcome.
-/

namespace FolderCommands.Engine

variable {ρ : Type}

/-- Going down to a child from one state to another. -/
structure Visit (ρ : Type) where
  name : String
  before : RunState ρ
  result : Except Stop Unit
  after : RunState ρ

namespace Visit

/-- Whether a loop goes on after a visit: it has ended well, or in a failure of content. -/
def passes (v : Visit ρ) : Bool :=
  match v.result with
  | .ok () => true
  | .error (.failed error) => error.isRecoverable
  | .error .tooDeep => false

/-- What a loop over the children of `parent` records of a visit. -/
def recorded (v : Visit ρ) (parent : RemotePath) : List FolderFailure :=
  match v.result with
  | .error (.failed error) =>
    if error.isRecoverable then [⟨(parent.join v.name).text, error.message⟩] else []
  | _ => []

/-- The failures that have been recorded inside the child. -/
def inside (v : Visit ρ) : List FolderFailure :=
  v.after.session.failures.drop v.before.session.failures.length

/-- The state in which a loop over the children of `parent` is after a visit. -/
def left (v : Visit ρ) (parent : RemotePath) : RunState ρ :=
  match v.result with
  | .error (.failed error) =>
    if error.isRecoverable then
      (v.after.updated (·.isolating (parent.join v.name) error)).noted
        (.isolated (parent.join v.name) error)
    else v.after
  | _ => v.after

/-- The visit to a child from a state. -/
def of (inner : Run ρ Unit) (name : String) (s : RunState ρ) : Visit ρ :=
  ⟨name, s, (descend inner name s).1, (descend inner name s).2⟩

variable {v : Visit ρ} {parent : RemotePath}

theorem result_ne_ok (h : v.passes = false) : v.result ≠ .ok () := by
  intro hresult
  rw [passes, hresult] at h
  cases h

theorem failures_left :
    (v.left parent).session.failures = v.after.session.failures ++ v.recorded parent := by
  rw [left, recorded]
  split
  · split
    · rfl
    · rw [List.append_nil]
  · rw [List.append_nil]

theorem currentFolder_left : (v.left parent).session.traversal.currentFolder =
    v.after.session.traversal.currentFolder := by
  rw [left]
  split
  · split <;> rfl
  · rfl

end Visit

/-- Visits in a row from one state to another, each from the folder `parent` and in the state that
the one before has left. -/
inductive Visits (inner : Run ρ Unit) (parent : RemotePath) :
    RunState ρ → List (Visit ρ) → RunState ρ → Prop
  | nil (s : RunState ρ) : Visits inner parent s [] s
  | cons {v : Visit ρ} {visits : List (Visit ρ)} {s' : RunState ρ}
      (h : descend inner v.name v.before = (v.result, v.after))
      (hparent : v.before.session.traversal.currentFolder = parent)
      (hrest : Visits inner parent (v.left parent) visits s') :
      Visits inner parent v.before (v :: visits) s'

variable {inner : Run ρ Unit} {parent : RemotePath}

theorem currentFolder_descend (inner : Run ρ Unit) (child : String) (s : RunState ρ) :
    (descend inner child s).2.session.traversal.currentFolder =
      s.session.traversal.currentFolder := by
  rw [descend_apply]
  dsimp only
  split <;> rfl

/-- One turn of a loop. -/
theorem isolate_descend_apply (inner : Run ρ Unit) (parent : RemotePath) (name : String)
    (s : RunState ρ) :
    isolate parent name (descend inner name) s =
      (if (Visit.of inner name s).passes then .ok () else (Visit.of inner name s).result,
        (Visit.of inner name s).left parent) := by
  rw [isolate_apply, Visit.passes, Visit.left, Visit.of]
  rcases descend inner name s with ⟨(error | _) | _, s'⟩
  · dsimp only
    split <;> simp_all
  · rfl
  · rfl

/-! ## Loops -/

/-- What the visits of a loop have to do with the names that it goes over and with its outcome: they
are to these names in their order, up to the first after which the loop does not go on. -/
structure IsLoop (names : List String) (visits : List (Visit ρ)) (result : Except Stop Unit) :
    Prop where
  initial : visits.map (·.name) <+: names
  goesOn : ∀ v ∈ visits.dropLast, v.passes = true
  ends : result = .ok () ↔ ∀ v ∈ visits, v.passes = true
  complete : result = .ok () → visits.map (·.name) = names
  stops : ∀ v ∈ visits, v.passes = false → result = v.result

namespace IsLoop

variable {names : List String} {visits : List (Visit ρ)} {result : Except Stop Unit} {v : Visit ρ}

theorem nil : IsLoop (ρ := ρ) [] [] (.ok ()) where
  initial := List.prefix_refl _
  goesOn := by simp
  ends := by simp
  complete _ := rfl
  stops := by simp

/-- A visit after which the loop goes on. -/
theorem cons (h : IsLoop names visits result) (hv : v.passes = true) :
    IsLoop (v.name :: names) (v :: visits) result where
  initial := List.cons_prefix_cons.2 ⟨rfl, h.initial⟩
  goesOn := by
    cases visits with
    | nil => simp
    | cons w visits => exact List.forall_mem_cons.2 ⟨hv, h.goesOn⟩
  ends := by rw [h.ends, List.forall_mem_cons, and_iff_right hv]
  complete hresult := congrArg (v.name :: ·) (h.complete hresult)
  stops := by
    refine List.forall_mem_cons.2 ⟨fun hstops ↦ ?_, h.stops⟩
    rw [hv] at hstops
    cases hstops

/-- A visit after which the loop stops. -/
theorem single (hv : v.passes = false) (names : List String) :
    IsLoop (v.name :: names) [v] v.result where
  initial := List.cons_prefix_cons.2 ⟨rfl, List.nil_prefix⟩
  goesOn := by simp
  ends := by simp [Visit.result_ne_ok hv, hv]
  complete hresult := absurd hresult (Visit.result_ne_ok hv)
  stops := List.forall_mem_singleton.2 fun _ ↦ rfl

end IsLoop

theorem visits_of {name : String} {s s' : RunState ρ} {visits : List (Visit ρ)}
    (hs : s.session.traversal.currentFolder = parent)
    (hrest : Visits inner parent ((Visit.of inner name s).left parent) visits s') :
    Visits inner parent s (Visit.of inner name s :: visits) s' :=
  .cons (v := Visit.of inner name s) rfl hs hrest

/-- A loop is a row of visits. -/
theorem exists_visits_descendEach (inner : Run ρ Unit) (names : List String) {s : RunState ρ}
    (hs : s.session.traversal.currentFolder = parent) :
    ∃ visits, Visits inner parent s visits (descendEach inner parent names s).2 ∧
      IsLoop (names.filter (· ≠ ignoredFolder)) visits (descendEach inner parent names s).1 := by
  induction names generalizing s with
  | nil => exact ⟨[], .nil s, .nil⟩
  | cons name names ih =>
    rw [descendEach_cons_apply]
    by_cases hname : name = ignoredFolder
    · rw [if_pos hname, List.filter_cons_of_neg (by simpa using hname)]
      exact ih hs
    · rw [if_neg hname, List.filter_cons_of_pos (by simpa using hname), isolate_descend_apply]
      cases hpasses : (Visit.of inner name s).passes with
      | true =>
        rw [if_pos rfl]
        dsimp only
        have hleft : ((Visit.of inner name s).left parent).session.traversal.currentFolder =
            parent := by
          rw [Visit.currentFolder_left, ← hs]
          exact currentFolder_descend inner name s
        obtain ⟨visits, hvisits, hloop⟩ := ih hleft
        exact ⟨_, visits_of hs hvisits, hloop.cons hpasses⟩
      | false =>
        rw [if_neg Bool.false_ne_true]
        have hloop := IsLoop.single hpasses (names.filter (· ≠ ignoredFolder))
        rcases hresult : (Visit.of inner name s).result with stop | _
        · rw [hresult] at hloop
          exact ⟨_, visits_of hs (.nil _), hloop⟩
        · exact absurd hresult (Visit.result_ne_ok hpasses)

/-! ## Failures -/

/-- What is recorded in a row of visits, if no visit takes back what has been recorded. -/
theorem Visits.failures_eq {s s' : RunState ρ} {visits : List (Visit ρ)}
    (h : Visits inner parent s visits s')
    (hgrows : ∀ name s, s.session.failures <+: (descend inner name s).2.session.failures) :
    (∀ v ∈ visits, v.after.session.failures = v.before.session.failures ++ v.inside) ∧
      s'.session.failures =
        s.session.failures ++ visits.flatMap fun v ↦ v.inside ++ v.recorded parent := by
  induction h with
  | nil s => exact ⟨by simp, (List.append_nil _).symm⟩
  | @cons v visits s' h hparent hrest ih =>
    obtain ⟨hall, hfailures⟩ := ih
    have hinside : v.after.session.failures = v.before.session.failures ++ v.inside := by
      have hprefix := hgrows v.name v.before
      rw [h] at hprefix
      exact (List.prefix_iff_eq_append.1 hprefix).symm
    refine ⟨List.forall_mem_cons.2 ⟨hinside, hall⟩, ?_⟩
    rw [hfailures, Visit.failures_left, hinside, List.flatMap_cons, List.append_assoc,
      List.append_assoc, List.append_assoc]

/-- If the directories of a folder are told, a loop over them is a row of visits to the names that
are not ignored, in their order, up to the first that ends neither well nor in a failure of content.
It ends well if and only if there is none such, and otherwise as that visit does. What it records
itself is each failure of content, behind what has been recorded inside the child. -/
theorem descendAll_visits (e : Engine ρ) (limit : Nat) {s : RunState ρ} {names : List String}
    {world : World ρ}
    (h : e.store.listDirectories s.session.traversal.currentFolder s.world = (.ok names, world)) :
    let parent := s.session.traversal.currentFolder
    let loop := e.descendAll (e.process limit "") s
    ∃ visits : List (Visit ρ),
      Visits (e.process limit "") parent
        { s.noted (.asked (.listDirectories parent)) with world } visits loop.2 ∧
      IsLoop (names.filter (· ≠ ignoredFolder)) visits loop.1 ∧
      (∀ v ∈ visits, v.after.session.failures = v.before.session.failures ++ v.inside) ∧
      loop.2.session.failures =
        s.session.failures ++ visits.flatMap fun v ↦ v.inside ++ v.recorded parent := by
  have hgrows (name : String) (s : RunState ρ) :
      s.session.failures <+: (descend (e.process limit "") name s).2.session.failures := by
    obtain ⟨notes, hcourse, -⟩ :=
      follows_descend (follows_process e.lasts_true limit "") name s trivial
    exact hcourse.grows.failures
  rw [descendAll_apply]
  dsimp only
  rw [h]
  obtain ⟨visits, hvisits, hloop⟩ := exists_visits_descendEach (e.process limit "") names
    (s := { s.noted (.asked (.listDirectories s.session.traversal.currentFolder)) with world }) rfl
  obtain ⟨hinside, hfailures⟩ := hvisits.failures_eq hgrows
  exact ⟨visits, hvisits, hloop, hinside, hfailures⟩

/-- In `t`, the story of `a` fails, `b` has no manifest, and `c` is a story. -/
def mixedChildren : Engine Unit :=
  answering
    [(["t", "a"], "command_set: story\n---\ncommand: story\n"),
      (["t", "ignore"], "command_set: story\n---\ncommand: story\n"),
      (["t", "b", "d"], "command_set: story\n---\ncommand: story\n"),
      (["t", "c"], "command_set: story\n---\ncommand: story\n")]
    fun work ↦ if work.folder = .ofText "t/a" then .error (.other "no document") else .ok ()

/-- The loop records the failure of the first child and ends with that of the second one. -/
theorem descendAll_visits_mixedChildren :
    mixedChildren.store.listDirectories (.ofText "t") .withScratch =
        (.ok ["a", "ignore", "b", "c"], .withScratch) ∧
      ∃ visits : List (Visit Unit), visits.map (·.name) <+: ["a", "b", "c"] ∧
        (∃ v ∈ visits, v.result = .error (.failed (.manifestMissing "t/b"))) ∧
        visits.flatMap (fun v ↦ v.inside ++ v.recorded (.ofText "t")) =
          [⟨"t/a", "Content processing failed in 't/a': no document"⟩] := by
  let s : RunState Unit := { world := .withScratch, session := .start (.ofText "t") }
  have hlist : mixedChildren.store.listDirectories (.ofText "t") .withScratch =
      (.ok ["a", "ignore", "b", "c"], .withScratch) :=
    Prod.ext (by decide +kernel) rfl
  have hrun : (mixedChildren.descendAll (mixedChildren.process 3 "") s).1 =
        .error (.failed (.manifestMissing "t/b")) ∧
      (mixedChildren.descendAll (mixedChildren.process 3 "") s).2.session.failures =
        [⟨"t/a", "Content processing failed in 't/a': no document"⟩] := by
    decide +kernel
  obtain ⟨visits, -, hloop, -, hfailures⟩ := descendAll_visits mixedChildren 3 (s := s) hlist
  have hstops : ∃ v ∈ visits, v.passes = false := by
    by_contra hnone
    have hok := hloop.ends.2 fun v hv ↦
      by_contra fun hpasses ↦ hnone ⟨v, hv, Bool.eq_false_iff.2 hpasses⟩
    rw [hrun.1] at hok
    cases hok
  obtain ⟨v, hv, hpasses⟩ := hstops
  have hresult := hloop.stops v hv hpasses
  exact ⟨hlist, visits, hloop.initial, ⟨v, hv, hresult.symm.trans hrun.1⟩,
    hfailures.symm.trans hrun.2⟩

end FolderCommands.Engine
