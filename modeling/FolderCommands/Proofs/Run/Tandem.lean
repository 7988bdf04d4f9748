import FolderCommands.Proofs.Run.Adherence

/-!
# Runs in tandem

Two engines that differ at most in whether they are dry run in tandem as long as the transfers of
support files on one side do no harm to the other. Every other part of a run then comes to the same
on both sides, and what is noted differs at most in the folders that the store was asked to copy.
-/

namespace FolderCommands

/-- A journal without the requests to copy a folder. -/
def Journal.withoutCopies (journal : Journal) : Journal :=
  journal.filter fun note ↦
    match note.event with
    | .asked (.downloadDirectory _) => false
    | _ => true

namespace Journal

theorem withoutCopies_append (journal more : Journal) :
    withoutCopies (journal ++ more) = journal.withoutCopies ++ more.withoutCopies :=
  List.filter_append ..

/-- Requests to copy a folder are no work for the delegate. -/
theorem work_withoutCopies (journal : Journal) : journal.withoutCopies.work = journal.work := by
  induction journal with
  | nil => rfl
  | cons note journal ih =>
    obtain ⟨event, s⟩ := note
    cases event with
    | asked request => cases request <;> exact ih
    | delegated work => exact congrArg (work :: ·) ih
    | _ => exact ih

end Journal

/-- Whether an inquiry comes to the same in worlds that `V` relates, and leaves such worlds. -/
def Inquiry.Agrees {ρ α : Type} (V : World ρ → World ρ → Prop) (inquiry : Inquiry ρ α) : Prop :=
  ∀ w w', V w w' →
    (inquiry { world := w' }).1 = (inquiry { world := w }).1 ∧
    (inquiry { world := w' }).2.requests = (inquiry { world := w }).2.requests ∧
    V (inquiry { world := w }).2.world (inquiry { world := w' }).2.world

/-- Whether all that an engine asks and hands over, transfers of support files apart, comes to the
same in worlds that `V` relates. -/
structure Engine.AnswersAlike {ρ : Type} (e : Engine ρ) (V : World ρ → World ρ → Prop) : Prop where
  load (folder : RemotePath) (mark : String) :
    (Manifest.load e.store e.scratch.path folder mark).Agrees V
  files (folder : RemotePath) : (e.store.askFiles folder).Agrees V
  directories (folder : RemotePath) : (e.store.askDirectories folder).Agrees V
  delegate (work : Work) : (Inquiry.act (e.delegate work)).Agrees V

/-- States with the same session, in worlds that `V` relates. -/
structure Abreast {ρ : Type} (V : World ρ → World ρ → Prop) (s s' : RunState ρ) : Prop where
  worlds : V s.world s'.world
  session : s'.session = s.session
  journal : s'.journal.withoutCopies = s.journal.withoutCopies

section

variable {ρ : Type} {V : World ρ → World ρ → Prop} {s s' : RunState ρ}

theorem Abreast.noted (h : Abreast V s s') (event : Event) :
    Abreast V (s.noted event) (s'.noted event) where
  worlds := h.worlds
  session := h.session
  journal := by
    rw [RunState.noted, RunState.noted, Journal.withoutCopies_append,
      Journal.withoutCopies_append, h.session, h.journal]

theorem Abreast.updated (h : Abreast V s s') (f : Session → Session) :
    Abreast V (s.updated f) (s'.updated f) where
  worlds := h.worlds
  session := congrArg f h.session
  journal := h.journal

theorem Abreast.inquired (h : Abreast V s s') {after after' : Inquired ρ}
    (hworlds : V after.world after'.world) (hrequests : after'.requests = after.requests) :
    Abreast V (s.inquired after) (s'.inquired after') where
  worlds := hworlds
  session := h.session
  journal := by
    rw [RunState.inquired, RunState.inquired, Journal.withoutCopies_append,
      Journal.withoutCopies_append, h.session, h.journal, hrequests]

end

/-! ## Parts without transfers -/

/-- Parts that come to the same in states abreast and leave such states. -/
def Run.Agrees {ρ α : Type} (V : World ρ → World ρ → Prop) (part part' : Run ρ α) : Prop :=
  ∀ s s', Abreast V s s' → (part' s').1 = (part s).1 ∧ Abreast V (part s).2 (part' s').2

namespace Run.Agrees

variable {ρ α β : Type} {V : World ρ → World ρ → Prop}

theorem bind {part part' : Run ρ α} {next next' : α → Run ρ β} (h : Agrees V part part')
    (hnext : ∀ a, Agrees V (next a) (next' a)) : Agrees V (part >>= next) (part' >>= next') :=
  Relates.bind h hnext

theorem note (event : Event) : Agrees V (Run.note event : Run ρ Unit) (Run.note event) :=
  fun _ _ hs ↦ ⟨rfl, hs.noted event⟩

theorem updateSession (f : Session → Session) :
    Agrees V (Run.updateSession f : Run ρ Unit) (Run.updateSession f) :=
  fun _ _ hs ↦ ⟨rfl, hs.updated f⟩

theorem act {action : Action ρ α} (h : (Inquiry.act action).Agrees V) :
    Agrees V (Run.act action) (Run.act action) := by
  intro s s' hs
  obtain ⟨hresult, -, hworlds⟩ := h s.world s'.world hs.worlds
  exact ⟨congrArg (·.mapError Stop.failed) hresult, hworlds, hs.session, hs.journal⟩

theorem inquire {inquiry : Inquiry ρ α} (h : inquiry.Agrees V) :
    Agrees V (Run.inquire inquiry) (Run.inquire inquiry) := by
  intro s s' hs
  obtain ⟨hresult, hrequests, hworlds⟩ := h s.world s'.world hs.worlds
  rw [inquire_apply, inquire_apply]
  exact ⟨congrArg (·.mapError Stop.failed) hresult, hs.inquired hworlds hrequests⟩

theorem raising {part part' : Run ρ α} (h : Agrees V part part') :
    Agrees V part.raising part'.raising :=
  Relates.raising h fun error ↦ note (.raised error)

theorem inContent {part part' : Run ρ Unit} (h : Agrees V part part') (folder : RemotePath) :
    Agrees V (Engine.inContent folder part) (Engine.inContent folder part') :=
  raising (Relates.mapError h (Engine.contentError folder))

end Run.Agrees

namespace Engine

open Run

variable {ρ : Type} {e : Engine ρ} {V : World ρ → World ρ → Prop}

/-- The engine, set to leave support files where they are or to copy them. -/
def withDryRun (e : Engine ρ) (dry : Bool) : Engine ρ :=
  { e with options := { e.options with dryRun := dry } }

theorem agrees_changeFolder (child : String) :
    Agrees V (changeFolder child : Run ρ Unit) (changeFolder child) := by
  intro s s' hs
  rw [changeFolder_apply, changeFolder_apply, hs.session]
  dsimp only
  split
  · exact ⟨rfl, hs.updated fun session ↦
      { session with traversal := session.traversal.changeFolder child }⟩
  · exact ⟨rfl, hs.noted _⟩

variable (he : e.AnswersAlike V) (dry dry' : Bool)

include he

theorem agrees_handOver (work : Work) :
    Agrees V ((e.withDryRun dry).handOver work) ((e.withDryRun dry').handOver work) :=
  (Agrees.note _).bind fun _ ↦ .act (he.delegate work)

theorem agrees_updatePages (folder : RemotePath) :
    Agrees V ((e.withDryRun dry).updatePages folder) ((e.withDryRun dry').updatePages folder) := by
  apply (Agrees.inquire (he.files folder)).bind
  intro files
  induction files.filter isPage with
  | nil => exact fun _ _ hs ↦ ⟨rfl, hs⟩
  | cons file files ih => exact (agrees_handOver he dry dry' _).bind fun _ ↦ ih

theorem agrees_plan (folder : RemotePath) (mark : String) :
    Agrees V ((e.withDryRun dry).plan folder mark) ((e.withDryRun dry').plan folder mark) := by
  apply (Agrees.raising (.inquire (he.load folder mark))).bind
  intro manifest
  apply (Agrees.note _).bind
  intro _
  cases Plan.ofRecords manifest.commandSet manifest.records with
  | ok commands => exact fun _ _ hs ↦ ⟨rfl, hs⟩
  | error error => exact .raising fun _ _ hs ↦ ⟨rfl, hs⟩

omit he

/-! ## Parts with transfers -/

/-- Parts that come to the same in states abreast if the first one's journal is as `P` says. -/
def Tracks (V : World ρ → World ρ → Prop) (P : Journal → Prop) (part part' : Run ρ Unit) : Prop :=
  ∀ s s', Abreast V s s' → P (part s).2.journal →
    (part' s').1 = (part s).1 ∧ Abreast V (part s).2 (part' s').2

/-- Whether transfers of support files do no harm: up to the end of the command, if the journal is
then as `P` says, they keep runs abreast. -/
def SparesTransfers (e : Engine ρ) (V : World ρ → World ρ → Prop) (P : Journal → Prop)
    (dry dry' : Bool) : Prop :=
  ∀ folder target s s', Abreast V s s' →
    P ((inContent folder ((e.withDryRun dry).transferSupport folder target) s).2.noted
      (.ended (.moveSupportFiles target))).journal →
    (inContent folder ((e.withDryRun dry').transferSupport folder target) s').1 =
        (inContent folder ((e.withDryRun dry).transferSupport folder target) s).1 ∧
      Abreast V (inContent folder ((e.withDryRun dry).transferSupport folder target) s).2
        (inContent folder ((e.withDryRun dry').transferSupport folder target) s').2

variable {P : Journal → Prop} (hP : ∀ notes notes', notes <+: notes' → P notes' → P notes)
  {inner inner' : Run ρ Unit}

include hP

theorem tracks_descend (hinner : Tracks V P inner inner') (child : String) :
    Tracks V P (descend inner child) (descend inner' child) := by
  intro s s' hs hjournal
  rw [descend_apply] at hjournal
  rw [descend_apply, descend_apply, hs.session]
  dsimp only at hjournal ⊢
  split
  · rename_i hbelow
    rw [if_pos hbelow] at hjournal
    obtain ⟨hresult, habreast⟩ := hinner _ _ ((hs.noted _).updated (·.entering child))
      (hP _ _ (List.prefix_append _ _) hjournal)
    exact ⟨hresult, (habreast.updated _).noted _⟩
  · exact ⟨rfl, hs.noted _⟩

theorem tracks_isolate {part part' : Run ρ Unit} (hpart : Tracks V P part part')
    (parent : RemotePath) (child : String) :
    Tracks V P (isolate parent child part) (isolate parent child part') := by
  intro s s' hs hjournal
  have hback : P (part s).2.journal := by
    rw [isolate_apply] at hjournal
    rcases hleft : part s with ⟨(error | _) | _, t⟩
    all_goals
      rw [hleft] at hjournal
      dsimp only at hjournal
    · split at hjournal
      · exact hP _ _ (List.prefix_append _ _) hjournal
      · exact hjournal
    · exact hjournal
    · exact hjournal
  obtain ⟨result, t, t', hleft, hright, habreast⟩ := Relates.exists_result (hpart s s' hs hback)
  rw [isolate_apply, isolate_apply, hleft, hright]
  rcases result with (error | _) | _
  all_goals dsimp only
  · split
    · exact ⟨rfl, (habreast.updated _).noted _⟩
    · exact ⟨rfl, habreast⟩
  · exact ⟨rfl, habreast⟩
  · exact ⟨rfl, habreast⟩

section

variable {dry dry' : Bool} {depth : Nat}
  (hinner : Tracks V P ((e.withDryRun dry).process depth "") inner')

include hinner

theorem tracks_descendEach (parent : RemotePath) (names : List String) :
    Tracks V P (descendEach ((e.withDryRun dry).process depth "") parent names)
      (descendEach inner' parent names) := by
  induction names with
  | nil => exact fun s s' hs _ ↦ ⟨rfl, hs⟩
  | cons name names ih =>
    intro s s' hs hjournal
    rw [descendEach_cons_apply] at hjournal ⊢
    rw [descendEach_cons_apply]
    by_cases hname : name = ignoredFolder
    · rw [if_pos hname] at hjournal ⊢
      rw [if_pos hname]
      exact ih s s' hs hjournal
    rw [if_neg hname] at hjournal ⊢
    rw [if_neg hname]
    have hchild := tracks_isolate hP (tracks_descend hP hinner name) parent name s s' hs
    rcases hleft : isolate parent name (descend ((e.withDryRun dry).process depth "") name) s with
      ⟨stop | _, t⟩
    all_goals
      rcases hright : isolate parent name (descend inner' name) s' with ⟨_, t'⟩
      rw [hleft] at hjournal
      rw [hleft, hright] at hchild
      dsimp only at hjournal hchild
    · obtain ⟨rfl, habreast⟩ := hchild hjournal
      exact ⟨rfl, habreast⟩
    · obtain ⟨notes, -, hnotes, -⟩ := follows_descendEach
        (follows_process (e.withDryRun dry).lasts_true depth "") parent names t trivial
      obtain ⟨rfl, habreast⟩ := hchild
        (hP _ _ (hnotes ▸ List.prefix_append _ _) hjournal)
      exact ih t t' habreast hjournal

include he

theorem tracks_descendAll :
    Tracks V P ((e.withDryRun dry).descendAll ((e.withDryRun dry).process depth ""))
      ((e.withDryRun dry').descendAll inner') := by
  intro s s' hs hjournal
  obtain ⟨hnames, -, hworlds⟩ :=
    he.directories s.session.traversal.currentFolder s.world s'.world hs.worlds
  have hasked (world world' : World ρ) (h : V world world') : Abreast V
      { s.noted (.asked (.listDirectories s.session.traversal.currentFolder)) with world }
      { s'.noted (.asked (.listDirectories s.session.traversal.currentFolder)) with
        world := world' } :=
    { hs.noted (.asked (.listDirectories s.session.traversal.currentFolder)) with worlds := h }
  have hstore (dry : Bool) : (e.withDryRun dry).store = e.store := rfl
  change (e.store.listDirectories s.session.traversal.currentFolder s'.world).1 =
    (e.store.listDirectories s.session.traversal.currentFolder s.world).1 at hnames
  change V (e.store.listDirectories s.session.traversal.currentFolder s.world).2
    (e.store.listDirectories s.session.traversal.currentFolder s'.world).2 at hworlds
  rw [descendAll_apply, hstore] at hjournal
  rw [descendAll_apply, descendAll_apply, hs.session, hstore, hstore]
  dsimp only at hjournal ⊢
  rcases hleft : e.store.listDirectories s.session.traversal.currentFolder s.world with
    ⟨error | names, world⟩
  all_goals
    rcases hright : e.store.listDirectories s.session.traversal.currentFolder s'.world with
      ⟨_, world'⟩
    rw [hleft] at hjournal
    rw [hleft, hright] at hnames hworlds
    cases hnames
    dsimp only at hjournal ⊢
  · exact ⟨rfl, (hasked _ _ hworlds).noted _⟩
  · exact tracks_descendEach hP hinner _ names _ _ (hasked _ _ hworlds) hjournal

variable (hspares : e.SparesTransfers V P dry dry')

include hspares

/-- A command keeps runs abreast if the journal is as `P` says at its end. -/
theorem abreast_execute (command : Command) {s s' : RunState ρ} (hs : Abreast V s s')
    (hjournal : P (((e.withDryRun dry).execute ((e.withDryRun dry).process depth "") command s).2.noted
      (.ended command)).journal) :
    ((e.withDryRun dry').execute inner' command s').1 =
        ((e.withDryRun dry).execute ((e.withDryRun dry).process depth "") command s).1 ∧
      Abreast V ((e.withDryRun dry).execute ((e.withDryRun dry).process depth "") command s).2
        ((e.withDryRun dry').execute inner' command s').2 := by
  have hbefore := hP _ _ (List.prefix_append _ _) hjournal
  simp only [execute, bind_apply, Run.session_apply] at hjournal hbefore
  simp only [execute, bind_apply, Run.session_apply, hs.session]
  cases command with
  | identity person sendLog => exact Agrees.updateSession _ s s' hs
  | changeFolder child => exact agrees_changeFolder child s s' hs
  | singleFolder child folderType => exact tracks_descend hP hinner child s s' hs hbefore
  | all => exact tracks_descendAll he hP hinner s s' hs hbefore
  | processStory => exact (agrees_handOver he dry dry' _).inContent _ s s' hs
  | moveFiles target => exact (agrees_handOver he dry dry' _).inContent _ s s' hs
  | moveSupportFiles target => exact hspares _ target s s' hs hjournal
  | updatePages => exact (agrees_updatePages he dry dry' _).inContent _ s s' hs

theorem tracks_executeEach (commands : List Command) :
    Tracks V P ((e.withDryRun dry).executeEach ((e.withDryRun dry).process depth "") commands)
      ((e.withDryRun dry').executeEach inner' commands) := by
  induction commands with
  | nil => exact fun s s' hs _ ↦ ⟨rfl, hs⟩
  | cons command commands ih =>
    intro s s' hs hjournal
    rw [executeEach_cons_apply] at hjournal ⊢
    rw [executeEach_cons_apply]
    have hexecute := abreast_execute he hP hinner hspares command (hs.noted (.started command))
    rcases hleft : (e.withDryRun dry).execute ((e.withDryRun dry).process depth "") command
      (s.noted (.started command)) with ⟨stop | _, t⟩
    all_goals
      rcases hright : (e.withDryRun dry').execute inner' command (s'.noted (.started command)) with
        ⟨_, t'⟩
      rw [hleft] at hjournal
      rw [hleft, hright] at hexecute
      dsimp only at hjournal hexecute
    · obtain ⟨rfl, habreast⟩ := hexecute hjournal
      exact ⟨rfl, habreast.noted _⟩
    · obtain ⟨notes, -, hnotes, -⟩ := follows_executeEach (e.withDryRun dry).lasts_true
        (follows_process (e.withDryRun dry).lasts_true depth "") commands
        (t.noted (.ended command)) trivial
      obtain ⟨rfl, habreast⟩ := hexecute
        (hP _ _ (hnotes ▸ List.prefix_append _ _) hjournal)
      exact ih _ _ (habreast.noted _) hjournal

theorem tracks_processFolder (mark : String) :
    Tracks V P ((e.withDryRun dry).processFolder ((e.withDryRun dry).process depth "") mark)
      ((e.withDryRun dry').processFolder inner' mark) := by
  intro s s' hs hjournal
  obtain ⟨hresult, hplanned⟩ := agrees_plan he dry dry' s.session.traversal.currentFolder mark _ _
    (hs.noted (.entered s.session.traversal.currentFolder))
  rcases hleft : (e.withDryRun dry).plan s.session.traversal.currentFolder mark
    (s.noted (.entered s.session.traversal.currentFolder)) with ⟨stop | ⟨set, commands⟩, t⟩
  all_goals
    rcases hright : (e.withDryRun dry').plan s.session.traversal.currentFolder mark
      (s'.noted (.entered s.session.traversal.currentFolder)) with ⟨_, t'⟩
    rw [hleft, hright] at hresult hplanned
    cases hresult
    rw [← hs.session] at hright
  · have hright' := processFolder_of_plan_error (e.withDryRun dry') inner' hright
    rw [processFolder_of_plan_error _ _ hleft, hright', hs.session]
    exact ⟨rfl, (hplanned.updated _).noted _⟩
  · have hright' := processFolder_of_plan_ok (e.withDryRun dry') inner' hright
    rw [processFolder_of_plan_ok _ _ hleft] at hjournal
    rw [processFolder_of_plan_ok _ _ hleft, hright', hs.session]
    dsimp only at hjournal ⊢
    obtain ⟨hexecuted, habreast⟩ := tracks_executeEach he hP hinner hspares commands _ _
      ((hplanned.updated (·.visiting s.session.traversal.currentFolder)).noted
        (.planned s.session.traversal.currentFolder set commands))
      (hP _ _ (List.prefix_append _ _) hjournal)
    rw [hexecuted]
    exact ⟨rfl, (habreast.updated _).noted _⟩

omit hinner

theorem tracks_process (depth : Nat) (mark : String) :
    Tracks V P ((e.withDryRun dry).process depth mark) ((e.withDryRun dry').process depth mark) := by
  induction depth generalizing mark with
  | zero => exact fun s s' hs _ ↦ ⟨rfl, hs⟩
  | succ depth ih => exact tracks_processFolder he hP (ih "") hspares mark

/-- Runs in tandem come to the same report. -/
theorem run_abreast (limit : Nat) (occasion : Occasion) (session : Session) {w w' : World ρ}
    (hw : V w w')
    (hjournal : P ((e.withDryRun dry).run limit occasion { world := w, session }).2.journal) :
    ((e.withDryRun dry').run limit occasion { world := w', session }).1 =
        ((e.withDryRun dry).run limit occasion { world := w, session }).1 ∧
      Abreast V ((e.withDryRun dry).run limit occasion { world := w, session }).2
        ((e.withDryRun dry').run limit occasion { world := w', session }).2 := by
  obtain ⟨hresult, habreast⟩ : ((e.withDryRun dry').processTop limit { world := w', session }).1 =
        ((e.withDryRun dry).processTop limit { world := w, session }).1 ∧
      Abreast V ((e.withDryRun dry).processTop limit { world := w, session }).2
        ((e.withDryRun dry').processTop limit { world := w', session }).2 := by
    rw [run_snd] at hjournal
    exact tracks_process he hP hspares limit e.options.mark
      { world := w, session := session.opened, journal := [⟨.begun, session.opened⟩] }
      { world := w', session := session.opened, journal := [⟨.begun, session.opened⟩] }
      ⟨hw, rfl, rfl⟩ hjournal
  rw [run_snd, run_snd]
  refine ⟨?_, habreast⟩
  simp only [run]
  rcases hleft : (e.withDryRun dry).processTop limit { world := w, session } with
    ⟨(error | _) | _, t⟩
  all_goals
    rcases hright : (e.withDryRun dry').processTop limit { world := w', session } with ⟨_, t'⟩
    rw [hleft, hright] at hresult habreast
    cases hresult
    have hsession : t'.session = t.session := habreast.session
    simp only [hsession]

end

end Engine

end FolderCommands
