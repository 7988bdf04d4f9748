import FolderCommands.Proofs.Run.Equations
import FolderCommands.Proofs.Run.Worlds

/-!
# The engine keeps to its course

Whatever the store and the delegate answer, and however deep folders are nested, a run of the
engine notes, ends and leaves behind what the relation `Course` says.
-/

namespace FolderCommands.Engine

variable {ρ : Type} {e : Engine ρ} {W : World ρ → Prop}

/-- A part of a run that has taken the state `s` to `s'` by some events, the session unchanged. -/
structure Passes (W : World ρ → Prop) (s s' : RunState ρ) (events : List Event) : Prop where
  session : s'.session = s.session
  journal : s'.journal = s.journal ++ Journal.during s.session events
  world : W s'.world

theorem Passes.trans {s s' s'' : RunState ρ} {events events' : List Event}
    (h : Passes W s s' events) (h' : Passes W s' s'' events') :
    Passes W s s'' (events ++ events') where
  session := h'.session.trans h.session
  journal := by
    rw [h'.journal, h.journal, h.session, List.append_assoc, Journal.during, Journal.during,
      Journal.during, List.map_append]
  world := h'.world

theorem Passes.refl {s : RunState ρ} (h : W s.world) : Passes W s s [] where
  session := rfl
  journal := by rw [Journal.during, List.map_nil, List.append_nil]
  world := h

theorem Passes.noted {s s' : RunState ρ} {events : List Event} (h : Passes W s s' events)
    (event : Event) : Passes W s (s'.noted event) (events ++ [event]) :=
  h.trans ⟨rfl, rfl, h.world⟩

theorem passes_inquired {s : RunState ρ} {after : Inquired ρ} (h : W after.world) :
    Passes W s (s.inquired after) (after.requests.map .asked) :=
  ⟨rfl, rfl, h⟩

/-! ## Content work -/

theorem mapError_ne_tooDeep {α : Type} (x : Except Error α) :
    x.mapError Stop.failed ≠ .error .tooDeep := by
  intro hdeep
  cases x <;> cases hdeep

theorem handOver_passes (hW : e.Lasts W) (work : Work) (s : RunState ρ) (h : W s.world) :
    Passes W s (e.handOver work s).2 [.delegated work] ∧
      (e.handOver work s).1 ≠ .error .tooDeep := by
  simp only [handOver, bind_apply, Run.note_apply, Run.act_apply]
  exact ⟨⟨rfl, rfl, hW.delegate s.world work h⟩, mapError_ne_tooDeep _⟩

/-- Pages are handed over in order, up to the first that fails. -/
theorem updateEach_passes (hW : e.Lasts W) (folder : RemotePath) (files : List String)
    (s : RunState ρ) (h : W s.world) :
    (∃ done : List String, done <+: files ∧ Passes W s (e.updateEach folder files s).2
      (done.map fun file ↦ .delegated (.page folder file))) ∧
      (e.updateEach folder files s).1 ≠ .error .tooDeep := by
  induction files generalizing s with
  | nil => exact ⟨⟨[], List.nil_prefix, .refl h⟩, by simp [updateEach, pure_apply]⟩
  | cons file files ih =>
    obtain ⟨hfirst, hdeep⟩ := handOver_passes hW (.page folder file) s h
    simp only [updateEach, bind_apply]
    rcases hresult : e.handOver (.page folder file) s with ⟨stop | _, s'⟩
    · rw [hresult] at hfirst hdeep
      refine ⟨⟨[file], ?_, hfirst⟩, by simpa using hdeep⟩
      exact List.prefix_cons_inj file |>.2 List.nil_prefix
    · rw [hresult] at hfirst
      obtain ⟨⟨done, hdone, hrest⟩, hdeep'⟩ := ih s' hfirst.world
      refine ⟨⟨file :: done, ?_, hfirst.trans hrest⟩, hdeep'⟩
      exact List.prefix_cons_inj file |>.2 hdone

theorem updatePages_passes (hW : e.Lasts W) (folder : RemotePath) (s : RunState ρ)
    (h : W s.world) :
    (∃ events, e.ContentEvents folder .updatePages events ∧
      Passes W s (e.updatePages folder s).2 events) ∧
      (e.updatePages folder s).1 ≠ .error .tooDeep := by
  have hlisted := hW.files s.world folder h
  simp only [updatePages, bind_apply, Run.inquire_apply, Store.askFiles, Inquiry.ask]
  rcases hresult : e.store.listFiles folder s.world with ⟨result, world⟩
  rw [hresult] at hlisted
  have hfirst : Passes W s (s.inquired ⟨world, [.listFiles folder]⟩)
      [.asked (.listFiles folder)] := passes_inquired hlisted
  cases result with
  | error error =>
    refine ⟨⟨_, .pages [] (by simp), hfirst⟩, ?_⟩
    intro hdeep
    cases hdeep
  | ok files =>
    obtain ⟨⟨done, hdone, hrest⟩, hdeep⟩ :=
      updateEach_passes hW folder (files.filter isPage) _ hfirst.world
    refine ⟨⟨_, .pages done fun file hfile ↦ ?_, hfirst.trans hrest⟩, hdeep⟩
    exact (List.mem_filter.1 (hdone.subset hfile)).2

/-- Support files are fetched from their own folder, and once. -/
theorem transfer_requests (store : Store ρ) (scratchRoot : String) (folder : RemotePath)
    (target : String) (w : World ρ) :
    (Support.transfer store scratchRoot folder target { world := w }).2.requests = [] ∨
      (Support.transfer store scratchRoot folder target { world := w }).2.requests =
        [.downloadDirectory folder] := by
  simp only [Support.transfer, Inquiry.withScratch]
  cases w.disk.makeScratch scratchRoot "support" with
  | error fault => exact .inl rfl
  | ok made =>
    obtain ⟨scratch, disk⟩ := made
    simp only [bind_apply, Store.askDirectory, Inquiry.ask]
    rcases store.downloadDirectory folder scratch.path { w with disk } with ⟨_ | _, _⟩ <;>
      exact .inr rfl

theorem transferSupport_passes (hW : e.Lasts W) (folder : RemotePath) (target : String)
    (s : RunState ρ) (h : W s.world) :
    (∃ events, e.ContentEvents folder (.moveSupportFiles target) events ∧
      Passes W s (e.transferSupport folder target s).2 events) ∧
      (e.transferSupport folder target s).1 ≠ .error .tooDeep := by
  rw [transferSupport]
  split
  · exact ⟨⟨[], .noSupport target, .refl h⟩, by simp [pure_apply]⟩
  · rw [Run.inquire_apply]
    refine ⟨?_, mapError_ne_tooDeep _⟩
    have hpasses := passes_inquired (s := s) (hW.transfer s.world folder
      (Support.destination e.options.supportDirectory target) h)
    rcases transfer_requests e.store e.options.scratchRoot folder
      (Support.destination e.options.supportDirectory target) s.world with hnone | hone
    · rw [hnone] at hpasses
      exact ⟨[], .noSupport target, hpasses⟩
    · rw [hone] at hpasses
      exact ⟨[.asked (.downloadDirectory folder)], .support target, hpasses⟩

/-! ## Stages -/

/-- From any state whose world is as `W` says, a part of a run does what its stage may do. -/
def Follows (e : Engine ρ) (W : World ρ → Prop) (limit : Nat) (stage : Stage)
    (part : Run ρ Unit) : Prop :=
  ∀ s : RunState ρ, W s.world → ∃ notes,
    e.Course W limit stage s.session notes (part s).1 (part s).2.session ∧
      (part s).2.journal = s.journal ++ notes ∧ W (part s).2.world

/-- Content work that fails has its error noted. -/
theorem inContent_course {limit : Nat} {command : Command} {part : Run ρ Unit} {s : RunState ρ}
    (hpart : (∃ events, e.ContentEvents s.session.traversal.currentFolder command events ∧
      Passes W s (part s).2 events) ∧ (part s).1 ≠ .error .tooDeep) :
    ∃ notes, e.Course W limit (.command command) s.session notes
      (inContent s.session.traversal.currentFolder part s).1
      (inContent s.session.traversal.currentFolder part s).2.session ∧
      (inContent s.session.traversal.currentFolder part s).2.journal = s.journal ++ notes ∧
      W (inContent s.session.traversal.currentFolder part s).2.world := by
  obtain ⟨⟨events, hevents, hpasses⟩, hdeep⟩ := hpart
  rw [inContent_apply]
  rcases hresult : part s with ⟨(error | _) | _, s'⟩
  · rw [hresult] at hpasses
    have hraised := hpasses.noted
      (.raised (contentError s.session.traversal.currentFolder error))
    refine ⟨_, ?_, hraised.journal, hraised.world⟩
    simp only [hraised.session]
    exact .raised (.content hevents)
  · rw [hresult] at hdeep
    exact absurd rfl hdeep
  · rw [hresult] at hpasses
    refine ⟨_, ?_, hpasses.journal, hpasses.world⟩
    have hsession : s'.session = s.session := hpasses.session
    rw [hsession]
    exact .content hevents

theorem follows_descend {limit : Nat} {inner : Run ρ Unit}
    (hinner : e.Follows W limit (.folder "") inner) (child : String) :
    e.Follows W limit (.descent child) (descend inner child) := by
  intro s hs
  rw [descend_apply]
  dsimp only
  split
  · rename_i h
    obtain ⟨notes, hcourse, hjournal, hworld⟩ := hinner
      ((s.noted (.descended (s.session.traversal.currentFolder.join child))).updated
        (·.entering child)) hs
    refine ⟨_, .descent h hcourse, ?_, hworld⟩
    simp only [RunState.noted, RunState.updated] at hjournal ⊢
    rw [hjournal]
    simp only [List.append_assoc, List.cons_append, List.nil_append]
  · rename_i h
    exact ⟨_, .raised (.descent h), rfl, hs⟩

theorem follows_descendEach {limit : Nat} {inner : Run ρ Unit}
    (hinner : e.Follows W limit (.folder "") inner) (parent : RemotePath) (names : List String) :
    e.Follows W limit (.children parent names) (descendEach inner parent names) := by
  induction names with
  | nil =>
    intro s hs
    exact ⟨[], .noChild, by simp [descendEach, pure_apply], hs⟩
  | cons name names ih =>
    intro s hs
    rw [descendEach_cons_apply]
    split
    · rename_i h
      obtain ⟨notes, hcourse, hjournal, hworld⟩ := ih s hs
      exact ⟨notes, h ▸ .ignored hcourse, hjournal, hworld⟩
    rename_i hname
    obtain ⟨notes, hcourse, hjournal, hworld⟩ := follows_descend hinner name s hs
    rw [isolate_apply]
    rcases hresult : descend inner name s with ⟨(error | _) | _, s'⟩
    · rw [hresult] at hcourse hjournal hworld
      by_cases herror : error.isRecoverable = true
      · simp only [herror, if_true]
        obtain ⟨notes', hcourse', hjournal', hworld'⟩ := ih
          ((s'.updated (·.isolating (parent.join name) error)).noted
            (.isolated (parent.join name) error)) hworld
        refine ⟨_, .isolated hname hcourse herror hcourse', ?_, hworld'⟩
        rw [hjournal']
        simp only [RunState.noted, RunState.updated] at hjournal ⊢
        rw [hjournal]
        simp only [List.append_assoc, List.cons_append, List.nil_append]
      · simp only [herror]
        refine ⟨notes, .childStopped hname hcourse ?_, hjournal, hworld⟩
        intro error' h
        cases h
        simpa using herror
    · rw [hresult] at hcourse hjournal hworld
      exact ⟨notes, .childStopped hname hcourse (by simp), hjournal, hworld⟩
    · rw [hresult] at hcourse hjournal hworld
      obtain ⟨notes', hcourse', hjournal', hworld'⟩ := ih s' hworld
      refine ⟨_, .child hname hcourse hcourse', ?_, hworld'⟩
      rw [hjournal', hjournal, List.append_assoc]

theorem follows_descendAll (hW : e.Lasts W) {limit : Nat} {inner : Run ρ Unit}
    (hinner : e.Follows W limit (.folder "") inner) :
    e.Follows W limit (.command .all) (e.descendAll inner) := by
  intro s hs
  have hworld := hW.directories s.world s.session.traversal.currentFolder hs
  rw [descendAll_apply]
  dsimp only
  rcases hresult : e.store.listDirectories s.session.traversal.currentFolder s.world with
    ⟨error | names, world⟩
  · rw [hresult] at hworld
    refine ⟨_, .raised (.listing ⟨s.world, hs, congrArg Prod.fst hresult⟩), ?_, hworld⟩
    simp only [RunState.noted, Journal.during, List.append_assoc]
    rfl
  · rw [hresult] at hworld
    obtain ⟨notes, hcourse, hjournal, hworld'⟩ := follows_descendEach hinner
      s.session.traversal.currentFolder names { s.noted (.asked (.listDirectories
        s.session.traversal.currentFolder)) with world } hworld
    refine ⟨_, .all ⟨s.world, hs, congrArg Prod.fst hresult⟩ hcourse, ?_, hworld'⟩
    rw [hjournal]
    simp only [RunState.noted, List.append_assoc, List.cons_append, List.nil_append]

theorem follows_changeFolder {limit : Nat} (child : String) :
    e.Follows W limit (.command (.changeFolder child)) (changeFolder child) := by
  intro s hs
  rw [changeFolder_apply]
  dsimp only
  split
  · rename_i h
    exact ⟨[], .changeFolder h, by simp [RunState.updated], hs⟩
  · rename_i h
    exact ⟨_, .raised (.changeFolder h), rfl, hs⟩

theorem follows_execute (hW : e.Lasts W) {limit : Nat} {inner : Run ρ Unit}
    (hinner : e.Follows W limit (.folder "") inner) (command : Command) :
    e.Follows W limit (.command command) (e.execute inner command) := by
  intro s hs
  simp only [execute, bind_apply, Run.session_apply]
  cases command with
  | identity person sendLog => exact ⟨[], .identity, by simp [identify, Run.updateSession], hs⟩
  | changeFolder child => exact follows_changeFolder child s hs
  | singleFolder child folderType =>
    obtain ⟨notes, hcourse, hrest⟩ := follows_descend hinner child s hs
    exact ⟨notes, .singleFolder hcourse, hrest⟩
  | all => exact follows_descendAll hW hinner s hs
  | processStory =>
    obtain ⟨hpasses, hdeep⟩ := handOver_passes hW _ s hs
    exact inContent_course ⟨⟨_, .story, hpasses⟩, hdeep⟩
  | moveFiles target =>
    obtain ⟨hpasses, hdeep⟩ := handOver_passes hW _ s hs
    exact inContent_course ⟨⟨_, .files target, hpasses⟩, hdeep⟩
  | moveSupportFiles target => exact inContent_course (transferSupport_passes hW _ target s hs)
  | updatePages => exact inContent_course (updatePages_passes hW _ s hs)

theorem follows_executeEach (hW : e.Lasts W) {limit : Nat} {inner : Run ρ Unit}
    (hinner : e.Follows W limit (.folder "") inner) (commands : List Command) :
    e.Follows W limit (.commands commands) (e.executeEach inner commands) := by
  induction commands with
  | nil =>
    intro s hs
    exact ⟨[], .done, by simp [executeEach, pure_apply], hs⟩
  | cons command commands ih =>
    intro s hs
    obtain ⟨notes, hcourse, hjournal, hworld⟩ :=
      follows_execute hW hinner command (s.noted (.started command)) hs
    rw [executeEach_cons_apply]
    rcases hresult : e.execute inner command (s.noted (.started command)) with ⟨stop | _, s'⟩
    · rw [hresult] at hcourse hjournal hworld
      refine ⟨_, .stopped hcourse, ?_, hworld⟩
      simp only [RunState.noted] at hjournal ⊢
      rw [hjournal]
      simp only [List.append_assoc, List.cons_append, List.nil_append]
    · rw [hresult] at hcourse hjournal hworld
      obtain ⟨notes', hcourse', hjournal', hworld'⟩ := ih (s'.noted (.ended command)) hworld
      refine ⟨_, .next hcourse hcourse', ?_, hworld'⟩
      rw [hjournal']
      simp only [RunState.noted] at hjournal ⊢
      rw [hjournal]
      simp only [List.append_assoc, List.cons_append, List.nil_append]

/-! ## Folders -/

/-- A folder that is refused: its manifest does not load, or does not become a plan. -/
theorem plan_refused (hW : e.Lasts W) {mark : String} {s s' : RunState ρ} {stop : Stop}
    (hs : W s.world)
    (h : e.plan s.session.traversal.currentFolder mark s = (.error stop, s')) :
    ∃ events error, e.Refuses W mark s.session events error ∧ stop = .failed error ∧
      Passes W s s' (events ++ [.raised error]) := by
  rw [plan_apply] at h
  rcases hload : Manifest.load e.store e.scratch.path s.session.traversal.currentFolder mark
    { world := s.world } with ⟨error | manifest, after⟩
  all_goals
    have hworld : W after.world := by
      have := (hW.asks_load s.session.traversal.currentFolder mark { world := s.world } hs).1
      rwa [hload] at this
    have hpasses := passes_inquired (s := s) hworld
    rw [hload] at h
    dsimp only at h
  · cases h
    exact ⟨_, error, .unloaded ⟨s.world, hs, after, hload, rfl⟩, rfl, hpasses.noted _⟩
  · cases hplan : Plan.ofRecords manifest.commandSet manifest.records with
    | ok commands =>
      rw [hplan] at h
      cases h
    | error error =>
      rw [hplan] at h
      cases h
      exact ⟨_, error, .unplanned ⟨s.world, hs, after, hload, rfl⟩ hplan, rfl,
        (hpasses.noted _).noted _⟩

/-- A folder that is not refused has a manifest all of whose records have become commands. -/
theorem plan_planned (hW : e.Lasts W) {mark : String} {s s' : RunState ρ}
    {set : CommandSet} {commands : List Command} (hs : W s.world)
    (h : e.plan s.session.traversal.currentFolder mark s = (.ok (set, commands), s')) :
    ∃ manifest requests,
      e.Loads W s.session.traversal.currentFolder mark (.ok manifest) requests ∧
      Plan.ofRecords manifest.commandSet manifest.records = .ok commands ∧
      set = manifest.commandSet ∧
      Passes W s s'
        (requests.map .asked ++ [.loaded s.session.traversal.currentFolder manifest]) := by
  rw [plan_apply] at h
  rcases hload : Manifest.load e.store e.scratch.path s.session.traversal.currentFolder mark
    { world := s.world } with ⟨error | manifest, after⟩
  · rw [hload] at h
    cases h
  · have hworld : W after.world := by
      have := (hW.asks_load s.session.traversal.currentFolder mark { world := s.world } hs).1
      rwa [hload] at this
    rw [hload] at h
    dsimp only at h
    cases hplan : Plan.ofRecords manifest.commandSet manifest.records with
    | ok planned =>
      rw [hplan] at h
      cases h
      exact ⟨manifest, _, ⟨s.world, hs, after, hload, rfl⟩, hplan, rfl,
        (passes_inquired hworld).noted _⟩
    | error error =>
      rw [hplan] at h
      cases h

theorem follows_processFolder (hW : e.Lasts W) {limit : Nat} {inner : Run ρ Unit}
    (hinner : e.Follows W limit (.folder "") inner) (mark : String) :
    e.Follows W (limit + 1) (.folder mark) (e.processFolder inner mark) := by
  intro s hs
  let entered := s.noted (.entered s.session.traversal.currentFolder)
  have hentered : Passes W s entered [.entered s.session.traversal.currentFolder] :=
    (Passes.refl hs).noted _
  rcases hplan : e.plan s.session.traversal.currentFolder mark entered with
    ⟨stop | ⟨set, commands⟩, s'⟩
  · obtain ⟨events, error, hrefuses, rfl, hpasses⟩ := plan_refused (s := entered) hW hs hplan
    have hall := hentered.trans hpasses
    have hsession : s'.session = s.session := hall.session
    rw [processFolder_of_plan_error e inner hplan]
    simp only [RunState.noted, RunState.updated, afterwards, hsession]
    refine ⟨_, .refused hrefuses, ?_, hall.world⟩
    rw [hall.journal, List.append_assoc]
    rfl
  · obtain ⟨manifest, requests, hloads, hplanned, rfl, hpasses⟩ :=
      plan_planned (s := entered) hW hs hplan
    have hall := hentered.trans hpasses
    have hsession : s'.session = s.session := hall.session
    let begun := (s'.updated (·.visiting s.session.traversal.currentFolder)).noted
      (.planned s.session.traversal.currentFolder manifest.commandSet commands)
    obtain ⟨notes, hcourse, hjournal, hworld⟩ :=
      follows_executeEach hW hinner commands begun hall.world
    have hbegun : begun.session = s.session.visiting s.session.traversal.currentFolder :=
      congrArg (·.visiting s.session.traversal.currentFolder) hsession
    have hnoted : begun.journal = s'.journal ++ [⟨.planned s.session.traversal.currentFolder
        manifest.commandSet commands, begun.session⟩] := rfl
    rw [processFolder_of_plan_ok e inner hplan]
    rw [hbegun] at hcourse hnoted
    refine ⟨_, .executed hloads hplanned hcourse, ?_, hworld⟩
    change (e.executeEach inner commands begun).2.journal ++ [⟨.left _, afterwards _
      (e.executeEach inner commands begun).1 (e.executeEach inner commands begun).2.session⟩] = _
    rw [hjournal, hnoted, hall.journal]
    simp only [Journal.during, List.map_append, List.map_cons, List.map_nil, List.append_assoc,
      List.cons_append, List.nil_append]
    rfl

theorem follows_process (hW : e.Lasts W) (limit : Nat) (mark : String) :
    e.Follows W limit (.folder mark) (e.process limit mark) := by
  induction limit generalizing mark with
  | zero =>
    intro s hs
    exact ⟨[], .tooDeep, by simp [process], hs⟩
  | succ limit ih => exact follows_processFolder hW (ih "") mark

/-! ## Runs -/

/-- The journal of a run from a session. -/
def journal (e : Engine ρ) (limit : Nat) (w : World ρ) (s : Session) : Journal :=
  (e.processTop limit { world := w, session := s }).2.journal

theorem run_snd (limit : Nat) (occasion : Occasion) (s : RunState ρ) :
    (e.run limit occasion s).2 = (e.processTop limit s).2 := by
  simp only [run]
  split <;> simp only [*]

theorem journal_run (limit : Nat) (occasion : Occasion) (w : World ρ) (s : Session) :
    (e.run limit occasion { world := w, session := s }).2.journal = e.journal limit w s := by
  rw [run_snd, journal]

/-- There is no report only if folders are nested too deep. -/
theorem run_fst_eq_none (limit : Nat) (occasion : Occasion) (s : RunState ρ) :
    (e.run limit occasion s).1 = none ↔ (e.processTop limit s).1 = .error .tooDeep := by
  simp only [run]
  split <;> simp [*]

/-- Every run is a course from its top folder. -/
theorem exists_course (hW : e.Lasts W) (limit : Nat) (w : World ρ) (s : Session) (h : W w) :
    ∃ notes s', e.Course W limit (.folder e.options.mark) s.opened notes
        (e.processTop limit { world := w, session := s }).1 s' ∧
      e.journal limit w s = ⟨.begun, s.opened⟩ :: notes := by
  obtain ⟨notes, hcourse, hjournal, -⟩ := follows_process hW limit e.options.mark
    { world := w, session := s.opened, journal := [⟨.begun, s.opened⟩] } h
  exact ⟨notes, _, hcourse, hjournal⟩

end FolderCommands.Engine
