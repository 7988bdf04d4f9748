import FolderCommands.Proofs.Run.Accounting

/-!
# The folder to blame

A run keeps one folder to blame. It is set by the innermost folder that an error leaves, kept by
the folders around it, and cleared when a loop over children keeps the error to itself. So there
is none as long as no error is under way, and the report of an aborted run names the folder in
which its error has arisen, whatever has been kept before.
-/

namespace FolderCommands

namespace Engine

variable {ρ : Type} {e : Engine ρ} {W : World ρ → Prop}

/-- A stage that starts without a folder to blame and does not fail ends without one. -/
theorem Course.failedFolder_eq_none {limit : Nat} {stage : Stage} {s s' : Session}
    {notes : Journal} {result : Except Stop Unit}
    (h : e.Course W limit stage s notes result s') (hs : s.failedFolder = none)
    (hresult : failedWith? result = none) : s'.failedFolder = none := by
  induction h with
  | raised | refused => cases hresult
  | tooDeep | done | identity | changeFolder | content | noChild => exact hs
  | executed h hplan hcommands ih =>
    rename_i result
    rcases result with (_ | _) | _
    · cases hresult
    · exact ih hs hresult
    · exact ih hs hresult
  | next h hrest ih ihrest | child hname h hrest ih ihrest => exact ihrest (ih hs rfl) hresult
  | isolated hname h herror hrest ih ihrest => exact ihrest rfl hresult
  | stopped h ih | singleFolder h ih | all h hchildren ih | descent h hfolder ih | ignored h ih
  | childStopped hname h hstop ih => exact ih hs hresult

/-! ## Where an error has arisen -/

/-- Whether the notes end with an error, after which the run only comes back, and `failed` is right
about where: it is the folder that was innermost when the error arose, or there is none yet and
that folder is the one in which the notes begin. -/
def Blames (p : Place) (notes : Journal) (failed : Option RemotePath) (error : Error) : Prop :=
  ∃ before s after a rest, notes = before ++ ⟨.raised error, s⟩ :: after ∧
    (∀ note ∈ after, note.event.isQuiet) ∧ (p.after before).active = a :: rest ∧
    (failed = some a.folder ∨ failed = none ∧ a :: rest = p.active)

section

variable {p p' : Place} {notes : Journal} {failed : Option RemotePath} {error : Error}

theorem Blames.prepend (h : Blames p' notes failed error) (front : Journal)
    (hafter : p.after front = p') (hactive : p'.active = p.active) :
    Blames p (front ++ notes) failed error := by
  obtain ⟨before, s, after, a, rest, rfl, hquiet, ha, hfailed⟩ := h
  refine ⟨front ++ before, s, after, a, rest, (List.append_assoc ..).symm, hquiet, ?_, ?_⟩
  · rw [Place.after_append, hafter, ha]
  · rw [← hactive]
    exact hfailed

/-- Notes at the end that only tell that something is over. -/
theorem Blames.append {back : Journal} (h : Blames p notes failed error)
    (hback : ∀ note ∈ back, note.event.isQuiet) : Blames p (notes ++ back) failed error := by
  obtain ⟨before, s, after, a, rest, rfl, hquiet, ha, hfailed⟩ := h
  exact ⟨before, s, after ++ back, a, rest, by simp, List.forall_mem_append.2 ⟨hquiet, hback⟩, ha,
    hfailed⟩

/-- A folder takes the blame for an error that has arisen in it. -/
theorem Blames.leave {front : Journal} {a : Activation} (h : Blames p' notes failed error)
    (hafter : p.after front = p') (hactive : p'.active = a :: p.active) :
    Blames p (front ++ notes) (failed.or (some a.folder)) error := by
  obtain ⟨before, s, after, b, rest, rfl, hquiet, hb, hfailed⟩ := h
  refine ⟨front ++ before, s, after, b, rest, (List.append_assoc ..).symm, hquiet, ?_, .inl ?_⟩
  · rw [Place.after_append, hafter, hb]
  · rcases hfailed with rfl | ⟨rfl, hfirst⟩
    · rfl
    · rw [hactive] at hfirst
      rw [(List.cons.inj hfirst).1, Option.none_or]

end

/-- An error that arises in a stage itself has arisen in the folder in which the stage is. -/
theorem blames_raised {stage : Stage} {p : Place} {a : Activation}
    {rest : List Activation} {events : List Event} {error : Error}
    (h : e.Raises W p.session stage events error) (hactive : p.active = a :: rest) :
    Blames p (Journal.during p.session (events ++ [.raised error])) none error := by
  have hevents : e.Leads W p (Journal.during p.session events) p :=
    leads_during fun event hevent ↦ h.isAt event (List.mem_append_left _ hevent)
  rw [Journal.during, List.map_append]
  refine ⟨_, p.session, [], a, rest, rfl, by simp, ?_, .inr ⟨rfl, hactive.symm⟩⟩
  rw [← Journal.during, hevents.after, hactive]

/-- An error for which a folder is not executed has arisen in that folder. -/
theorem blames_refused (hW : e.Lasts W) {mark : String} {p : Place} {events : List Event}
    {error : Error} (h : e.Refuses W mark p.session events error) :
    Blames p
      (Journal.during p.session (.entered p.session.traversal.currentFolder :: events ++
        [.raised error]))
      (some p.session.traversal.currentFolder) error := by
  let entered : Note := ⟨.entered p.session.traversal.currentFolder, p.session⟩
  obtain ⟨a, hleads, hfolder⟩ := leads_refused hW (p := p.next entered) h rfl rfl rfl
  rw [Journal.during, List.map_append] at hleads ⊢
  refine ⟨entered :: events.map (⟨·, p.session⟩), p.session, [], a, p.active, rfl, by simp, ?_,
    .inl (congrArg some hfolder.symm)⟩
  -- The note of the error leaves the folders under way as they are.
  have hafter := congrArg Place.active hleads.after
  rw [Place.after_append] at hafter
  exact hafter

/-- Every stage that fails is right about where. -/
theorem Course.blames (hW : e.Lasts W) {limit : Nat} {stage : Stage} {s s' : Session}
    {notes : Journal} {result : Except Stop Unit}
    (h : e.Course W limit stage s notes result s') {error : Error}
    (hresult : result = .error (.failed error)) (p : Place) (hs : p.session = s)
    (hfits : Fits stage p) (hnone : s.failedFolder = none) :
    Blames p notes s'.failedFolder error := by
  induction h generalizing p with
  | tooDeep | done | identity | changeFolder | content | noChild => cases hresult
  | raised h =>
    subst hs
    cases hresult
    obtain ⟨a, rest, hactive⟩ : ∃ a rest, p.active = a :: rest := by
      cases h <;> exact List.exists_cons_of_length_eq_add_one hfits
    rw [hnone]
    exact blames_raised h hactive
  | refused h =>
    subst hs
    cases hresult
    rw [blame, hnone, Option.none_or]
    exact (blames_refused hW h).append (by simp [Event.isQuiet])
  | executed h hplan hcommands ih =>
    subst hs
    rename_i manifest requests commands notes result
    have hplanned := leads_planned hW h hplan hfits
    have hinner := ih hresult ⟨_, p.origins,
      ⟨p.session.traversal.currentFolder, p.session, some manifest, some commands⟩ :: p.active⟩
      rfl ⟨_, p.active, commands, rfl, hfits.1, rfl, List.Subset.refl _⟩ hnone
    have hall := hinner.leave hplanned.after rfl
    rw [List.append_assoc] at hall
    rw [hresult]
    exact hall.append (by simp [Event.isQuiet])
  | next h hrest ih ihrest =>
    subst hs
    rename_i command commands notes notes' result
    obtain ⟨last, hleads, -⟩ := h.leads hW p rfl (fits_command hfits)
    have hrest' := ihrest hresult ⟨_, p.origins, p.active⟩ rfl (fits_tail hfits _)
      (h.failedFolder_eq_none hnone rfl)
    have hended : Blames { p with session := last } (⟨.ended command, _⟩ :: notes') _ error :=
      hrest'.prepend [_] rfl rfl
    exact (hended.prepend _ hleads.after rfl).prepend [⟨.started command, _⟩] rfl rfl
  | stopped h ih =>
    subst hs
    rename_i command commands notes stop
    have hinner := ih hresult p rfl (fits_command hfits) hnone
    exact (hinner.prepend [⟨.started command, _⟩] rfl rfl).append
      (by simp [Event.isQuiet])
  | singleFolder h ih => exact ih hresult p hs hfits hnone
  | all h hchildren ih =>
    subst hs
    exact (ih hresult p rfl hfits hnone).prepend [⟨.asked _, _⟩] rfl rfl
  | descent h hfolder ih =>
    subst hs
    rename_i child notes result
    let descended : Note :=
      ⟨.descended (p.session.traversal.currentFolder.join child), p.session⟩
    have hinner := ih hresult (p.next descended) rfl ⟨hfits, .inr h⟩ hnone
    exact (hinner.prepend [descended] rfl rfl).append (by simp [Event.isQuiet])
  | ignored h ih => exact ih hresult p hs hfits hnone
  | child hname h hrest ih ihrest =>
    obtain ⟨last, hleads, rfl⟩ := h.leads hW p hs hfits
    have hrest' := ihrest hresult ⟨_, p.origins, p.active⟩ rfl hfits
      (h.failedFolder_eq_none hnone rfl)
    exact hrest'.prepend _ hleads.after rfl
  | isolated hname h herror hrest ih ihrest =>
    rename_i parent name names notes notes' error result
    obtain ⟨last, hleads, rfl⟩ := h.leads hW p hs hfits
    have hrest' := ihrest hresult ⟨_, p.origins, p.active⟩ rfl hfits rfl
    have hisolated := hrest'.prepend (p := { p with session := last })
      [⟨.isolated (parent.join name) error, _⟩] rfl rfl
    exact hisolated.prepend _ hleads.after rfl
  | childStopped hname h hstop ih => exact ih hresult p hs hfits hnone

/-! ## Reports -/

theorem status_eq_aborted {error : Option Error} {failures : List FolderFailure} :
    status error failures = .aborted ↔ error.isSome := by
  cases error <;> cases failures <;> simp [status]

theorem status_eq_completed {error : Option Error} {failures : List FolderFailure} :
    status error failures = .completed ↔ error = none ∧ failures = [] := by
  cases error <;> cases failures <;> simp [status]

theorem status_eq_completedWithErrors {error : Option Error} {failures : List FolderFailure} :
    status error failures = .completedWithErrors ↔ error = none ∧ failures ≠ [] := by
  cases error <;> cases failures <;> simp [status]

/-- What a report says of a run with some notes from a session, if the run ended with `result`. -/
structure IsConsistent (s : Session) (notes : Journal) (result : Except Stop Unit)
    (report : Report) : Prop where
  aborted_iff : report.status = .aborted ↔ report.error.isSome
  error_iff : report.error.isSome ↔ report.failedFolder.isSome
  completedWithErrors_iff :
    report.status = .completedWithErrors ↔ result = .ok () ∧ report.failures ≠ []
  completed_iff : report.status = .completed ↔ result = .ok () ∧ report.failures = []
  /-- The error of an aborted run has arisen while the folder that the report names was innermost
  of those under way, and after the error the run only came back. -/
  of_aborted : report.status = .aborted → ∃ error before session after a rest,
    result = .error (.failed error) ∧ report.error = some error.message ∧
      notes = before ++ ⟨.raised error, session⟩ :: after ∧
      (∀ note ∈ after, note.event.isQuiet) ∧
      ((Place.start s).after before).active = a :: rest ∧
      report.failedFolder = some a.folder.text

theorem isConsistent_ok (occasion : Occasion) (s : Session) (notes : Journal) {s' : Session}
    (h : s'.failedFolder = none) :
    IsConsistent s notes (.ok ()) (report occasion s.traversal.topFolder none s') where
  aborted_iff := by simp only [report, status_eq_aborted, Option.isSome_map]
  error_iff := by simp [report, h]
  completedWithErrors_iff := by simp [report, status_eq_completedWithErrors]
  completed_iff := by simp [report, status_eq_completed]
  of_aborted := by simp [report, status_eq_aborted]

theorem isConsistent_error (occasion : Occasion) (s : Session) {notes : Journal}
    {error : Error} {s' : Session} (h : Blames (.start s) notes s'.failedFolder error) :
    IsConsistent s notes (.error (.failed error))
      (report occasion s.traversal.topFolder (some error) s') := by
  obtain ⟨before, session, after, a, rest, hnotes, hquiet, hactive, hfailed⟩ := h
  have hfolder : s'.failedFolder = some a.folder := by
    rcases hfailed with hfolder | ⟨-, hstart⟩
    · exact hfolder
    · cases hstart
  exact {
    aborted_iff := by simp only [report, status_eq_aborted, Option.isSome_map]
    error_iff := by simp [report, hfolder]
    completedWithErrors_iff := by simp [report, status_eq_completedWithErrors]
    completed_iff := by simp [report, status_eq_completed]
    of_aborted _ := ⟨error, before, session, after, a, rest, rfl, rfl, hnotes, hquiet, hactive,
      congrArg (·.map (·.text)) hfolder⟩ }

/-- A run that is not stopped by its limit has a report, and the report is consistent: its status,
its error and its folder to blame agree with each other, with the failures and with the course of
the run. -/
theorem report_isConsistent (e : Engine ρ) (limit : Nat) (occasion : Occasion) (w : World ρ)
    (s : Session) :
    let final := e.processTop limit { world := w, session := s }
    match (e.run limit occasion { world := w, session := s }).1 with
    | none => final.1 = .error .tooDeep
    | some report => IsConsistent s (e.journal limit w s) final.1 report := by
  dsimp only
  obtain ⟨notes, hcourse, hjournal, -⟩ := follows_process e.lasts_true limit e.options.mark
    { world := w, session := s.opened, journal := [⟨.begun, s.opened⟩] } trivial
  rw [← processTop_apply] at hcourse hjournal
  have hnotes : e.journal limit w s = ⟨.begun, s.opened⟩ :: notes := hjournal
  simp only [run]
  rcases hfinal : e.processTop limit { world := w, session := s } with ⟨(error | _) | _, s'⟩
  · rw [hfinal] at hcourse
    have hblames := hcourse.blames e.lasts_true rfl (.start s) rfl ⟨rfl, .inl rfl⟩ rfl
    rw [hnotes]
    exact isConsistent_error occasion s (hblames.prepend [_] rfl rfl)
  · rfl
  · rw [hfinal] at hcourse
    exact isConsistent_ok occasion s _ (hcourse.failedFolder_eq_none rfl rfl)

end Engine

end FolderCommands
