import FolderCommands.Proofs.Run.Adherence
import FolderCommands.Proofs.Run.Place

/-!
# Runs from place to place

The journal of every run consists of notes each of which may come where the run stands then, and
it leads back to where the run started: every folder is left and every descent returned from.
-/

namespace FolderCommands

/-- Whether an event is a request, work or an error in a folder, so that the place stays. -/
def Event.IsAt (folder : RemotePath) : Event → Prop
  | .asked request => request.folder = folder
  | .delegated work => work.folder = folder
  | .raised _ => True
  | _ => False

namespace Engine

variable {ρ : Type} {e : Engine ρ} {W : World ρ → Prop}

/-- Notes that lead from one place to another. -/
structure Leads (e : Engine ρ) (W : World ρ → Prop) (p : Place) (notes : Journal) (p' : Place) :
    Prop where
  along : e.Along W p notes
  after : p.after notes = p'

theorem leads_nil (p : Place) : e.Leads W p [] p :=
  ⟨trivial, rfl⟩

theorem leads_cons {p p' : Place} {note : Note} {notes : Journal} (hturn : e.Turn W p note)
    (h : e.Leads W (p.next note) notes p') : e.Leads W p (note :: notes) p' :=
  ⟨⟨hturn, h.along⟩, h.after⟩

theorem leads_single {p : Place} {note : Note} (hturn : e.Turn W p note) :
    e.Leads W p [note] (p.next note) :=
  leads_cons hturn (leads_nil _)

theorem Leads.trans {p p' p'' : Place} {notes notes' : Journal} (h : e.Leads W p notes p')
    (h' : e.Leads W p' notes' p'') : e.Leads W p (notes ++ notes') p'' := by
  obtain ⟨halong, rfl⟩ := h
  exact ⟨Place.throughout_append.2 ⟨halong, h'.along⟩, by rw [Place.after_append, h'.after]⟩

theorem leads_during {p : Place} {events : List Event}
    (h : ∀ event ∈ events, event.IsAt p.session.traversal.currentFolder) :
    e.Leads W p (Journal.during p.session events) p := by
  induction events with
  | nil => exact leads_nil p
  | cons event events ih =>
    have hevent := h event (by simp)
    have hrest := ih fun event hmem ↦ h event (by simp [hmem])
    cases event with
    | asked request => exact leads_cons (.asked hevent) hrest
    | delegated work => exact leads_cons (.delegated hevent) hrest
    | raised error => exact leads_cons .raised hrest
    | _ => exact hevent.elim

theorem ContentEvents.isAt {folder : RemotePath} {command : Command} {events : List Event}
    (h : e.ContentEvents folder command events) : ∀ event ∈ events, event.IsAt folder := by
  cases h with
  | noSupport target => simp
  | story | files | support => simp [Event.IsAt, Request.folder, Work.folder]
  | pages files hpages =>
    intro event hevent
    rcases List.mem_cons.1 hevent with rfl | hevent
    · rfl
    · obtain ⟨file, -, rfl⟩ := List.mem_map.1 hevent
      rfl

theorem Raises.isAt {s : Session} {stage : Stage} {events : List Event} {error : Error}
    (h : e.Raises W s stage events error) :
    ∀ event ∈ events ++ [.raised error], event.IsAt s.traversal.currentFolder := by
  intro event hevent
  rcases List.mem_append.1 hevent with hbefore | hlast
  · cases h with
    | descent | changeFolder => simp at hbefore
    | listing =>
      rw [List.mem_singleton.1 hbefore]
      rfl
    | content hcontent => exact hcontent.isAt event hbefore
  · rw [List.mem_singleton.1 hlast]
    trivial

theorem Loads.isAt {folder : RemotePath} {mark : String} {result : Except Error Manifest}
    {requests : List Request} (h : e.Loads W folder mark result requests) (hW : e.Lasts W) :
    ∀ event ∈ requests.map Event.asked, event.IsAt folder := by
  intro event hevent
  obtain ⟨request, hrequest, rfl⟩ := List.mem_map.1 hevent
  rcases h.asked hW request hrequest with rfl | rfl <;> rfl

/-- The places at which a stage may begin. -/
def Fits : Stage → Place → Prop
  | .folder _, p => p.active.length = p.origins.length ∧
      p.session.traversal.currentFolder.IsWithin p.session.traversal.topFolder
  | .commands commands, p => ∃ a rest planned, p.active = a :: rest ∧
      rest.length = p.origins.length ∧ a.commands = some planned ∧ commands ⊆ planned
  | .command _, p | .descent _, p | .children _ _, p => p.active.length = p.origins.length + 1

section

variable {p : Place} {command : Command} {commands : List Command}
  (h : Fits (.commands (command :: commands)) p)

include h

theorem fits_command : Fits (.command command) p := by
  obtain ⟨a, rest, planned, hactive, hlength, -⟩ := h
  rw [Fits, hactive, List.length_cons, hlength]

theorem fits_tail (s : Session) : Fits (.commands commands) { p with session := s } := by
  obtain ⟨a, rest, planned, hactive, hlength, hplanned, hsubset⟩ := h
  exact ⟨a, rest, planned, hactive, hlength, hplanned,
    fun other hother ↦ hsubset (List.mem_cons_of_mem _ hother)⟩

theorem turn_started : e.Turn W p ⟨.started command, p.session⟩ := by
  obtain ⟨a, rest, planned, hactive, -, hplanned, hsubset⟩ := h
  exact .started hactive hplanned (hsubset (List.mem_cons_self ..))

end

/-- How the session at the end of a stage comes from the last one noted. -/
def Ends (e : Engine ρ) : Stage → Session → Session → Prop
  | .command command => e.Effect command
  | _ => Eq

theorem leads_loading (hW : e.Lasts W) {mark : String} {manifest : Manifest}
    {requests : List Request} {p : Place} {a : Activation} {rest : List Activation}
    (h : e.Loads W a.folder mark (.ok manifest) requests) (hactive : p.active = a :: rest)
    (hcommands : a.commands = none)
    (hfolder : a.folder = p.session.traversal.currentFolder) :
    e.Leads W p (Journal.during p.session (requests.map .asked ++ [.loaded a.folder manifest]))
      { p with active := { a with manifest := some manifest } :: rest } := by
  have hrequests : e.Leads W p (Journal.during p.session (requests.map .asked)) p :=
    leads_during (hfolder ▸ h.isAt hW)
  have hloaded : p.next ⟨.loaded a.folder manifest, p.session⟩ =
      { p with active := { a with manifest := some manifest } :: rest } := by
    simp only [Place.next, hactive, List.modifyHead_cons]
  rw [Journal.during, List.map_append, ← hloaded]
  exact hrequests.trans (leads_single (.loaded hactive hcommands h))

/-- A folder that is entered, loaded and planned is under way with its commands. -/
theorem leads_planned (hW : e.Lasts W) {mark : String} {manifest : Manifest}
    {requests : List Request} {commands : List Command} {p : Place}
    (h : e.Loads W p.session.traversal.currentFolder mark (.ok manifest) requests)
    (hplan : Plan.ofRecords manifest.commandSet manifest.records = .ok commands)
    (hfits : Fits (.folder mark) p) :
    e.Leads W p
      (Journal.during p.session (.entered p.session.traversal.currentFolder ::
          requests.map .asked ++ [.loaded p.session.traversal.currentFolder manifest]) ++
        [⟨.planned p.session.traversal.currentFolder manifest.commandSet commands,
          p.session.visiting p.session.traversal.currentFolder⟩])
      { session := p.session.visiting p.session.traversal.currentFolder
        origins := p.origins
        active := ⟨p.session.traversal.currentFolder, p.session, some manifest, some commands⟩ ::
          p.active } := by
  let entered : Note := ⟨.entered p.session.traversal.currentFolder, p.session⟩
  let a : Activation := { folder := p.session.traversal.currentFolder, opening := p.session }
  have hloading := leads_loading hW (p := p.next entered) (a := a) h rfl rfl rfl
  have hplanned : e.Turn W ⟨p.session, p.origins, { a with manifest := some manifest } :: p.active⟩
      ⟨.planned a.folder manifest.commandSet commands, p.session.visiting a.folder⟩ :=
    .planned (a := { a with manifest := some manifest }) rfl rfl rfl hplan
  exact (leads_cons (.entered hfits.1 hfits.2) hloading).trans (leads_single hplanned)

/-- A folder that is refused has its requests and its errors noted, and stays innermost. -/
theorem leads_refused (hW : e.Lasts W) {mark : String} {p : Place} {events : List Event}
    {error : Error} {a : Activation} {rest : List Activation}
    (h : e.Refuses W mark p.session events error) (hactive : p.active = a :: rest)
    (hcommands : a.commands = none)
    (hfolder : a.folder = p.session.traversal.currentFolder) :
    ∃ a', e.Leads W p (Journal.during p.session (events ++ [.raised error]))
      { p with active := a' :: rest } ∧ a'.folder = a.folder := by
  cases h with
  | unloaded h =>
    refine ⟨a, ?_, rfl⟩
    rw [← hactive]
    refine leads_during fun event hevent ↦ ?_
    rcases List.mem_append.1 hevent with hbefore | hlast
    · exact h.isAt hW event hbefore
    · rw [List.mem_singleton.1 hlast]
      trivial
  | unplanned h hplan =>
    rw [← hfolder] at h ⊢
    rw [Journal.during, List.map_append]
    exact ⟨_, (leads_loading hW h hactive hcommands hfolder).trans (leads_single .raised), rfl⟩

/-- Every stage goes from note to note as places allow, and comes back to where it began. -/
theorem Course.leads (hW : e.Lasts W) {limit : Nat} {stage : Stage} {s s' : Session}
    {notes : Journal} {result : Except Stop Unit}
    (h : e.Course W limit stage s notes result s') (p : Place) (hs : p.session = s)
    (hfits : Fits stage p) :
    ∃ last, e.Leads W p notes { p with session := last } ∧ e.Ends stage last s' := by
  -- The place stays fixed but for its session: each part gives back the place that it was given.
  induction h generalizing p with
  | tooDeep => exact ⟨_, leads_nil p, hs⟩
  | raised h =>
    subst hs
    refine ⟨_, leads_during h.isAt, ?_⟩
    cases h with
    | descent => rfl
    | changeFolder | listing | content => exact .none
  | refused h =>
    subst hs
    rename_i error
    obtain ⟨a, hleads, -⟩ := leads_refused hW
      (p := p.next ⟨.entered p.session.traversal.currentFolder, p.session⟩) h rfl rfl rfl
    exact ⟨_, (leads_cons (.entered hfits.1 hfits.2) hleads).trans
      (leads_single (.left _ (.error (.failed error)) (congrArg (· + 1) hfits.1))), rfl⟩
  | executed h hplan hcommands ih =>
    subst hs
    rename_i manifest requests commands notes result
    have hplanned := leads_planned hW h hplan hfits
    obtain ⟨last, hleads, rfl⟩ := ih ⟨_, p.origins,
      ⟨p.session.traversal.currentFolder, p.session, some manifest, some commands⟩ :: p.active⟩
      rfl ⟨_, p.active, commands, rfl, hfits.1, rfl, List.Subset.refl _⟩
    have hnotes := hplanned.trans hleads
    rw [List.append_assoc] at hnotes
    exact ⟨_, hnotes.trans (leads_single (.left _ result (congrArg (· + 1) hfits.1))), rfl⟩
  | done => exact ⟨_, leads_nil p, hs⟩
  | next h hrest ih ihrest =>
    subst hs
    obtain ⟨last, hleads, heffect⟩ := ih p rfl (fits_command hfits)
    obtain ⟨_, hleads', rfl⟩ := ihrest ⟨_, p.origins, p.active⟩ rfl (fits_tail hfits _)
    exact ⟨_, (leads_cons (turn_started hfits) hleads).trans
      (leads_cons (.ended heffect) hleads'), rfl⟩
  | stopped h ih =>
    subst hs
    obtain ⟨last, hleads, heffect⟩ := ih p rfl (fits_command hfits)
    exact ⟨_, (leads_cons (turn_started hfits) hleads).trans
      (leads_single (.ended heffect)), rfl⟩
  | identity => exact ⟨_, leads_nil p, hs ▸ .identity⟩
  | changeFolder h =>
    subst hs
    exact ⟨_, leads_nil p, .changeFolder h⟩
  | content h =>
    subst hs
    exact ⟨_, leads_during h.isAt, .none⟩
  | singleFolder h ih =>
    obtain ⟨last, hleads, rfl⟩ := ih p hs hfits
    exact ⟨_, hleads, .none⟩
  | all h hchildren ih =>
    obtain ⟨last, hleads, rfl⟩ := ih p hs hfits
    subst hs
    exact ⟨_, leads_cons (.asked rfl) hleads, .none⟩
  | descent h hfolder ih =>
    subst hs
    rename_i child notes result
    obtain ⟨_, hleads, rfl⟩ := ih (p.next
      ⟨.descended (p.session.traversal.currentFolder.join child), p.session⟩) rfl
      ⟨hfits, .inr h⟩
    exact ⟨_, (leads_cons (.descended hfits h) hleads).trans
      (leads_single (.returned hfits rfl)), rfl⟩
  | noChild => exact ⟨_, leads_nil p, hs⟩
  | ignored h ih => exact ih p hs hfits
  | child hname h hrest ih ihrest =>
    obtain ⟨last, hleads, rfl⟩ := ih p hs hfits
    obtain ⟨_, hleads', rfl⟩ := ihrest ⟨_, p.origins, p.active⟩ rfl hfits
    exact ⟨_, hleads.trans hleads', rfl⟩
  | isolated hname h herror hrest ih ihrest =>
    obtain ⟨last, hleads, rfl⟩ := ih p hs hfits
    obtain ⟨_, hleads', rfl⟩ := ihrest ⟨_, p.origins, p.active⟩ rfl hfits
    exact ⟨_, hleads.trans (leads_cons .isolated hleads'), rfl⟩
  | childStopped hname h hstop ih => exact ih p hs hfits

/-- The journal of a run leads from its start to where no folder is under way any more. -/
theorem journal_leads (hW : e.Lasts W) (limit : Nat) (w : World ρ) (s : Session) (h : W w) :
    ∃ last, e.Leads W (.start s) (e.journal limit w s) { session := last } := by
  obtain ⟨notes, s', hcourse, hjournal⟩ := exists_course hW limit w s h
  obtain ⟨last, hleads, -⟩ := hcourse.leads hW (.start s) rfl ⟨rfl, .inl rfl⟩
  rw [hjournal]
  exact ⟨last, leads_cons .begun hleads⟩

/-- Nothing is assumed of the worlds of a run. -/
theorem journal_along (e : Engine ρ) (limit : Nat) (w : World ρ) (s : Session) :
    e.Along (fun _ ↦ True) (.start s) (e.journal limit w s) := by
  obtain ⟨last, hleads⟩ := journal_leads e.lasts_true limit w s trivial
  exact hleads.along

end Engine

end FolderCommands
