import FolderCommands.Proofs.Run.Course
import FolderCommands.Proofs.Run.Steps

/-!
# What lasts through a run

A property of the world lasts if none of the actions of an engine ends it: not those of its store
and its delegate, and not what the engine itself does to the local disk. With it goes what the
inquiries of the engine ask: a manifest is looked for in one folder only.
-/

namespace FolderCommands

namespace Inquiry

variable {ρ α β : Type} {W : World ρ → Prop} {P : Request → Prop}

/-- An inquiry that ends `W` in no world and makes only requests that satisfy `P`. -/
def Asks (W : World ρ → Prop) (P : Request → Prop) (inquiry : Inquiry ρ α) : Prop :=
  ∀ s : Inquired ρ, W s.world → W (inquiry s).2.world ∧
    ∃ requests, (inquiry s).2.requests = s.requests ++ requests ∧ ∀ r ∈ requests, P r

theorem Asks.bind {inquiry : Inquiry ρ α} {next : α → Inquiry ρ β} (h : inquiry.Asks W P)
    (hnext : ∀ a, (next a).Asks W P) : (inquiry >>= next).Asks W P := by
  intro s hs
  obtain ⟨hworld, requests, hrequests, hP⟩ := h s hs
  rw [bind_apply]
  rcases hresult : inquiry s with ⟨error | a, s'⟩
  · rw [hresult] at hworld hrequests
    exact ⟨hworld, requests, hrequests, hP⟩
  · rw [hresult] at hworld hrequests
    obtain ⟨hworld', requests', hrequests', hP'⟩ := hnext a s' hworld
    refine ⟨hworld', requests ++ requests', ?_, ?_⟩
    · rw [hrequests', hrequests, List.append_assoc]
    · intro r hr
      rcases List.mem_append.1 hr with hr | hr
      · exact hP r hr
      · exact hP' r hr

theorem asks_ofExcept (x : Except Error α) : (ofExcept x : Inquiry ρ α).Asks W P :=
  fun _ hs ↦ ⟨hs, [], by rw [List.append_nil]; rfl, by simp⟩

theorem asks_pure (a : α) : (pure a : Inquiry ρ α).Asks W P :=
  asks_ofExcept (.ok a)

theorem asks_throw (error : Error) : (throw error : Inquiry ρ α).Asks W P :=
  asks_ofExcept (.error error)

theorem asks_act {action : Action ρ α} (h : ∀ w, W w → W (action w).2) :
    (act action).Asks W P :=
  fun s hs ↦ ⟨h s.world hs, [], by rw [List.append_nil]; rfl, by simp⟩

theorem asks_ask {request : Request} {action : Action ρ α} (hrequest : P request)
    (h : ∀ w, W w → W (action w).2) : (ask request action).Asks W P :=
  fun s hs ↦ ⟨h s.world hs, [request], rfl, by simpa using hrequest⟩

end Inquiry

namespace Action

variable {ρ α : Type}

theorem look_world (f : Disk → Disk.Result α) (wrap : FileFault → Error) (w : World ρ) :
    (look f wrap w).2 = w := rfl

theorem change_apply (f : Disk → Disk.Result Disk) (wrap : FileFault → Error) (w : World ρ) :
    change f wrap w = match f w.disk with
      | .ok disk => (.ok (), { w with disk })
      | .error fault => (.error (wrap fault), w) := by
  simp only [change, update]
  cases f w.disk <;> rfl

theorem of_look {f : Disk → Disk.Result α} {wrap : FileFault → Error} {w w' : World ρ} {a : α}
    (h : look f wrap w = (.ok a, w')) : f w.disk = .ok a ∧ w' = w := by
  cases hlook : f w.disk with
  | error fault =>
    rw [look, hlook] at h
    cases h
  | ok found =>
    rw [look, hlook] at h
    cases h
    exact ⟨rfl, rfl⟩

theorem exists_of_update {f : Disk → Disk.Result (α × Disk)} {wrap : FileFault → Error}
    {w w' : World ρ} {a : α} (h : update f wrap w = (.ok a, w')) :
    ∃ disk, f w.disk = .ok (a, disk) ∧ w' = { w with disk } := by
  rw [update] at h
  split at h
  · rename_i disk hupdate
    cases h
    exact ⟨disk, hupdate, rfl⟩
  · cases h

theorem exists_of_change {f : Disk → Disk.Result Disk} {wrap : FileFault → Error}
    {w w' : World ρ} {u : Unit} (h : change f wrap w = (.ok u, w')) :
    ∃ disk, f w.disk = .ok disk ∧ w' = { w with disk } := by
  rw [change_apply] at h
  split at h
  · rename_i disk hchange
    cases h
    exact ⟨disk, hchange, rfl⟩
  · cases h

end Action

/-- A manifest is looked for and fetched in its own folder only. -/
theorem Manifest.asks_load {ρ : Type} {W : World ρ → Prop} {store : Store ρ} {scratch : String}
    {folder : RemotePath} {mark : String}
    (hclear : ∀ w, W w → W (Action.change (·.clearDirectory scratch) FileFault.toError w).2)
    (hfiles : ∀ w, W w → W (store.listFiles folder w).2)
    (hfile : ∀ w, W w → W (store.downloadFile folder (fileName mark) scratch w).2) :
    (load store scratch folder mark).Asks W fun r ↦
      r = .listFiles folder ∨ r = .downloadFile folder (fileName mark) := by
  have hdownload : (download store scratch folder (fileName mark)).Asks W fun r ↦
      r = .listFiles folder ∨ r = .downloadFile folder (fileName mark) :=
    (Inquiry.asks_ask (.inr rfl) hfile).bind fun path ↦
      Inquiry.asks_act fun w h ↦ by rwa [Action.look_world]
  have hfetch : (fetchText store scratch folder mark).Asks W fun r ↦
      r = .listFiles folder ∨ r = .downloadFile folder (fileName mark) := by
    refine (Inquiry.asks_act hclear).bind fun _ ↦ ?_
    refine (Inquiry.asks_ask (.inl rfl) hfiles).bind fun files ↦ ?_
    split
    · refine hdownload.bind fun text ↦ ?_
      split
      · exact Inquiry.asks_throw _
      · exact Inquiry.asks_pure _
    · exact Inquiry.asks_throw _
  exact hfetch.bind fun text ↦ Inquiry.asks_ofExcept _

namespace Engine

variable {ρ : Type}

/-- A property of the world that no action of a run ends. -/
structure Lasts (e : Engine ρ) (W : World ρ → Prop) : Prop where
  /-- The scratch directory is emptied. -/
  clear (w : World ρ) (disk : Disk) (h : W w)
    (hdisk : w.disk.clearDirectory e.scratch.path = .ok disk) : W { w with disk }
  files (w : World ρ) (dir : RemotePath) (h : W w) : W (e.store.listFiles dir w).2
  directories (w : World ρ) (dir : RemotePath) (h : W w) : W (e.store.listDirectories dir w).2
  file (w : World ρ) (dir : RemotePath) (name : String) (h : W w) :
    W (e.store.downloadFile dir name e.scratch.path w).2
  /-- Support files are copied. -/
  transfer (w : World ρ) (dir : RemotePath) (target : String) (h : W w) :
    W (Support.transfer e.store e.options.scratchRoot dir target { world := w }).2.world
  delegate (w : World ρ) (work : Work) (h : W w) : W (e.delegate work w).2

theorem lasts_true (e : Engine ρ) : e.Lasts fun _ ↦ True := by
  constructor <;> intros <;> trivial

variable {e : Engine ρ} {W : World ρ → Prop}

theorem Lasts.clear_world (hW : e.Lasts W) (w : World ρ) (h : W w) :
    W (Action.change (·.clearDirectory e.scratch.path) FileFault.toError w).2 := by
  rw [Action.change_apply]
  split
  · exact hW.clear w _ h ‹_›
  · exact h

theorem Lasts.asks_load (hW : e.Lasts W) (folder : RemotePath) (mark : String) :
    (Manifest.load e.store e.scratch.path folder mark).Asks W fun r ↦
      r = .listFiles folder ∨ r = .downloadFile folder (Manifest.fileName mark) :=
  Manifest.asks_load hW.clear_world (fun w h ↦ hW.files w folder h) fun w h ↦
    hW.file w folder _ h

variable {folder : RemotePath} {mark : String} {requests : List Request}

theorem Loads.asked {result : Except Error Manifest}
    (h : e.Loads W folder mark result requests) (hW : e.Lasts W) :
    ∀ r ∈ requests, r = .listFiles folder ∨ r = .downloadFile folder (Manifest.fileName mark) := by
  obtain ⟨world, hworld, after, hload, rfl⟩ := h
  obtain ⟨-, made, hmade, hP⟩ := hW.asks_load folder mark { world } hworld
  rw [hload, List.nil_append] at hmade
  rwa [hmade]

/-- Where a manifest loads, the store has listed the files of the folder. -/
theorem Loads.listed {manifest : Manifest} (h : e.Loads W folder mark (.ok manifest) requests)
    (hW : e.Lasts W) :
    ∃ world names, W world ∧ (e.store.listFiles folder world).1 = .ok names := by
  obtain ⟨world, hworld, after, hload, -⟩ := h
  obtain ⟨text, fetched, hfetch, -⟩ := exists_of_bind_eq_ok hload
  obtain ⟨_, cleared, hclear, hrest⟩ := exists_of_bind_eq_ok hfetch
  obtain ⟨names, listed, hlist, -⟩ := exists_of_bind_eq_ok hrest
  have hcleared : W cleared.world := by
    have := hW.clear_world world hworld
    rwa [show (Action.change _ _ world).2 = cleared.world from congrArg (·.2.world) hclear] at this
  exact ⟨cleared.world, names, hcleared, congrArg Prod.fst hlist⟩

end Engine

end FolderCommands
