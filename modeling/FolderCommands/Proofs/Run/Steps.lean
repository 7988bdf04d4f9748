import FolderCommands.Run.Step

/-!
# Steps applied to a state

What each step of a run does to a state, as a pair of its outcome and the state after it. Later
proofs take a run apart with these equations only.
-/

namespace FolderCommands

/-- Actions, inquiries and runs are all of this form. -/
theorem bind_apply {ε σ α β : Type} (part : ExceptT ε (StateM σ) α)
    (next : α → ExceptT ε (StateM σ) β) (s : σ) :
    (part >>= next) s = match part s with
      | (.ok a, s') => next a s'
      | (.error stop, s') => (.error stop, s') := by
  change ExceptT.bind part next s = _
  simp only [ExceptT.bind, ExceptT.mk, ExceptT.bindCont, bind, StateT.bind]
  rcases part s with ⟨_ | _, _⟩ <;> rfl

/-- A sequence that succeeds has succeeded in both of its parts. -/
theorem exists_of_bind_eq_ok {ε σ α β : Type} {part : ExceptT ε (StateM σ) α}
    {next : α → ExceptT ε (StateM σ) β} {s s'' : σ} {b : β}
    (h : (part >>= next) s = (.ok b, s'')) :
    ∃ a s', part s = (.ok a, s') ∧ next a s' = (.ok b, s'') := by
  rw [bind_apply] at h
  rcases hpart : part s with ⟨_ | a, s'⟩
  · rw [hpart] at h
    cases h
  · rw [hpart] at h
    exact ⟨a, s', rfl, h⟩

theorem pure_apply {ε σ α : Type} (a : α) (s : σ) :
    (pure a : ExceptT ε (StateM σ) α) s = (.ok a, s) := rfl

namespace RunState

variable {ρ : Type}

/-- The state after an event has been noted. -/
def noted (s : RunState ρ) (event : Event) : RunState ρ :=
  { s with journal := s.journal ++ [⟨event, s.session⟩] }

/-- The state after the session has changed. -/
def updated (s : RunState ρ) (f : Session → Session) : RunState ρ :=
  { s with session := f s.session }

end RunState

namespace Run

variable {ρ α : Type}

theorem session_apply (s : RunState ρ) : session s = (.ok s.session, s) := rfl

theorem updateSession_apply (f : Session → Session) (s : RunState ρ) :
    updateSession f s = (.ok (), s.updated f) := rfl

theorem note_apply (event : Event) (s : RunState ρ) : note event s = (.ok (), s.noted event) := rfl

theorem fail_apply (error : Error) (s : RunState ρ) :
    (fail error : Run ρ α) s = (.error (.failed error), s) := rfl

theorem resume_apply (result : Except Stop α) (s : RunState ρ) :
    resume result s = (result, s) := rfl

theorem outcome_apply (part : Run ρ α) (s : RunState ρ) :
    part.outcome s = (.ok (part s).1, (part s).2) := rfl

theorem andFinally_apply (part : Run ρ α) (last : Run ρ Unit) (s s' : RunState ρ)
    (h : last (part s).2 = (.ok (), s')) : part.andFinally last s = ((part s).1, s') := by
  simp only [andFinally, bind_apply, outcome_apply, h, resume_apply]

theorem raising_apply (part : Run ρ α) (s : RunState ρ) :
    part.raising s = match part s with
      | (.error (.failed error), s') => (.error (.failed error), s'.noted (.raised error))
      | (result, s') => (result, s') := by
  simp only [raising, onError, bind_apply, outcome_apply]
  rcases part s with ⟨(error | _) | _, s'⟩ <;> rfl

theorem raising_fail_apply (error : Error) (s : RunState ρ) :
    (fail error : Run ρ α).raising s = (.error (.failed error), s.noted (.raised error)) := by
  rw [raising_apply, fail_apply]

/-! ## Parts side by side -/

/-- Parts that come to the same in states that `S` relates, and leave such states. -/
def Relates (S : RunState ρ → RunState ρ → Prop) (part part' : Run ρ α) : Prop :=
  ∀ s s', S s s' → (part' s').1 = (part s).1 ∧ S (part s).2 (part' s').2

namespace Relates

variable {β : Type} {S : RunState ρ → RunState ρ → Prop} {part part' : Run ρ α}

/-- Parts that come to the same have one result between them. -/
theorem exists_result {s s' : RunState ρ}
    (h : (part' s').1 = (part s).1 ∧ S (part s).2 (part' s').2) :
    ∃ result t t', part s = (result, t) ∧ part' s' = (result, t') ∧ S t t' :=
  ⟨(part s).1, (part s).2, (part' s').2, rfl, Prod.ext h.1 rfl, h.2⟩

theorem bind {next next' : α → Run ρ β} (h : Relates S part part')
    (hnext : ∀ a, Relates S (next a) (next' a)) : Relates S (part >>= next) (part' >>= next') := by
  intro s s' hs
  obtain ⟨result, t, t', hleft, hright, ht⟩ := exists_result (h s s' hs)
  rw [bind_apply, bind_apply, hleft, hright]
  cases result with
  | error stop => exact ⟨rfl, ht⟩
  | ok a => exact hnext a t t' ht

theorem outcome (h : Relates S part part') : Relates S part.outcome part'.outcome := by
  intro s s' hs
  obtain ⟨hresult, ht⟩ := h s s' hs
  rw [outcome_apply, outcome_apply, hresult]
  exact ⟨rfl, ht⟩

theorem resume (result : Except Stop α) : Relates S (Run.resume result) (Run.resume result) :=
  fun _ _ hs ↦ ⟨rfl, hs⟩

theorem fail (error : Error) : Relates S (Run.fail error : Run ρ α) (Run.fail error) :=
  fun _ _ hs ↦ ⟨rfl, hs⟩

theorem mapError (h : Relates S part part') (f : Error → Error) :
    Relates S (part.mapError f) (part'.mapError f) := by
  apply h.outcome.bind
  rintro ((error | _) | a)
  · exact fail (f error)
  · exact resume _
  · exact resume _

/-- An error that arises on both sides is noted on both sides. -/
theorem raising (h : Relates S part part')
    (hnote : ∀ error, Relates S (note (.raised error)) (note (.raised error))) :
    Relates S part.raising part'.raising := by
  apply h.outcome.bind
  rintro ((error | _) | a)
  · exact (hnote error).bind fun _ ↦ fail error
  · exact resume _
  · exact resume _

end Relates

end Run

end FolderCommands
