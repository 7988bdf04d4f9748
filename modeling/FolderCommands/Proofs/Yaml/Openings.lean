import FolderCommands.Proofs.Yaml.Scanning
import Mathlib.Data.List.Forall2

/-!
# Document marks and their tokens

A text has as many document marks as the scanner makes tokens of them, in the same order, and after
each mark the scanner starts afresh: no key is pending there and no block is open. So the tokens
after a mark depend on nothing but the text after it, except for brackets that are still open.
-/

namespace FolderCommands.Yaml

/-- What comes after each mark of a document among some tokens. -/
def openings : List Token → List (List Token)
  | [] => []
  | t :: ts => if t = .documentStart then ts :: openings ts else openings ts

/-- The number of brackets that are open behind a token. A comma outside brackets, which no reader
of nodes takes, counts as an opening one. -/
def Token.depthAfter (depth : Nat) : Token → Nat
  | .flowSequenceStart | .flowMappingStart => depth + 1
  | .flowSequenceEnd | .flowMappingEnd => depth - 1
  | .flowEntry => max depth 1
  | _ => depth

theorem openings_append (ts us : List Token) :
    openings (ts ++ us) = (openings ts).map (· ++ us) ++ openings us := by
  induction ts with
  | nil => rfl
  | cons t ts ih =>
    rw [List.cons_append, openings, openings]
    split
    · rw [ih, List.map_cons, List.cons_append]
    · exact ih

theorem length_openings (ts : List Token) :
    (openings ts).length = ts.count .documentStart := by
  induction ts with
  | nil => rfl
  | cons t ts ih =>
    rw [openings]
    split
    · rename_i ht
      rw [List.length_cons, ih, ht, List.count_cons_self]
    · rename_i ht
      rw [ih, List.count_cons_of_ne ht]

namespace Scanner

variable {s s' : Scanner} {fuel : Nat} {ts : List Token}

/-! ## Steps -/

/-- The state in which the next token is read. -/
def Ready (s ready : Scanner) : Prop :=
  ∃ expired, s.advance.expireKeys = .ok expired ∧ expired.unindent = ready

theorem exists_of_expireKeys (h : s.expireKeys = .ok s') :
    ∃ key outerKeys, s' = { s with key, outerKeys } := by
  obtain ⟨key, -, hrest⟩ := exists_of_bind_ok h
  obtain ⟨outerKeys, -, hlast⟩ := exists_of_bind_ok hrest
  cases hlast
  exact ⟨key, outerKeys, rfl⟩

theorem expireKeys_cursor (h : s.expireKeys = .ok s') : s'.cursor = s.cursor := by
  obtain ⟨_, _, rfl⟩ := exists_of_expireKeys h
  rfl

theorem closeBlocks_pending (bound : Nat) (s : Scanner) (margins : List Nat) :
    (closeBlocks bound s margins).pending = s.pending := by
  obtain ⟨_, _, _, hclosed⟩ := exists_closeBlocks bound s margins
  rw [hclosed]
  rfl

theorem exists_unindent (s : Scanner) :
    ∃ done margin margins, s.unindent = { s with done, margin, margins } := by
  rw [unindent]
  split
  · exact ⟨_, _, _, rfl⟩
  · exact exists_closeBlocks ..

theorem unindent_pending (s : Scanner) : s.unindent.pending = s.pending := by
  obtain ⟨_, _, _, hunindent⟩ := s.exists_unindent
  rw [hunindent]
  rfl

theorem unindent_cursor (s : Scanner) : s.unindent.cursor = s.cursor := by
  obtain ⟨_, _, _, hunindent⟩ := s.exists_unindent
  rw [hunindent]

namespace Ready

variable {ready : Scanner}

theorem silent (h : s.Ready ready) : Silent s ready := by
  obtain ⟨expired, hexpired, rfl⟩ := h
  exact ((silent_advance s).trans (silent_expireKeys hexpired)).trans (silent_unindent expired)

theorem cursor (h : s.Ready ready) : ready.cursor = s.advance.cursor := by
  obtain ⟨expired, hexpired, rfl⟩ := h
  rw [unindent_cursor, expireKeys_cursor hexpired]

theorem pending (h : s.Ready ready) (hs : s.Sound) (hcolumn : ready.cursor.place.column = 0) :
    ready.pending = [] := by
  have hcursor := h.cursor
  obtain ⟨expired, hexpired, rfl⟩ := h
  rw [unindent_pending]
  exact pending_of_expireKeys hexpired ((silent_advance s).sound hs) (hcursor ▸ hcolumn)

end Ready

/-- What a run of the scanner does first. -/
theorem run_succ (h : run (fuel + 1) s = .ok ts) :
    ∃ ready, s.Ready ready ∧
      ((ready.cursor.rest = [] ∧ ∃ closed, ready.closeAll.dropKey = .ok closed ∧
          closed.produced = ts) ∨
        ∃ a cs s', ready.cursor.rest = a :: cs ∧ ready.fetchFrom a cs = .ok s' ∧
          run fuel s' = .ok ts) := by
  obtain ⟨expired, hexpired, hrest⟩ := exists_of_bind_ok h
  refine ⟨expired.unindent, ⟨expired, hexpired, rfl⟩, ?_⟩
  dsimp only at hrest
  split at hrest
  · rename_i hend
    obtain ⟨closed, hclosed, hlast⟩ := exists_of_bind_ok hrest
    cases hlast
    exact .inl ⟨hend, closed, hclosed, rfl⟩
  · rename_i a cs hcursor
    obtain ⟨s', hfetch, hrun⟩ := exists_of_bind_ok hrest
    exact .inr ⟨a, cs, s', hcursor, hfetch, hrun⟩

/-! ## Marks -/

/-- A scanner behind a document mark: no key is pending and, unless brackets are open, no block
is open. -/
structure IsFresh (s : Scanner) : Prop where
  pending : s.pending = []
  keyAllowed : s.keyAllowed = false
  blocks : s.inFlow = false → s.margin = 0 ∧ s.margins = []
  grounded : Grounded s.margin s.margins

theorem IsFresh.sound (h : s.IsFresh) : s.Sound where
  before_le k hk := by
    rw [h.pending] at hk
    cases hk
  place k hk := by
    rw [h.pending] at hk
    cases hk
  grounded := h.grounded

theorem dropKey_pending (h : s.dropKey = .ok s') (hs : s.pending = []) : s'.pending = [] := by
  rw [List.eq_nil_iff_forall_not_mem] at hs ⊢
  intro k hk
  rw [dropKey] at h
  split at h
  · cases h
  · cases h
    rw [mem_pending] at hk
    rcases hk with hk | hk
    · cases hk
    · exact hs k (mem_pending.2 (.inr hk))

theorem dropKey_fields (h : s.dropKey = .ok s') :
    s'.margin = s.margin ∧ s'.margins = s.margins ∧ s'.outerKeys = s.outerKeys := by
  rw [dropKey] at h
  split at h <;> cases h
  exact ⟨rfl, rfl, rfl⟩

/-- Outside brackets no block stays open. -/
theorem closeAll_blocks (hs : Grounded s.margin s.margins) (hflow : s.closeAll.inFlow = false) :
    s.closeAll.margin = 0 ∧ s.closeAll.margins = [] := by
  rw [closeAll] at hflow ⊢
  split
  · rename_i h
    rw [if_pos h, h] at hflow
    cases hflow
  · exact closeBlocks_zero s s.margins hs

theorem exists_of_atMark {a c : Char} {cs : List Char} (h : atMark a (c :: cs) = true) :
    ∃ rest, c = a ∧ cs = a :: a :: rest ∧ atGapOrBreak rest = true := by
  unfold atMark at h
  split at h
  · rename_i heq
    cases heq
    simp only [Bool.and_eq_true, decide_eq_true_eq] at h
    obtain ⟨⟨⟨rfl, rfl⟩, rfl⟩, hrest⟩ := h
    exact ⟨_, rfl, rfl, hrest⟩
  · cases h

theorem marks_of_mark {c : Cursor} {a : Char} {cs : List Char} (hrest : c.rest = a :: cs)
    (hcolumn : c.place.column = 0) (hmark : atMark '-' (a :: cs) = true) :
    c.marks = (c.skip 3).rest :: (c.skip 3).marks := by
  obtain ⟨rest, rfl, rfl, -⟩ := exists_of_atMark hmark
  rw [Cursor.marks, hrest, hcolumn, marks, if_pos (by simpa using hmark), Cursor.marks, Cursor.skip,
    hrest, hcolumn]
  rfl

/-- The token of a document mark. -/
theorem fetchMark_documentStart {a : Char} {cs : List Char} (hs : s.Sound)
    (hpending : s.pending = []) (hrest : s.cursor.rest = a :: cs)
    (hcolumn : s.cursor.place.column = 0) (hmark : atMark '-' (a :: cs) = true)
    (h : s.fetchMark .documentStart = .ok s') :
    Keeps s s' ∧ s'.IsFresh ∧ s.cursor.marks = s'.cursor.rest :: s'.cursor.marks ∧
      ∃ ts, s'.produced = ts ++ [.documentStart] ∧
        ts.count .documentStart = s.produced.count .documentStart := by
  obtain ⟨closed, hclosed, hlast⟩ := exists_of_bind_ok h
  cases hlast
  have hsilent : Silent s closed := (silent_closeAll s).trans (silent_dropKey hclosed)
  have hcursor : closed.cursor = s.cursor := (dropKey_cursor hclosed).trans s.closeAll_cursor
  have hproduced : (({ closed with keyAllowed := false }.skip 3).push .documentStart).produced =
      closed.produced ++ [.documentStart] := List.reverse_cons
  have hkeys : closed.pending = [] := by
    refine dropKey_pending hclosed ?_
    rw [closeAll]
    split
    · exact hpending
    · rw [closeBlocks_pending, hpending]
  obtain ⟨hmargin, hmargins, houter⟩ := dropKey_fields hclosed
  refine ⟨hsilent.toKeeps.trans ?_, ?_, ?_, closed.produced, hproduced, hsilent.starts⟩
  · exact
      { place := .inr (.inr ⟨rfl, Nat.lt_add_of_pos_right (by decide)⟩)
        grows := fun n _ _ ↦ by
          rw [hproduced]
          exact .push .documentStart (.refl _)
        keys := fun k hk ↦ .inl hk
        grounded := id }
  · exact
      { pending := hkeys
        keyAllowed := rfl
        blocks := fun hflow ↦ by
          have hflow' : s.closeAll.inFlow = false := by
            rw [inFlow, ← houter]
            exact hflow
          obtain ⟨hzero, hnil⟩ := closeAll_blocks hs.grounded hflow'
          exact ⟨hmargin.trans hzero, hmargins.trans hnil⟩
        grounded := hsilent.grounded hs.grounded }
  · have hmarks := marks_of_mark hrest hcolumn hmark
    rw [← hcursor] at hmarks ⊢
    exact hmarks

/-- A step that reads a token, with what it keeps. -/
theorem keeps_of_fetchFrom {ready : Scanner} {a : Char} {cs : List Char} (hs : s.Sound)
    (hready : s.Ready ready) (hrest : ready.cursor.rest = a :: cs)
    (h : ready.fetchFrom a cs = .ok s') : Keeps s s' := by
  have hsound := hready.silent.sound hs
  rcases fetchFrom_cases hrest hsound h with hsilent | ⟨hcolumn, hmark, hfetch⟩
  · exact (hready.silent.trans hsilent).toKeeps
  · have hkeeps := (fetchMark_documentStart hsound (hready.pending hs hcolumn) hrest hcolumn hmark
      hfetch).1
    exact hready.silent.toKeeps.trans hkeeps

/-- However a run ends, it keeps the tokens in front of all pending keys. -/
theorem grows_of_run (hs : s.Sound) (h : run fuel s = .ok ts) {n : Nat}
    (hn : n ≤ s.produced.length) (hpending : ∀ k ∈ s.pending, n ≤ k.before) :
    Grows n s.produced ts := by
  induction fuel generalizing s with
  | zero => cases h
  | succ fuel ih =>
    obtain ⟨ready, hready, ⟨-, closed, hclosed, rfl⟩ | ⟨a, cs, s', hrest, hfetch, hrun⟩⟩ :=
      run_succ h
    · have hall := (hready.silent.trans (silent_closeAll ready)).trans (silent_dropKey hclosed)
      exact hall.grows n hn hpending
    · have hkeeps := keeps_of_fetchFrom hs hready hrest hfetch
      refine (hkeeps.grows n hn hpending).trans (ih (hkeeps.sound hs) hrun
        (Nat.le_trans hn hkeeps.length_le) fun k hk ↦ ?_)
      rcases hkeeps.keys k hk with hk | ⟨hle, -⟩
      · exact hpending k hk
      · exact Nat.le_trans hn hle

/-- Where no key is pending, a run only goes on. -/
theorem exists_suffix_of_run (hs : s.Sound) (h : run fuel s = .ok ts) (hpending : s.pending = []) :
    ∃ suffix, ts = s.produced ++ suffix := by
  have hgrows : Grows s.produced.length s.produced ts := by
    refine grows_of_run hs h (Nat.le_refl _) fun k hk ↦ ?_
    rw [hpending] at hk
    cases hk
  have htake := hgrows.take_eq (Nat.le_refl _)
  rw [List.take_length] at htake
  refine ⟨ts.drop s.produced.length, ?_⟩
  rw [← htake, List.length_take, Nat.min_eq_left hgrows.length_le, List.take_append_drop]

/-- Whether tokens can come after a document mark with `rest` behind it. -/
def Opens (rest : List Char) (suffix : List Token) : Prop :=
  ∃ fuel s, IsFresh s ∧ s.cursor.rest = rest ∧ run fuel s = .ok (s.produced ++ suffix)

/-- The marks to come and what comes after their tokens. -/
theorem run_openings (hs : s.Sound) (h : run fuel s = .ok ts) :
    ∃ before after, openings ts = before ++ after ∧
      before.length = s.produced.count .documentStart ∧
      List.Forall₂ Opens s.cursor.marks after := by
  induction fuel generalizing s with
  | zero => cases h
  | succ fuel ih =>
    obtain ⟨ready, hready, ⟨hend, closed, hclosed, rfl⟩ | ⟨a, cs, s', hrest, hfetch, hrun⟩⟩ :=
      run_succ h
    · have hall := (hready.silent.trans (silent_closeAll ready)).trans (silent_dropKey hclosed)
      refine ⟨openings closed.produced, [], (List.append_nil _).symm, ?_, ?_⟩
      · rw [length_openings, hall.starts]
      · rw [← hready.silent.marks, Cursor.marks, hend]
        exact .nil
    · have hsound := hready.silent.sound hs
      rcases fetchFrom_cases hrest hsound hfetch with hsilent | ⟨hcolumn, hmark, hmarked⟩
      · have hall := hready.silent.trans hsilent
        rw [← hall.marks, ← hall.starts]
        exact ih (hall.sound hs) hrun
      · obtain ⟨-, hfresh, hmarks, firsts, hproduced, hcount⟩ :=
          fetchMark_documentStart hsound (hready.pending hs hcolumn) hrest hcolumn hmark hmarked
        obtain ⟨suffix, rfl⟩ := exists_suffix_of_run hfresh.sound hrun hfresh.pending
        obtain ⟨before, after, hopenings, hlength, hafter⟩ := ih hfresh.sound hrun
        -- The opening of this mark stands between those before and after it.
        have hsplit : openings (s'.produced ++ suffix) =
            (openings firsts).map (· ++ .documentStart :: suffix) ++
              suffix :: openings suffix := by
          rw [hproduced, List.append_assoc, openings_append, List.singleton_append, openings,
            if_pos rfl]
        refine ⟨(openings firsts).map (· ++ .documentStart :: suffix), suffix :: openings suffix,
          hsplit, ?_, ?_⟩
        · rw [List.length_map, length_openings, hcount, hready.silent.starts]
        · have hlast : openings suffix = after := by
            rw [hsplit, List.append_cons] at hopenings
            refine (List.append_inj hopenings ?_).2
            rw [hlength, hproduced, List.length_append, List.length_map, length_openings,
              List.count_append]
            rfl
          rw [← hready.silent.marks, hmarks, hlast]
          exact .cons ⟨fuel, s', hfresh, rfl, hrun⟩ hafter

end Scanner

end FolderCommands.Yaml
