import FolderCommands.Proofs.Yaml.Openings
import FolderCommands.Proofs.Yaml.Words

/-!
# The first line of a document

Behind a document mark, and at the start of a text, no key is pending and no block is open unless
brackets are. From there the first tokens follow from the first line that is not blank: a further
mark, the end of the text, a word, or a key with its value.
-/

namespace FolderCommands.Yaml

/-- A last token stays in its place or makes room for the start of a key. -/
theorem Grows.exists_of_singleton {ts us : List Token} {t : Token}
    (h : Grows ts.length (ts ++ [t]) us) :
    ∃ t' more, us = ts ++ t' :: more ∧ (t' = t ∨ t' = .key ∨ t' = .blockMappingStart) := by
  have hlength : ts.length < (ts ++ [t]).length := by
    rw [List.length_append]
    exact Nat.lt_succ_self _
  have htake := h.take_eq (Nat.le_of_lt hlength)
  have hget := h.getElem?_eq hlength
  rw [List.take_append_of_le_length (Nat.le_refl _), List.take_length] at htake
  rw [List.getElem?_append_right (Nat.le_refl _), Nat.sub_self, List.getElem?_cons_zero] at hget
  have hlt : ts.length < us.length := Nat.lt_of_lt_of_le hlength h.length_le
  refine ⟨us[ts.length], us.drop (ts.length + 1), ?_, ?_⟩
  · rw [← List.drop_eq_getElem_cons hlt]
    nth_rewrite 1 [← htake]
    rw [List.take_append_drop]
  · simpa only [List.getElem?_eq_getElem hlt, Option.some.injEq] using hget

namespace Scanner

variable {s s' : Scanner} {fuel column : Nat} {ts : List Token} {cs : List Char}

/-- A scanner in front of the first token of a line, where no key is pending and no block open. -/
structure IsReadyAt (s : Scanner) (column : Nat) (cs : List Char) : Prop where
  pending : s.pending = []
  keyAllowed : s.keyAllowed = !s.inFlow
  rest : s.cursor.rest = cs
  place : s.cursor.place.column = column
  blocks : s.inFlow = false → s.margin = 0 ∧ s.margins = []
  grounded : Grounded s.margin s.margins

/-! ## States without pending keys -/

theorem keys_of_pending (h : s.pending = []) : s.key = none ∧ ∀ key ∈ s.outerKeys, key = none := by
  rw [List.eq_nil_iff_forall_not_mem] at h
  refine ⟨?_, fun key hkey ↦ ?_⟩
  · cases hkey : s.key with
    | none => rfl
    | some k => exact absurd (mem_pending.2 (.inl hkey)) (h k)
  · cases key with
    | none => rfl
    | some k => exact absurd (mem_pending.2 (.inr hkey)) (h k)

theorem sound_of_pending (h : s.pending = []) (hs : Grounded s.margin s.margins) : s.Sound where
  before_le k hk := by
    rw [h] at hk
    cases hk
  place k hk := by
    rw [h] at hk
    cases hk
  grounded := hs

theorem expireKeys_of_pending (h : s.pending = []) : s.expireKeys = .ok s := by
  obtain ⟨hkey, houter⟩ := keys_of_pending h
  have hall (keys : List (Option PendingKey)) (hkeys : ∀ key ∈ keys, key = none) :
      keys.mapM (expire s.cursor.place) = .ok keys := by
    induction keys with
    | nil => rfl
    | cons key keys ih =>
      obtain ⟨rfl, hrest⟩ := List.forall_mem_cons.1 hkeys
      rw [List.mapM_cons, ih hrest]
      rfl
  have hnone : expire s.cursor.place s.key = .ok s.key := by
    rw [hkey]
    rfl
  rw [expireKeys, hnone, hall _ houter]
  rfl

theorem unindent_of_blocks (h : s.inFlow = false → s.margins = []) : s.unindent = s := by
  rw [unindent]
  split
  · rfl
  · rename_i hflow
    have hmargins := h (by simpa using hflow)
    rw [hmargins, closeBlocks, ← hmargins]

theorem closeAll_of_blocks (h : s.inFlow = false → s.margins = []) : s.closeAll = s := by
  rw [closeAll]
  split
  · rfl
  · rename_i hflow
    have hmargins := h (by simpa using hflow)
    rw [hmargins, closeBlocks, ← hmargins]

theorem dropKey_of_key (h : s.key = none) : s.dropKey = .ok s := by
  rw [dropKey, h, if_neg (by simp), ← h]

/-- A step where no key is pending and no block ends. -/
theorem exists_step_of_unindent (hs : s.Sound) (hpending : s.pending = [])
    (hunindent : s.advance.unindent = s.advance) (h : run fuel s = .ok ts) :
    (s.advance.cursor.rest = [] ∧ ∃ closed, s.advance.closeAll.dropKey = .ok closed ∧
        closed.produced = ts) ∨
      ∃ fuel' a cs s', s.advance.cursor.rest = a :: cs ∧ s.advance.fetchFrom a cs = .ok s' ∧
        Keeps s s' ∧ run fuel' s' = .ok ts := by
  cases fuel with
  | zero => cases h
  | succ fuel =>
    have hpending' : s.advance.pending = [] := hpending
    obtain ⟨ready, hready, hstep⟩ := run_succ h
    obtain ⟨expired, hexpired, heq⟩ := id hready
    rw [expireKeys_of_pending hpending'] at hexpired
    cases hexpired
    rw [hunindent] at heq
    subst heq
    rcases hstep with hend | ⟨a, cs, s', hrest, hfetch, hrun⟩
    · exact .inl hend
    · exact .inr ⟨fuel, a, cs, s', hrest, hfetch, keeps_of_fetchFrom hs hready hrest hfetch, hrun⟩

/-- The first step where no key is pending and no block open. -/
theorem exists_step_of_run (hs : s.Sound) (hpending : s.pending = [])
    (hblocks : s.inFlow = false → s.margins = []) (h : run fuel s = .ok ts) :
    (s.advance.cursor.rest = [] ∧ ts = s.produced) ∨
      ∃ fuel' a cs s', s.advance.cursor.rest = a :: cs ∧ s.advance.fetchFrom a cs = .ok s' ∧
        Keeps s s' ∧ run fuel' s' = .ok ts := by
  have hpending' : s.advance.pending = [] := hpending
  have hblocks' : s.advance.inFlow = false → s.advance.margins = [] := hblocks
  rcases exists_step_of_unindent hs hpending (unindent_of_blocks hblocks') h with
    ⟨hend, closed, hclosed, rfl⟩ | hstep
  · rw [closeAll_of_blocks hblocks', dropKey_of_key (keys_of_pending hpending').1] at hclosed
    cases hclosed
    exact .inl ⟨hend, rfl⟩
  · exact .inr hstep

namespace IsReadyAt

theorem sound (h : s.advance.IsReadyAt column cs) : s.Sound :=
  sound_of_pending h.pending h.grounded

theorem exists_step (h : s.advance.IsReadyAt column cs) (hrun : run fuel s = .ok ts) :
    (cs = [] ∧ ts = s.produced) ∨
      ∃ fuel' a cs' s', cs = a :: cs' ∧ s.advance.fetchFrom a cs' = .ok s' ∧ Keeps s s' ∧
        run fuel' s' = .ok ts := by
  have hblocks : s.inFlow = false → s.margins = [] := fun hflow ↦ (h.blocks hflow).2
  rcases exists_step_of_run h.sound h.pending hblocks hrun with
    ⟨hend, hts⟩ | ⟨fuel', a, cs', s', hrest, hs'⟩
  · exact .inl ⟨h.rest.symm.trans hend, hts⟩
  · exact .inr ⟨fuel', a, cs', s', h.rest.symm.trans hrest, hs'⟩

/-! ## Getting to a line -/

theorem of_skipBlank {n line : Nat} (hpending : s.pending = [])
    (hblocks : s.inFlow = false → s.margin = 0 ∧ s.margins = [])
    (hgrounded : Grounded s.margin s.margins)
    (hvisible : ∀ c, cs.head? = some c → isVisible c = true)
    (h : skipBlank s.inFlow s.cursor.rest s.cursor.place s.keyAllowed false =
      skipBlank s.inFlow (List.replicate n ' ' ++ cs) ⟨line, 0⟩ (!s.inFlow) false) :
    s.advance.IsReadyAt n cs := by
  rw [skipBlank_spaces, skipBlank_visible _ hvisible] at h
  have hadvance : s.advance =
      { s with cursor := ⟨cs, (⟨line, 0⟩ : Position).along n⟩, keyAllowed := !s.inFlow } := by
    rw [advance, h]
  rw [hadvance]
  exact ⟨hpending, rfl, rfl, Nat.zero_add n, hblocks, hgrounded⟩

/-- The first line of a text. -/
theorem of_start {n : Nat} (hvisible : ∀ c, cs.head? = some c → isVisible c = true) :
    (start (List.replicate n ' ' ++ cs)).advance.IsReadyAt n cs :=
  of_skipBlank rfl (fun _ ↦ ⟨rfl, rfl⟩) trivial hvisible rfl

/-- The first line behind the line of a mark. -/
theorem of_isFresh {n k : Nat} {tail : List Char} (hs : s.IsFresh)
    (hrest : s.cursor.rest = tail ++ (List.replicate (k + 1) '\n' ++ (List.replicate n ' ' ++ cs)))
    (hbreak : ∀ c ∈ tail, isBreak c = false) (htail : closesLine tail = true)
    (hvisible : ∀ c, cs.head? = some c → isVisible c = true) : s.advance.IsReadyAt n cs := by
  obtain ⟨line, hskip⟩ := skipBlank_closesLine hbreak htail k s.inFlow
    (List.replicate n ' ' ++ cs) s.cursor.place
  have hstart : skipBlank s.inFlow s.cursor.rest s.cursor.place s.keyAllowed false =
      skipBlank s.inFlow (List.replicate n ' ' ++ cs) ⟨line, 0⟩ (!s.inFlow) false := by
    rw [hrest, hs.keyAllowed, hskip]
  exact of_skipBlank hs.pending hs.blocks hs.grounded hvisible hstart

end IsReadyAt

/-- Nothing comes behind a mark in the last line. -/
theorem IsFresh.eq_produced {tail : List Char} (hs : s.IsFresh) (hrest : s.cursor.rest = tail)
    (hbreak : ∀ c ∈ tail, isBreak c = false) (htail : closesLine tail = true)
    (hrun : run fuel s = .ok ts) : ts = s.produced := by
  have hend : s.advance.cursor.rest = [] := by
    rw [advance, hrest, hs.keyAllowed]
    exact skipBlank_end hbreak htail
  rcases exists_step_of_run hs.sound hs.pending (fun hflow ↦ (hs.blocks hflow).2) hrun with
    ⟨-, hts⟩ | ⟨fuel', a, cs', s', hcons, -⟩
  · exact hts
  · rw [hend] at hcons
    cases hcons

theorem advance_of_visible (h : ∀ c, s.cursor.rest.head? = some c → isVisible c = true) :
    s.advance = s := by
  rw [advance, skipBlank_visible _ h]

/-! ## A mark -/

theorem IsReadyAt.exists_of_mark (h : s.advance.IsReadyAt 0 cs) (hmark : atMark '-' cs = true)
    (hrun : run fuel s = .ok ts) : ∃ more, ts = s.produced ++ .documentStart :: more := by
  rcases h.exists_step hrun with ⟨rfl, -⟩ | ⟨fuel', a, cs', s', rfl, hfetch, hkeeps, hrun'⟩
  · cases hmark
  obtain ⟨rest, rfl, rfl, hgap⟩ := exists_of_atMark hmark
  have hcolumn : s.advance.column = 0 := h.place
  rw [fetchFrom, if_neg (by simp), if_pos (by simp [hcolumn, hmark]), fetchMark,
    closeAll_of_blocks fun hflow ↦ (h.blocks hflow).2, dropKey_of_key (keys_of_pending h.pending).1]
    at hfetch
  cases hfetch
  have hproduced : (({ s.advance with keyAllowed := false }.skip 3).push .documentStart).produced =
      s.produced ++ [.documentStart] := List.reverse_cons
  obtain ⟨more, rfl⟩ := exists_suffix_of_run (hkeeps.sound h.sound) hrun' h.pending
  refine ⟨more, ?_⟩
  rw [hproduced, List.append_assoc, List.singleton_append]

/-! ## A word -/

theorem fetchFrom_word {a : Char} (ha : isWord a = true) (hne : a ≠ '-') :
    s.fetchFrom a cs = s.fetchPlain := by
  have hother {c : Char} (hc : isWord c = false) : a ≠ c := ne_of_isWord ha hc
  have hplain : startsPlain s.inFlow a cs = true := by
    rw [startsPlain, if_neg hne, if_neg (by
      simp [hother (c := '?') (by decide), hother (c := ':') (by decide)])]
    have hlist : ",[]\x7b\x7d#&*!|>'\"%@\x60".toList.contains a = false := by
      have hnone : ",[]\x7b\x7d#&*!|>'\"%@\x60".toList.all (!isWord ·) = true := by decide
      refine Bool.eq_false_iff.2 fun hmem ↦ ?_
      have hword := List.all_eq_true.1 hnone a (List.contains_iff_mem.1 hmem)
      rw [ha] at hword
      cases hword
    rw [isGap_of_isWord ha, isBreak_of_isWord ha, hlist]
    rfl
  unfold fetchFrom
  rw [atMark_eq_false hne, atMark_eq_false (hother (c := '.') (by decide))]
  simp only [hother (c := '%') (by decide), hother (c := '[') (by decide),
    hother (c := '{') (by decide), hother (c := ']') (by decide), hother (c := '}') (by decide),
    hother (c := ',') (by decide), hne, hother (c := '?') (by decide),
    hother (c := ':') (by decide), hother (c := '*') (by decide), hother (c := '&') (by decide),
    hother (c := '!') (by decide), hother (c := '|') (by decide), hother (c := '>') (by decide),
    hother (c := '\'') (by decide), hother (c := '"') (by decide), hplain, decide_false,
    Bool.false_and, Bool.and_false, Bool.false_eq_true, if_false, if_true]

/-- The key that is remembered at the start of a line. -/
def lineKey (s : Scanner) : Option PendingKey :=
  if s.inFlow then none else some ⟨false, s.done.length, s.cursor.place⟩

theorem IsReadyAt.saveKey_eq (h : s.IsReadyAt column cs) :
    s.saveKey = .ok { s with key := s.lineKey } := by
  have hkey := (keys_of_pending h.pending).1
  have hallowed := h.keyAllowed
  rw [saveKey, lineKey]
  cases hflow : s.inFlow with
  | true =>
    rw [hflow] at hallowed
    rw [hallowed, if_neg (by simp), if_pos rfl, ← hkey, ← hallowed]
  | false =>
    rw [hflow] at hallowed
    have hmargin : s.margin ≠ s.column + 1 := by
      rw [(h.blocks hflow).1]
      exact (Nat.succ_ne_zero _).symm
    have hallowed' : s.keyAllowed = true := hallowed
    rw [if_pos hallowed', if_neg Bool.false_ne_true, dropKey_of_key hkey]
    simp [hmargin, bind, Except.bind]

/-- The state behind a plain scalar at the start of a line. -/
def behindScalar (s : Scanner) (text : PlainText) : Scanner :=
  { s with key := s.lineKey, cursor := text.cursor, keyAllowed := text.crossesLine }.push
    (.scalar (String.ofList text.text) true)

variable {word : List Char}

/-- A word is the start of a plain scalar. -/
theorem IsReadyAt.exists_scalar (h : s.advance.IsReadyAt column (word ++ cs))
    (hword : ∀ c ∈ word, isWord c = true) (hne : word ≠ []) (hhead : word.head? ≠ some '-')
    (hrun : run fuel s = .ok ts) :
    ∃ fuel' text, readPlain s.margin s.inFlow (word ++ cs) s.advance.cursor.place .none =
        .ok text ∧ Keeps s (s.advance.behindScalar text) ∧
      run fuel' (s.advance.behindScalar text) = .ok ts := by
  obtain ⟨a, word', rfl⟩ := List.exists_cons_of_ne_nil hne
  rcases h.exists_step hrun with ⟨hnil, -⟩ | ⟨fuel', a', cs', s', hcons, hfetch, hkeeps, hrun'⟩
  · cases hnil
  cases hcons
  rw [fetchFrom_word (hword _ List.mem_cons_self) (by simpa using hhead), fetchPlain, h.saveKey_eq]
    at hfetch
  obtain ⟨text, htext, hlast⟩ := exists_of_bind_ok
    (x := readPlain s.margin s.inFlow s.advance.cursor.rest s.advance.cursor.place .none) hfetch
  obtain rfl := Except.ok.inj hlast
  rw [h.rest] at htext
  exact ⟨fuel', text, htext, hkeeps, hrun'⟩

theorem produced_behindScalar (s : Scanner) (text : PlainText) :
    (s.behindScalar text).produced = s.produced ++ [.scalar (String.ofList text.text) true] :=
  List.reverse_cons

theorem IsReadyAt.pending_behindScalar (h : s.IsReadyAt column cs) (hflow : s.inFlow = true)
    (text : PlainText) : (s.behindScalar text).pending = [] := by
  have hkey : s.lineKey = s.key := by rw [lineKey, if_pos hflow, (keys_of_pending h.pending).1]
  have hpending : (s.behindScalar text).pending = s.pending := by
    simp only [Scanner.pending, behindScalar, push, hkey]
  exact hpending.trans h.pending

/-- What a line that starts with a word gives first: the scalar, or what is put in front of it. -/
theorem IsReadyAt.exists_of_word (h : s.advance.IsReadyAt column (word ++ cs))
    (hword : ∀ c ∈ word, isWord c = true) (hne : word ≠ []) (hhead : word.head? ≠ some '-')
    (hrun : run fuel s = .ok ts) :
    ∃ t more, ts = s.produced ++ t :: more ∧ (t = .key ∨ t = .blockMappingStart ∨
      ∃ text, t = .scalar (String.ofList (word ++ text)) true) := by
  obtain ⟨fuel', text, htext, hkeeps, hrun'⟩ := h.exists_scalar hword hne hhead hrun
  rw [readPlain_word hword fun _ ↦ hhead] at htext
  obtain ⟨inner, -, rfl⟩ := exists_of_map_ok htext
  have hproduced : (s.advance.behindScalar { inner with text := word ++ inner.text }).produced =
      s.produced ++ [.scalar (String.ofList (word ++ inner.text)) true] :=
    produced_behindScalar ..
  have hpending : s.pending = [] := h.pending
  -- The word can only move behind the start of a key that begins where it does.
  have hgrows := grows_of_run (hkeeps.sound h.sound) hrun' (n := s.produced.length)
    hkeeps.length_le fun k hk ↦ by
      rcases hkeeps.keys k hk with hk | ⟨hle, -⟩
      · rw [hpending] at hk
        cases hk
      · exact hle
  rw [hproduced] at hgrows
  obtain ⟨t, more, hts, ht⟩ := hgrows.exists_of_singleton
  refine ⟨t, more, hts, ?_⟩
  rcases ht with rfl | ht
  · exact .inr (.inr ⟨inner.text, rfl⟩)
  · exact ht.imp id .inl

/-! ## A key with its value -/

/-- How a word may be written: as it is or in quotes. -/
inductive Writes (word : List Char) : Bool → List Char → Prop
  | plain : Writes word true word
  | single : Writes word false ('\'' :: (word ++ ['\'']))
  | double : Writes word false ('"' :: (word ++ ['"']))

theorem Writes.exists_cons {word written : List Char} {isPlain : Bool}
    (h : Writes word isPlain written) (hword : ∀ c ∈ word, isWord c = true) (hne : word ≠ []) :
    ∃ a more, written = a :: more ∧ isVisible a = true := by
  cases h with
  | plain =>
    obtain ⟨a, more, rfl⟩ := List.exists_cons_of_ne_nil hne
    exact ⟨a, more, rfl, isVisible_of_isWord (hword a List.mem_cons_self)⟩
  | single | double => exact ⟨_, _, rfl, rfl⟩

/-- The parts of a text that starts with a key and a value that are words, in one line. -/
structure Entry (key word cs : List Char) where
  /-- The white space in front of the colon. -/
  gap : List Char
  /-- The white space behind the colon. -/
  space : List Char
  written : List Char
  isPlain : Bool
  /-- The end of the line. -/
  tail : List Char
  breaks : Nat
  /-- The lines after it. -/
  rest : List Char
  eq_append : cs = key ++ (gap ++ ':' :: (space ++ (written ++ (tail ++
    (List.replicate breaks '\n' ++ rest)))))
  gap_isGap : ∀ c ∈ gap, isGap c = true
  space_isGap : ∀ c ∈ space, isGap c = true
  space_ne_nil : space ≠ []
  writes : Writes word isPlain written
  tail_closesLine : closesLine tail = true
  rest_eq_nil : breaks = 0 → rest = []

/-- The value and what comes behind it. -/
def Entry.valueText {key word cs : List Char} (e : Entry key word cs) : List Char :=
  e.written ++ (e.tail ++ (List.replicate e.breaks '\n' ++ e.rest))

theorem Entry.eq_valueText {key word cs : List Char} (e : Entry key word cs) :
    cs = key ++ (e.gap ++ ':' :: (e.space ++ e.valueText)) :=
  e.eq_append

theorem Entry.head?_space {key word cs : List Char} (e : Entry key word cs) :
    (e.space ++ e.valueText).head?.any isGap = true := by
  obtain ⟨c, rest, hspace⟩ := List.exists_cons_of_ne_nil e.space_ne_nil
  rw [hspace]
  exact e.space_isGap c (by rw [hspace]; exact List.mem_cons_self)

theorem Entry.exists_cons {key word cs : List Char} (e : Entry key word cs)
    (hword : ∀ c ∈ word, isWord c = true) (hne : word ≠ []) :
    ∃ a more, e.valueText = a :: more ∧ isVisible a = true := by
  obtain ⟨a, more, hwritten, hvisible⟩ := e.writes.exists_cons hword hne
  exact ⟨a, _, by rw [valueText, hwritten]; rfl, hvisible⟩

variable {key : List Char}

theorem fetchFrom_colon (h : cs.head?.any isGap = true) : s.fetchFrom ':' cs = s.fetchValue := by
  have hgap : atGapOrBreak cs = true := by
    cases cs with
    | nil => cases h
    | cons c cs => exact Bool.or_eq_true_iff.2 (.inl h)
  unfold fetchFrom
  rw [atMark_eq_false (by decide), atMark_eq_false (by decide)]
  simp [hgap]

/-- The key is read up to the colon. -/
theorem IsReadyAt.exists_key (h : s.advance.IsReadyAt column cs) (e : Entry key word cs)
    (hkey : ∀ c ∈ key, isWord c = true) (hne : key ≠ []) (hhead : key.head? ≠ some '-')
    (hrun : run fuel s = .ok ts) :
    ∃ fuel' n, Keeps s (s.advance.behindScalar ⟨⟨key, ⟨':' :: (e.space ++ e.valueText),
        s.advance.cursor.place.along n⟩⟩, false⟩) ∧
      run fuel' (s.advance.behindScalar ⟨⟨key, ⟨':' :: (e.space ++ e.valueText),
        s.advance.cursor.place.along n⟩⟩, false⟩) = .ok ts := by
  rw [e.eq_valueText] at h
  obtain ⟨fuel', text, htext, hkeeps, hrun'⟩ := h.exists_scalar hkey hne hhead hrun
  have hcolumn : (s.advance.cursor.place.along key.length).column ≠ 0 := by
    have hlength := List.length_pos_of_ne_nil hne
    simp only [Position.along]
    omega
  have halong (p : Position) (m n : Nat) : (p.along m).along n = p.along (m + n) := by
    simp [Position.along, Nat.add_assoc]
  rw [readPlain_word hkey fun _ ↦ hhead, readPlain_colon e.gap_isGap hcolumn e.head?_space,
    halong] at htext
  obtain rfl := Except.ok.inj htext
  simp only [List.append_nil] at hkeeps hrun'
  exact ⟨fuel', _, hkeeps, hrun'⟩

/-- The state behind the colon of the first key of a block. -/
def behindColon (s : Scanner) (key : List Char) (c : Cursor) : Scanner :=
  { s with
    cursor := c, keyAllowed := false, key := none, margin := s.column + 1, margins := [0]
    done := .value :: .scalar (String.ofList key) true :: .key :: .blockMappingStart :: s.done }

theorem produced_behindColon (s : Scanner) (key : List Char) (c : Cursor) :
    (s.behindColon key c).produced = s.produced ++
      [.blockMappingStart, .key, .scalar (String.ofList key) true, .value] := by
  simp [produced, behindColon]

theorem pending_behindColon (hflow : s.inFlow = false) (key : List Char) (c : Cursor) :
    (s.behindColon key c).pending = [] := by
  have houter : s.outerKeys = [] := by simpa [inFlow] using hflow
  rw [List.eq_nil_iff_forall_not_mem]
  intro k hk
  rw [mem_pending] at hk
  simp [behindColon, houter] at hk

theorem advance_behindColon {space : List Char} (hspace : ∀ c ∈ space, isGap c = true)
    (hvisible : ∀ c, cs.head? = some c → isVisible c = true) (key : List Char) (p : Position) :
    (s.behindColon key ⟨space ++ cs, p⟩).advance =
      s.behindColon key ⟨cs, p.along space.length⟩ := by
  have hskip : skipBlank s.inFlow (space ++ cs) p false false =
      (⟨cs, p.along space.length⟩, false) := by
    rw [skipBlank_gaps hspace, skipBlank_visible _ hvisible]
  simp only [advance, behindColon, inFlow] at hskip ⊢
  rw [hskip]

/-- The value of a key does not end the block of the key. -/
theorem unindent_behindColon {c : Cursor} (hc : s.column ≤ c.place.column) (key : List Char) :
    (s.behindColon key c).unindent = s.behindColon key c := by
  have hbound : ¬ (s.behindColon key c).column + 1 < (s.behindColon key c).margin := by
    change ¬ c.place.column + 1 < s.column + 1
    omega
  rw [unindent]
  split
  · rfl
  · rw [show (s.behindColon key c).margins = [0] from rfl, closeBlocks, if_neg hbound]
    rfl

theorem fetchValue_behindScalar (hflow : s.inFlow = false) (hblocks : s.margin = 0 ∧ s.margins = [])
    (key rest : List Char) (p : Position) :
    (s.behindScalar ⟨⟨key, ⟨':' :: rest, p⟩⟩, false⟩).fetchValue =
      .ok (s.behindColon key ⟨rest, p.next⟩) := by
  obtain ⟨hmargin, hmargins⟩ := hblocks
  have houter : s.outerKeys.isEmpty = true := by simpa [inFlow] using hflow
  have hlate : s.done.length + 1 + 1 - s.done.length = 2 := by omega
  simp [fetchValue, behindScalar, lineKey, push, insert, indentTo, inFlow, houter, hmargin,
    hmargins, hlate, skip, behindColon, Cursor.skip, Position.next, column]

/-- A key may have been given up, but no other key is pending behind a first key. -/
theorem expireKeys_behindScalar (hflow : s.inFlow = false) {text : PlainText}
    (h : (s.behindScalar text).expireKeys = .ok s') :
    s' = s.behindScalar text ∨ s' = { s.behindScalar text with key := none } := by
  have houter : s.outerKeys = [] := by simpa [inFlow] using hflow
  obtain ⟨key, hkey, hrest⟩ := exists_of_bind_ok h
  obtain ⟨outerKeys, houterKeys, hlast⟩ := exists_of_bind_ok hrest
  obtain rfl := Except.ok.inj hlast
  have hnil : outerKeys = s.outerKeys := by
    simp only [behindScalar, push, houter] at houterKeys
    cases houterKeys
    exact houter.symm
  subst hnil
  simp only [behindScalar, push, lineKey, hflow, expire] at hkey
  simp only [Bool.false_eq_true, if_false] at hkey
  split at hkey
  · cases hkey
    exact .inr rfl
  · cases hkey
    refine .inl ?_
    simp [behindScalar, push, lineKey, hflow]

/-- Behind a key of a block, the colon is read next. -/
theorem IsReadyAt.exists_behindColon (h : s.IsReadyAt column cs) (hflow : s.inFlow = false)
    {key rest : List Char} {p : Position} (hspace : rest.head?.any isGap = true)
    (hsound : (s.behindScalar ⟨⟨key, ⟨':' :: rest, p⟩⟩, false⟩).Sound)
    (hrun : run fuel (s.behindScalar ⟨⟨key, ⟨':' :: rest, p⟩⟩, false⟩) = .ok ts) :
    ∃ fuel', (s.behindColon key ⟨rest, p.next⟩).Sound ∧
      run fuel' (s.behindColon key ⟨rest, p.next⟩) = .ok ts := by
  cases fuel with
  | zero => cases hrun
  | succ fuel =>
    have hvisible : ∀ c, (':' :: rest).head? = some c → isVisible c = true := by
      rintro c ⟨⟩
      rfl
    have hadvance := advance_of_visible
      (s := s.behindScalar ⟨⟨key, ⟨':' :: rest, p⟩⟩, false⟩) hvisible
    obtain ⟨ready, hready, hstep⟩ := run_succ hrun
    obtain ⟨expired, hexpired, hunindent⟩ := id hready
    rw [hadvance] at hexpired
    have hcases := expireKeys_behindScalar hflow hexpired
    have hblocks : expired.inFlow = false ∧ expired.margins = [] := by
      rcases hcases with rfl | rfl <;> exact ⟨hflow, (h.blocks hflow).2⟩
    rw [unindent_of_blocks fun _ ↦ hblocks.2] at hunindent
    subst hunindent
    have hcursor : expired.cursor.rest = ':' :: rest := by rcases hcases with rfl | rfl <;> rfl
    rcases hstep with ⟨hend, -⟩ | ⟨a, cs', s', hcons, hfetch, hrun'⟩
    · rw [hcursor] at hend
      cases hend
    rw [hcursor] at hcons
    cases hcons
    have hkeeps := keeps_of_fetchFrom hsound hready hcursor hfetch
    rw [fetchFrom_colon hspace] at hfetch
    rcases hcases with rfl | rfl
    · rw [fetchValue_behindScalar hflow (h.blocks hflow)] at hfetch
      cases hfetch
      exact ⟨fuel, hkeeps.sound hsound, hrun'⟩
    -- A key that is too long is no longer remembered, and there is no value without a key.
    · have houter : s.outerKeys = [] := by simpa [inFlow] using hflow
      rw [fetchValue] at hfetch
      simp [behindScalar, push, inFlow, houter] at hfetch

/-- A key in front of its value. -/
theorem IsReadyAt.exists_colon (h : s.advance.IsReadyAt column cs) (e : Entry key word cs)
    (hkey : ∀ c ∈ key, isWord c = true) (hne : key ≠ []) (hhead : key.head? ≠ some '-')
    (hrun : run fuel s = .ok ts) :
    (∃ more, ts = s.produced ++ .scalar (String.ofList key) true :: more) ∨
      s.inFlow = false ∧ ∃ fuel' n,
        (s.advance.behindColon key ⟨e.space ++ e.valueText,
          s.advance.cursor.place.along (n + 1)⟩).Sound ∧
        run fuel' (s.advance.behindColon key ⟨e.space ++ e.valueText,
          s.advance.cursor.place.along (n + 1)⟩) = .ok ts := by
  obtain ⟨fuel', n, hkeeps, hrun'⟩ := h.exists_key e hkey hne hhead hrun
  have hsound := hkeeps.sound h.sound
  cases hflow : s.inFlow with
  | true =>
    obtain ⟨more, rfl⟩ := exists_suffix_of_run hsound hrun' (h.pending_behindScalar hflow _)
    refine .inl ⟨more, ?_⟩
    rw [produced_behindScalar, List.append_assoc]
    rfl
  | false =>
    obtain ⟨fuel'', hsound', hrun''⟩ := h.exists_behindColon hflow e.head?_space hsound hrun'
    exact .inr ⟨rfl, fuel'', n, hsound', hrun''⟩

theorem saveKey_of_not (h : s.keyAllowed = false) : s.saveKey = .ok s := by
  rw [saveKey, if_neg (by simp [h])]

theorem fetchFrom_single (s : Scanner) (cs : List Char) :
    s.fetchFrom '\'' cs = s.fetchQuoted false := by
  unfold fetchFrom
  rw [atMark_eq_false (by decide), atMark_eq_false (by decide)]
  simp

theorem fetchFrom_double (s : Scanner) (cs : List Char) :
    s.fetchFrom '"' cs = s.fetchQuoted true := by
  unfold fetchFrom
  rw [atMark_eq_false (by decide), atMark_eq_false (by decide)]
  simp

theorem fetchQuoted_of_not (h : s.keyAllowed = false) (isDouble : Bool) :
    s.fetchQuoted isDouble =
      (if isDouble then readDouble (s.cursor.skip 1).rest (s.cursor.skip 1).place .none none
        else readSingle (s.cursor.skip 1).rest (s.cursor.skip 1).place .none) >>= fun scalar ↦
      .ok ({ s with cursor := scalar.cursor, keyAllowed := false }.push
        (.scalar (String.ofList scalar.text) false)) := by
  rw [fetchQuoted, saveKey_of_not h]
  cases isDouble <;> rfl

/-- A scalar in quotes where no key may start. -/
theorem of_fetchQuoted {isDouble : Bool} {a : Char} {c : Cursor} (hallowed : s.keyAllowed = false)
    (hrest : s.cursor.rest = a :: cs) (h : s.fetchQuoted isDouble = .ok s')
    (hread : (if isDouble then readDouble cs s.cursor.place.next .none none
      else readSingle cs s.cursor.place.next .none) = .ok ⟨word, c⟩) :
    s'.pending = s.pending ∧
      s'.produced = s.produced ++ [.scalar (String.ofList word) false] := by
  have hcursor : s.cursor.skip 1 = ⟨cs, s.cursor.place.next⟩ := by
    rw [Cursor.skip, hrest]
    rfl
  rw [fetchQuoted_of_not hallowed, hcursor, hread] at h
  obtain rfl := Except.ok.inj h
  exact ⟨rfl, List.reverse_cons⟩

/-- What stands behind a quoted word is no quote. -/
theorem head?_ne_of_closesLine {tail : List Char} (h : closesLine tail = true) {k : Nat}
    (hk : k = 0 → cs = []) : (tail ++ (List.replicate k '\n' ++ cs)).head? ≠ some '\'' := by
  cases tail with
  | nil =>
    cases k with
    | zero =>
      rw [hk rfl]
      rintro ⟨⟩
    | succ k => rintro ⟨⟩
  | cons c tail =>
    rintro ⟨⟩
    cases h

/-- A word that is written as a value is read as it is. -/
theorem exists_of_written {written tail rest cs' : List Char} {isPlain : Bool} {k : Nat} {a : Char}
    (hwrites : Writes word isPlain written) (hword : ∀ c ∈ word, isWord c = true)
    (hhead : word.head? ≠ some '-') (hne : word ≠ []) (hclose : closesLine tail = true)
    (hk : k = 0 → rest = []) (hends : isPlain = true → EndsScalar s.margin rest)
    (hallowed : s.keyAllowed = false) (hflow : s.inFlow = false) (hcolumn : s.column ≠ 0)
    (hrest : s.cursor.rest = a :: cs')
    (heq : a :: cs' = written ++ (tail ++ (List.replicate k '\n' ++ rest)))
    (h : s.fetchFrom a cs' = .ok s') :
    s'.pending = s.pending ∧
      s'.produced = s.produced ++ [.scalar (String.ofList word) isPlain] := by
  cases hwrites with
  | plain =>
    obtain ⟨b, word', rfl⟩ := List.exists_cons_of_ne_nil hne
    rw [List.cons_append, List.cons.injEq] at heq
    obtain ⟨rfl, rfl⟩ := heq
    obtain ⟨c, crosses, hread⟩ := readPlain_closesLine hclose (hends rfl) hk
      (s.cursor.place.along (a :: word').length)
    rw [fetchFrom_word (hword _ List.mem_cons_self) (by simpa using hhead), fetchPlain,
      saveKey_of_not hallowed] at h
    obtain ⟨text, htext, hlast⟩ := exists_of_bind_ok
      (x := readPlain s.margin s.inFlow s.cursor.rest s.cursor.place .none) h
    obtain rfl := Except.ok.inj hlast
    rw [hrest, hflow, ← List.cons_append, readPlain_word hword fun hzero ↦ absurd hzero hcolumn,
      hread] at htext
    obtain rfl := Except.ok.inj htext
    refine ⟨rfl, ?_⟩
    dsimp only
    rw [List.append_nil]
    exact List.reverse_cons
  | single =>
    simp only [List.cons_append, List.cons.injEq, List.append_assoc, List.nil_append] at heq
    obtain ⟨rfl, rfl⟩ := heq
    obtain ⟨c, hread⟩ := readSingle_word hword s.cursor.place.next (Nat.succ_ne_zero _)
      (head?_ne_of_closesLine hclose hk)
    rw [fetchFrom_single] at h
    exact of_fetchQuoted hallowed hrest h hread
  | double =>
    simp only [List.cons_append, List.cons.injEq, List.append_assoc, List.nil_append] at heq
    obtain ⟨rfl, rfl⟩ := heq
    obtain ⟨c, hread⟩ := readDouble_word hword (tail ++ (List.replicate k '\n' ++ rest))
      s.cursor.place.next (Nat.succ_ne_zero _)
    rw [fetchFrom_double] at h
    exact of_fetchQuoted hallowed hrest h hread

/-- What a line with a key and its value gives first. Inside brackets the key is a scalar of its
own. -/
theorem IsReadyAt.exists_entry (h : s.advance.IsReadyAt column cs) (e : Entry key word cs)
    (hkey : ∀ c ∈ key, isWord c = true) (hkeyne : key ≠ []) (hkeyhead : key.head? ≠ some '-')
    (hword : ∀ c ∈ word, isWord c = true) (hne : word ≠ []) (hhead : word.head? ≠ some '-')
    (hends : e.isPlain = true → EndsScalar (column + 1) e.rest) (hrun : run fuel s = .ok ts) :
    (∃ more, ts = s.produced ++ .scalar (String.ofList key) true :: more) ∨
      ∃ more, ts = s.produced ++ .blockMappingStart :: .key :: .scalar (String.ofList key) true ::
        .value :: .scalar (String.ofList word) e.isPlain :: more := by
  rcases h.exists_colon e hkey hkeyne hkeyhead hrun with hscalar | ⟨hflow, fuel', n, hsound, hrun'⟩
  · exact .inl hscalar
  refine .inr ?_
  generalize hplace : s.advance.cursor.place.along (n + 1) = p at hsound hrun'
  have hp : column + 1 ≤ p.column := by
    rw [← hplace, ← h.place]
    simp only [Position.along]
    omega
  have hcolumn : s.advance.column = column := h.place
  obtain ⟨a, more, hvalue, hvisible⟩ := e.exists_cons hword hne
  have hpending := pending_behindColon (s := s.advance) hflow key ⟨e.space ++ e.valueText, p⟩
  have hfirst : ∀ c, e.valueText.head? = some c → isVisible c = true := by
    rw [hvalue]
    rintro c ⟨⟩
    exact hvisible
  have hadvance := advance_behindColon (s := s.advance) e.space_isGap hfirst key p
  have hplace' : column + 1 ≤ (p.along e.space.length).column := by
    simp only [Position.along]
    omega
  have hunindent := unindent_behindColon (s := s.advance)
    (c := ⟨e.valueText, p.along e.space.length⟩) (hcolumn ▸ Nat.le_of_succ_le hplace') key
  rw [← hadvance] at hunindent
  rcases exists_step_of_unindent hsound hpending hunindent hrun' with
    ⟨hend, -⟩ | ⟨fuel'', b, cs', s', hrest, hfetch, hkeeps, hrun''⟩
  · rw [hadvance, behindColon, hvalue] at hend
    cases hend
  rw [hadvance] at hrest hfetch
  have hcolumn' : (s.advance.behindColon key ⟨e.valueText, p.along e.space.length⟩).column ≠ 0 :=
    Nat.ne_of_gt (Nat.lt_of_lt_of_le (Nat.succ_pos _) hplace')
  rw [← hcolumn] at hends
  obtain ⟨hpending', hproduced⟩ := exists_of_written
    (s := s.advance.behindColon key ⟨e.valueText, p.along e.space.length⟩) e.writes
    hword hhead hne e.tail_closesLine e.rest_eq_nil hends rfl hflow hcolumn' hrest hrest.symm hfetch
  obtain ⟨rest, rfl⟩ := exists_suffix_of_run (hkeeps.sound hsound) hrun''
    (hpending'.trans (pending_behindColon hflow key ⟨e.valueText, p.along e.space.length⟩))
  refine ⟨rest, ?_⟩
  rw [hproduced, produced_behindColon]
  simp only [List.append_assoc, List.cons_append, List.nil_append]
  rfl

end Scanner

end FolderCommands.Yaml
