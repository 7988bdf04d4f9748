import FolderCommands.Proofs.Yaml.Passing
import Mathlib.Logic.Basic

/-!
# What a step of the scanner keeps

A step adds tokens at the end, and in front of what it has read only where a key is pending. Keys
are pending behind the cursor, and none is pending any more at the start of a line. So whatever
comes after a document mark leaves the tokens up to the mark alone.
-/

namespace FolderCommands.Yaml

/-- From some tokens to others by adding tokens: any at the end, starts of keys behind the first
`n` as well. -/
inductive Grows (n : Nat) : List Token → List Token → Prop
  | refl (ts : List Token) : Grows n ts ts
  | push {ts us : List Token} (t : Token) (h : Grows n (ts ++ [t]) us) : Grows n ts us
  | insert {ts us : List Token} {before : Nat} {t : Token} (hn : n ≤ before)
      (hbefore : before ≤ ts.length) (ht : t = .key ∨ t = .blockMappingStart)
      (h : Grows n (ts.take before ++ t :: ts.drop before) us) : Grows n ts us

namespace Grows

variable {n : Nat} {ts us vs : List Token}

theorem trans (h : Grows n ts us) (h' : Grows n us vs) : Grows n ts vs := by
  induction h with
  | refl => exact h'
  | push t _ ih => exact .push t (ih h')
  | insert hn hbefore ht _ ih => exact .insert hn hbefore ht (ih h')

theorem length_le (h : Grows n ts us) : ts.length ≤ us.length := by
  induction h with
  | refl => exact Nat.le_refl _
  | push t _ ih =>
    rw [List.length_append] at ih
    omega
  | insert _ hbefore _ _ ih =>
    rw [List.length_append, List.length_cons, List.length_take, List.length_drop] at ih
    omega

/-- The first tokens stay. -/
theorem take_eq (h : Grows n ts us) (hn : n ≤ ts.length) : us.take n = ts.take n := by
  induction h with
  | refl => rfl
  | push t _ ih =>
    rw [ih (by rw [List.length_append]; omega), List.take_append_of_le_length hn]
  | @insert ts us before t hn' hbefore _ _ ih =>
    rw [ih (by
        rw [List.length_append, List.length_cons, List.length_take, List.length_drop]
        omega),
      List.take_append_of_le_length (by rw [List.length_take]; omega), List.take_take,
      Nat.min_eq_left hn']

/-- The first token that may move is replaced by the start of a key only. -/
theorem getElem?_eq (h : Grows n ts us) (hn : n < ts.length) :
    us[n]? = ts[n]? ∨ us[n]? = some .key ∨ us[n]? = some .blockMappingStart := by
  induction h with
  | refl => exact .inl rfl
  | @push ts us t _ ih =>
    have hlength : n < (ts ++ [t]).length := by
      rw [List.length_append]
      exact Nat.lt_add_right 1 hn
    rcases ih hlength with ih | ih
    · rw [List.getElem?_append_left hn] at ih
      exact .inl ih
    · exact .inr ih
  | @insert ts us before t hn' hbefore ht _ ih =>
    have hlength : n < (ts.take before ++ t :: ts.drop before).length := by
      rw [List.length_append, List.length_cons, List.length_take, List.length_drop]
      omega
    rcases ih hlength with ih | ih
    · rcases Nat.lt_or_eq_of_le hn' with hlt | rfl
      · rw [List.getElem?_append_left (by rw [List.length_take]; omega),
          List.getElem?_take_of_lt hlt] at ih
        exact .inl ih
      · rw [List.getElem?_append_right (by rw [List.length_take]; omega), List.length_take,
          Nat.min_eq_left hbefore, Nat.sub_self, List.getElem?_cons_zero] at ih
        rcases ht with rfl | rfl
        · exact .inr (.inl ih)
        · exact .inr (.inr ih)
    · exact .inr ih

end Grows

namespace Scanner

/-- The tokens so far, first first. -/
def produced (s : Scanner) : List Token :=
  s.done.reverse

theorem produced_push (s : Scanner) (t : Token) : (s.push t).produced = s.produced ++ [t] :=
  List.reverse_cons

/-- All keys that are pending. -/
def pending (s : Scanner) : List PendingKey :=
  (s.key :: s.outerKeys).filterMap id

theorem mem_pending {s : Scanner} {k : PendingKey} :
    k ∈ s.pending ↔ s.key = some k ∨ some k ∈ s.outerKeys := by
  simp [pending, eq_comm]

/-- Whether margins go down to zero and are positive before. -/
def Grounded : Nat → List Nat → Prop
  | 0, [] => True
  | _ + 1, outer :: margins => Grounded outer margins
  | _, _ => False

/-- Pending keys stand between tokens, behind the cursor, and the margins go down to zero. -/
structure Sound (s : Scanner) : Prop where
  before_le : ∀ k ∈ s.pending, k.before ≤ s.produced.length
  place : ∀ k ∈ s.pending, k.place.Before s.cursor.place
  grounded : Grounded s.margin s.margins

/-- One state of a scanner after another, in the same text. -/
structure Keeps (s s' : Scanner) : Prop where
  place : s'.cursor.place = s.cursor.place ∨ s.cursor.place.Before s'.cursor.place
  grows : ∀ n ≤ s.produced.length, (∀ k ∈ s.pending, n ≤ k.before) →
    Grows n s.produced s'.produced
  keys : ∀ k ∈ s'.pending, k ∈ s.pending ∨
    s.produced.length ≤ k.before ∧ k.before ≤ s'.produced.length ∧
      k.place.Before s'.cursor.place
  grounded : Grounded s.margin s.margins → Grounded s'.margin s'.margins

variable {s s' s'' : Scanner}

namespace Keeps

theorem length_le (h : Keeps s s') : s.produced.length ≤ s'.produced.length :=
  (h.grows 0 (Nat.zero_le _) fun _ _ ↦ Nat.zero_le _).length_le

theorem sound (h : Keeps s s') (hs : s.Sound) : s'.Sound where
  before_le k hk := by
    rcases h.keys k hk with hk | ⟨-, hle, -⟩
    · exact Nat.le_trans (hs.before_le k hk) h.length_le
    · exact hle
  place k hk := by
    rcases h.keys k hk with hk | ⟨-, -, hplace⟩
    · rcases h.place with heq | hbefore
      · rw [heq]
        exact hs.place k hk
      · exact (hs.place k hk).trans hbefore
    · exact hplace
  grounded := h.grounded hs.grounded

theorem trans (h : Keeps s s') (h' : Keeps s' s'') : Keeps s s'' where
  place := by
    rcases h'.place with heq | hbefore
    · rw [heq]
      exact h.place
    · rcases h.place with heq | hbefore'
      · rw [← heq]
        exact .inr hbefore
      · exact .inr (hbefore'.trans hbefore)
  grows n hn hpending := by
    refine (h.grows n hn hpending).trans (h'.grows n (Nat.le_trans hn h.length_le) fun k hk ↦ ?_)
    rcases h.keys k hk with hk | ⟨hle, -, -⟩
    · exact hpending k hk
    · exact Nat.le_trans hn hle
  keys k hk := by
    rcases h'.keys k hk with hk | ⟨hle, hle', hplace⟩
    · rcases h.keys k hk with hk | ⟨hle, hle', hplace⟩
      · exact .inl hk
      · refine .inr ⟨hle, Nat.le_trans hle' h'.length_le, ?_⟩
        rcases h'.place with heq | hbefore
        · rw [heq]
          exact hplace
        · exact hplace.trans hbefore
    · exact .inr ⟨Nat.le_trans h.length_le hle, hle', hplace⟩
  grounded := h'.grounded ∘ h.grounded

end Keeps

/-- A step that neither passes a document mark nor makes a token of one. -/
structure Silent (s s' : Scanner) : Prop extends Keeps s s' where
  passes : Passes s.cursor s'.cursor
  starts : s'.produced.count .documentStart = s.produced.count .documentStart

theorem Silent.trans (h : Silent s s') (h' : Silent s' s'') : Silent s s'' where
  toKeeps := h.toKeeps.trans h'.toKeeps
  passes := h.passes.trans h'.passes
  starts := h'.starts.trans h.starts

theorem Silent.marks (h : Silent s s') : s'.cursor.marks = s.cursor.marks :=
  h.passes.marks_eq

/-! ## Parts of a step -/

/-- What changes neither the tokens nor the margins, adds no key and passes no mark. -/
theorem silent_of_passes (hcursor : Passes s.cursor s'.cursor) (hdone : s'.done = s.done)
    (hmargin : s'.margin = s.margin) (hmargins : s'.margins = s.margins)
    (hkeys : ∀ k ∈ s'.pending, k ∈ s.pending) : Silent s s' where
  place := by
    rcases hcursor.eq_or_before with heq | hbefore
    · rw [heq]
      exact .inl rfl
    · exact .inr hbefore
  grows n _ _ := by
    rw [produced, produced, hdone]
    exact .refl _
  keys k hk := .inl (hkeys k hk)
  grounded h := by rwa [hmargin, hmargins]
  passes := hcursor
  starts := by rw [produced, produced, hdone]

theorem silent_push (s : Scanner) {t : Token} (ht : t ≠ .documentStart) : Silent s (s.push t) where
  place := .inl rfl
  grows n _ _ := by
    rw [produced_push]
    exact .push t (.refl _)
  keys k hk := .inl hk
  grounded h := h
  passes := .refl _
  starts := by
    rw [produced_push, List.count_append, List.count_singleton, if_neg (by simpa using ht),
      Nat.add_zero]

theorem silent_forget (s : Scanner) : Silent s { s with key := none } := by
  refine silent_of_passes (.refl _) rfl rfl rfl fun k hk ↦ ?_
  rw [mem_pending] at hk ⊢
  rcases hk with hk | hk
  · cases hk
  · exact .inr hk

theorem eq_of_dropKey (h : s.dropKey = .ok s') : s' = { s with key := none } := by
  rw [dropKey] at h
  split at h <;> cases h
  rfl

theorem silent_dropKey (h : s.dropKey = .ok s') : Silent s s' := by
  rw [eq_of_dropKey h]
  exact silent_forget s

theorem dropKey_cursor (h : s.dropKey = .ok s') : s'.cursor = s.cursor := by
  rw [eq_of_dropKey h]

theorem dropKey_done (h : s.dropKey = .ok s') : s'.done = s.done := by
  rw [eq_of_dropKey h]

/-- A key that is remembered where the cursor is, and the token that starts there. -/
theorem silent_saveKey (h : s.saveKey = .ok s') {c : Cursor} (hcursor : Passes s.cursor c)
    (hplace : s.cursor.place.Before c.place) : Silent s { s' with cursor := c } := by
  rw [saveKey] at h
  split at h
  · obtain ⟨dropped, hdropped, hsaved⟩ := exists_of_bind_ok h
    cases hsaved
    have hdrop := silent_dropKey hdropped
    have hmove : Silent dropped { dropped with cursor := c } :=
      silent_of_passes (dropKey_cursor hdropped ▸ hcursor) rfl rfl rfl fun _ hk ↦ hk
    have hall := hdrop.trans hmove
    refine { hall with keys := fun k hk ↦ ?_ }
    rw [mem_pending] at hk
    rcases hk with hk | hk
    · cases hk
      refine .inr ⟨Nat.le_of_eq ?_, Nat.le_of_eq List.length_reverse.symm, ?_⟩
      · rw [produced, List.length_reverse, dropKey_done hdropped]
      · rw [dropKey_cursor hdropped]
        exact hplace
    · exact hall.keys k (mem_pending.2 (.inr hk))
  · cases h
    exact silent_of_passes hcursor rfl rfl rfl fun k hk ↦ hk

theorem expire_eq_some {place : Position} {key key' : Option PendingKey} {k : PendingKey}
    (h : expire place key = .ok key') (hk : key' = some k) :
    key = some k ∧ ¬ k.place.line < place.line := by
  subst hk
  unfold expire at h
  split at h
  · cases h
  · rename_i k'
    split at h
    · split at h <;> cases h
    · rename_i hnear
      cases h
      simp only [Bool.or_eq_true, decide_eq_true_eq, not_or] at hnear
      exact ⟨rfl, hnear.1⟩

theorem mem_of_mapM_expire {place : Position} {keys keys' : List (Option PendingKey)}
    {k : PendingKey} (h : keys.mapM (expire place) = .ok keys') (hk : some k ∈ keys') :
    some k ∈ keys ∧ ¬ k.place.line < place.line := by
  induction keys generalizing keys' with
  | nil =>
    cases h
    cases hk
  | cons key keys ih =>
    rw [List.mapM_cons] at h
    obtain ⟨key', hkey, hkeys⟩ := exists_of_bind_ok h
    obtain ⟨rest, hrest, hlast⟩ := exists_of_bind_ok hkeys
    cases hlast
    rcases List.mem_cons.1 hk with hk | hk
    · obtain ⟨rfl, hline⟩ := expire_eq_some hkey hk.symm
      exact ⟨List.mem_cons_self, hline⟩
    · obtain ⟨hmem, hline⟩ := ih hrest hk
      exact ⟨List.mem_cons_of_mem _ hmem, hline⟩

theorem mem_of_expireKeys (h : s.expireKeys = .ok s') {k : PendingKey} (hk : k ∈ s'.pending) :
    k ∈ s.pending ∧ ¬ k.place.line < s.cursor.place.line := by
  obtain ⟨key, hkey, hrest⟩ := exists_of_bind_ok h
  obtain ⟨outerKeys, houter, hlast⟩ := exists_of_bind_ok hrest
  cases hlast
  rw [mem_pending] at hk ⊢
  rcases hk with hk | hk
  · obtain ⟨hmem, hline⟩ := expire_eq_some hkey hk
    exact ⟨.inl hmem, hline⟩
  · obtain ⟨hmem, hline⟩ := mem_of_mapM_expire houter hk
    exact ⟨.inr hmem, hline⟩

theorem silent_expireKeys (h : s.expireKeys = .ok s') : Silent s s' := by
  have hkeys (k : PendingKey) (hk : k ∈ s'.pending) : k ∈ s.pending := (mem_of_expireKeys h hk).1
  obtain ⟨key, -, hrest⟩ := exists_of_bind_ok h
  obtain ⟨outerKeys, -, hlast⟩ := exists_of_bind_ok hrest
  cases hlast
  exact silent_of_passes (.refl _) rfl rfl rfl hkeys

/-- At the start of a line no key is pending any more. -/
theorem pending_of_expireKeys (h : s.expireKeys = .ok s') (hs : s.Sound)
    (hcolumn : s.cursor.place.column = 0) : s'.pending = [] := by
  rw [List.eq_nil_iff_forall_not_mem]
  intro k hk
  obtain ⟨hmem, hline⟩ := mem_of_expireKeys h hk
  rcases hs.place k hmem with hbefore | ⟨-, hbefore⟩
  · exact hline hbefore
  · rw [hcolumn] at hbefore
    cases hbefore

theorem silent_advance (s : Scanner) : Silent s s.advance :=
  silent_of_passes (skipBlank_passes _ _ _ _ _ (by simp)) rfl rfl rfl fun k hk ↦ hk

/-! ## Blocks -/

/-- A block that is closed. -/
theorem silent_close (s : Scanner) {outer : Nat} {margins : List Nat}
    (h : s.margins = outer :: margins) :
    Silent s { s.push .blockEnd with margin := outer, margins } where
  toKeeps :=
    { (silent_push s (t := .blockEnd) (by decide)).toKeeps with
      grounded := by
        intro hgrounded
        rw [h] at hgrounded
        cases hmargin : s.margin with
        | zero =>
          rw [hmargin] at hgrounded
          cases hgrounded
        | succ n =>
          rw [hmargin] at hgrounded
          exact hgrounded }
  passes := .refl _
  starts := (silent_push s (t := .blockEnd) (by decide)).starts

theorem silent_closeBlocks (bound : Nat) (s : Scanner) (margins : List Nat) :
    Silent { s with margins } (closeBlocks bound s margins) := by
  induction margins generalizing s with
  | nil => exact silent_of_passes (.refl _) rfl rfl rfl fun _ hk ↦ hk
  | cons outer margins ih =>
    rw [closeBlocks]
    split
    · exact (silent_close { s with margins := outer :: margins } rfl).trans
        (ih { s.push .blockEnd with margin := outer })
    · exact silent_of_passes (.refl _) rfl rfl rfl fun _ hk ↦ hk

theorem closeBlocks_zero (s : Scanner) (margins : List Nat) (h : Grounded s.margin margins) :
    (closeBlocks 0 s margins).margin = 0 ∧ (closeBlocks 0 s margins).margins = [] := by
  induction margins generalizing s with
  | nil =>
    have hmargin : s.margin = 0 := by
      cases hmargin : s.margin with
      | zero => rfl
      | succ n =>
        rw [hmargin] at h
        cases h
    exact ⟨hmargin, rfl⟩
  | cons outer margins ih =>
    cases hmargin : s.margin with
    | zero =>
      rw [hmargin] at h
      cases h
    | succ n =>
      rw [hmargin] at h
      rw [closeBlocks, if_pos (by rw [hmargin]; exact Nat.succ_pos n)]
      exact ih _ h

theorem silent_unindent (s : Scanner) : Silent s s.unindent := by
  rw [unindent]
  split
  · exact silent_of_passes (.refl _) rfl rfl rfl fun _ hk ↦ hk
  · exact silent_closeBlocks _ s s.margins

theorem silent_closeAll (s : Scanner) : Silent s s.closeAll := by
  rw [closeAll]
  split
  · exact silent_of_passes (.refl _) rfl rfl rfl fun _ hk ↦ hk
  · exact silent_closeBlocks _ s s.margins

/-! ## Insertions -/

/-- A token that is added behind the first `before`. -/
theorem produced_insert (s : Scanner) {before : Nat} (h : before ≤ s.produced.length) (t : Token) :
    (s.insert before t).produced = s.produced.take before ++ t :: s.produced.drop before := by
  rw [produced, List.length_reverse] at h
  simp only [insert, produced, List.reverse_append, List.reverse_cons, List.append_assoc,
    List.singleton_append, List.reverse_take, List.reverse_drop]
  rw [Nat.sub_sub_self h]

/-- The start of a key that was pending. -/
theorem silent_insert (hs : s.Sound) {k : PendingKey} (hk : k ∈ s.pending) {t : Token}
    (ht : t = .key ∨ t = .blockMappingStart) : Silent s (s.insert k.before t) where
  place := .inl rfl
  grows n _ hpending := by
    rw [produced_insert s (hs.before_le k hk)]
    exact .insert (hpending k hk) (hs.before_le k hk) ht (.refl _)
  keys k' hk' := .inl hk'
  grounded h := h
  passes := .refl _
  starts := by
    have hne : t ≠ .documentStart := by rcases ht with rfl | rfl <;> decide
    rw [produced_insert s (hs.before_le k hk), List.count_append, List.count_cons_of_ne hne,
      ← List.count_append, List.take_append_drop]

theorem indentTo_cursor (s : Scanner) (column before : Nat) (t : Token) :
    (s.indentTo column before t).cursor = s.cursor := by
  rw [indentTo]
  split <;> rfl

/-- A block that is opened around a key that was pending, or at the end. -/
theorem silent_indentTo {column before : Nat} {t : Token}
    (h : Silent s (s.insert before t)) : Silent s (s.indentTo column before t) := by
  rw [indentTo]
  split
  · exact { h with grounded := h.grounded }
  · exact silent_of_passes (.refl _) rfl rfl rfl fun _ hk ↦ hk

theorem silent_insert_length (s : Scanner) {t : Token} (ht : t ≠ .documentStart) :
    Silent s (s.insert s.done.length t) := by
  rw [insert, Nat.sub_self]
  exact silent_push s ht

/-! ## Tokens -/

/-- A token that is added at the end, and the cursor behind it. -/
theorem Silent.read {c : Cursor} {t : Token} (h : Silent s s') (hcursor : Passes s'.cursor c)
    (ht : t ≠ .documentStart) (keyAllowed : Bool) :
    Silent s ({ s' with cursor := c, keyAllowed }.push t) := by
  have hmove : Silent s' { s' with cursor := c, keyAllowed } :=
    silent_of_passes hcursor rfl rfl rfl fun _ hk ↦ hk
  exact (h.trans hmove).trans (silent_push _ ht)

/-- Where blocks are closed, tokens are added and the margin is another. -/
theorem exists_closeBlocks (bound : Nat) (s : Scanner) (margins : List Nat) :
    ∃ done margin left, closeBlocks bound s margins = { s with done, margin, margins := left } := by
  induction margins generalizing s with
  | nil => exact ⟨_, _, _, rfl⟩
  | cons outer margins ih =>
    rw [closeBlocks]
    split
    · exact ih _
    · exact ⟨_, _, _, rfl⟩

theorem closeAll_cursor (s : Scanner) : s.closeAll.cursor = s.cursor := by
  rw [closeAll]
  split
  · rfl
  · obtain ⟨_, _, _, hclosed⟩ := exists_closeBlocks 0 s s.margins
    rw [hclosed]

theorem eq_of_ite_ok {p : Prop} [Decidable p] {fault : Fault} {t t' : Token} {c c' : Cursor}
    (h : (if p then Except.error fault else .ok (t, c)) = .ok (t', c')) : t' = t := by
  split at h
  · cases h
  · cases h
    rfl

theorem readVersion_ne {c c' : Cursor} {t : Token} (h : readVersion c = .ok (t, c')) :
    t ≠ .documentStart := by
  obtain ⟨⟨major, _⟩, -, hrest⟩ := exists_of_bind_ok h
  dsimp only at hrest
  split at hrest
  · cases hrest
  obtain ⟨⟨minor, _⟩, -, hlast⟩ := exists_of_bind_ok hrest
  cases hlast
  rintro ⟨⟩

theorem readTagDirective_ne {c c' : Cursor} {t : Token} (h : readTagDirective c = .ok (t, c')) :
    t ≠ .documentStart := by
  obtain ⟨⟨handle, _⟩, -, hrest⟩ := exists_of_bind_ok h
  dsimp only at hrest
  split at hrest
  · cases hrest
  split at hrest
  · cases hrest
  obtain ⟨⟨uri, _⟩, -, hlast⟩ := exists_of_bind_ok hrest
  dsimp only at hlast
  split at hlast
  · cases hlast
    rintro ⟨⟩
  · cases hlast

theorem readDirective_ne {c c' : Cursor} {t : Token} (h : readDirective c = .ok (t, c')) :
    t ≠ .documentStart := by
  simp only [readDirective] at h
  split at h
  · cases h
  split at h
  · obtain ⟨⟨t', _⟩, hversion, hend⟩ := exists_of_bind_ok h
    rw [eq_of_ite_ok hend]
    exact readVersion_ne hversion
  split at h
  · obtain ⟨⟨t', _⟩, htag, hend⟩ := exists_of_bind_ok h
    rw [eq_of_ite_ok hend]
    exact readTagDirective_ne htag
  · cases h

/-- What is read as a tag is one. -/
theorem exists_of_readTag {inFlow : Bool} {c c' : Cursor} {t : Token}
    (h : readTag inFlow c = .ok (t, c')) : ∃ handle suffix, t = .tag handle suffix := by
  obtain ⟨⟨t', c''⟩, hparts, hend⟩ := exists_of_bind_ok h
  dsimp only at hend
  split at hend
  · cases hend
    rw [readTagParts] at hparts
    split at hparts
    · obtain ⟨⟨uri, _⟩, -, hclose⟩ := exists_of_bind_ok hparts
      dsimp only at hclose
      split at hclose <;> cases hclose
      exact ⟨_, _, rfl⟩
    · obtain ⟨⟨handle, _⟩, -, hsuffix⟩ := exists_of_bind_ok hparts
      dsimp only at hsuffix
      split at hsuffix
      all_goals
        obtain ⟨_, -, hlast⟩ := exists_of_bind_ok hsuffix
        cases hlast
      · exact ⟨_, _, rfl⟩
      · rw [primaryTag]
        split <;> exact ⟨_, _, rfl⟩
  · cases hend

/-- A key is remembered where one may start. -/
theorem cases_of_saveKey (h : s.saveKey = .ok s') : s.keyAllowed = false ∧ s' = s ∨
    s.keyAllowed = true ∧ ∃ k, k.before = s.produced.length ∧ s' = { s with key := some k } := by
  rw [saveKey] at h
  split at h
  · rename_i hallowed
    obtain ⟨dropped, hdropped, hlast⟩ := exists_of_bind_ok h
    obtain rfl := eq_of_dropKey hdropped
    cases hlast
    exact .inr ⟨hallowed, _, List.length_reverse.symm, rfl⟩
  · rename_i hallowed
    cases h
    exact .inl ⟨by simpa using hallowed, rfl⟩

theorem saveKey_cursor (h : s.saveKey = .ok s') : s'.cursor = s.cursor := by
  rcases cases_of_saveKey h with ⟨-, rfl⟩ | ⟨-, k, -, rfl⟩ <;> rfl

theorem saveKey_inFlow (h : s.saveKey = .ok s') : s'.inFlow = s.inFlow := by
  rcases cases_of_saveKey h with ⟨-, rfl⟩ | ⟨-, k, -, rfl⟩ <;> rfl

/-- The first character of a plain scalar is neither white space nor the end of one. -/
theorem startsPlain_spec {inFlow : Bool} {a : Char} {cs : List Char}
    (h : startsPlain inFlow a cs = true) :
    isGap a = false ∧ isBreak a = false ∧ isPlainEnd inFlow a cs = false := by
  rw [startsPlain] at h
  split at h
  · rename_i ha
    subst ha
    exact ⟨rfl, rfl, by simp [isPlainEnd, isFlowIndicator]⟩
  split at h
  · rename_i hmark
    simp only [Bool.or_eq_true, decide_eq_true_eq] at hmark
    simp only [Bool.and_eq_true, Bool.not_eq_true'] at h
    rcases hmark with rfl | rfl <;> exact ⟨rfl, rfl, by simp [isPlainEnd, h.1, h.2]⟩
  · rename_i hmark
    simp only [Bool.or_eq_true, decide_eq_true_eq, not_or] at hmark
    simp only [Bool.not_eq_true', Bool.or_eq_false_iff] at h
    obtain ⟨⟨hgap, hbreak⟩, hlist⟩ := h
    refine ⟨hgap, hbreak, ?_⟩
    have hindicator : isFlowIndicator a = false := by
      cases hflow : isFlowIndicator a with
      | false => rfl
      | true =>
        simp only [isFlowIndicator, Bool.or_eq_true, decide_eq_true_eq] at hflow
        rcases hflow with (((rfl | rfl) | rfl) | rfl) | rfl <;> cases hlist
    simp [isPlainEnd, hmark.2, hindicator]

theorem isBreak_of_startsPlain {inFlow : Bool} {a : Char} {cs : List Char}
    (h : startsPlain inFlow a cs = true) : isBreak a = false :=
  (startsPlain_spec h).2.1

/-- A plain scalar holds its first character. -/
theorem exists_of_readPlain {margin : Nat} {inFlow : Bool} {a : Char} {cs : List Char}
    {place : Position} {text : PlainText} (hstart : startsPlain inFlow a cs = true)
    (hmark : ¬ (place.column = 0 && atDocumentMark (a :: cs)) = true)
    (h : readPlain margin inFlow (a :: cs) place .none = .ok text) :
    ∃ rest, readPlain margin inFlow cs place.next .none = .ok rest ∧
      { rest with text := a :: rest.text } = text := by
  obtain ⟨hgap, hbreak, hend⟩ := startsPlain_spec hstart
  have hbefore : endsBefore margin inFlow place .none a cs = false := by
    rw [endsBefore, Bool.eq_false_iff.2 hmark]
    rfl
  rw [readPlain, hgap, if_neg (by simp), hbreak, if_neg (by simp), hbefore, if_neg (by simp),
    hend] at h
  split at h
  · cases h
  · exact exists_of_map_ok h

/-- A token that starts where a key may start. -/
theorem silent_saved (h : s.saveKey = .ok s') {c : Cursor} {t : Token}
    (hcursor : Passes s.cursor c) (hplace : s.cursor.place.Before c.place)
    (ht : t ≠ .documentStart) (keyAllowed : Bool) :
    Silent s ({ s' with cursor := c, keyAllowed }.push t) :=
  (silent_saveKey h hcursor hplace).read (.refl _) ht keyAllowed

theorem before_skip (c : Cursor) : c.place.Before (c.skip 1).place :=
  .inr ⟨rfl, Nat.lt_succ_self _⟩

theorem before_of_passes {c c' : Cursor} (h : Passes (c.skip 1) c') :
    c.place.Before c'.place := by
  rcases h.eq_or_before with rfl | hbefore
  · exact before_skip c
  · exact (before_skip c).trans hbefore

/-- The readers of tokens, with what they start with. -/
inductive Fetches (s : Scanner) (a : Char) (cs : List Char) (s' : Scanner) : Prop
  | directive (hcolumn : s.column = 0) (ha : a = '%') (h : s.fetchDirective = .ok s')
  | documentStart (hcolumn : s.column = 0) (hmark : atMark '-' (a :: cs) = true)
      (h : s.fetchMark .documentStart = .ok s')
  | documentEnd (hcolumn : s.column = 0) (hmark : atMark '.' (a :: cs) = true)
      (h : s.fetchMark .documentEnd = .ok s')
  | bracket (ha : a = '[' ∨ a = '{') {t : Token}
      (ht : t = .flowSequenceStart ∨ t = .flowMappingStart) (h : s.fetchOpen t = .ok s')
  | closing (ha : a = ']' ∨ a = '}') {t : Token}
      (ht : t = .flowSequenceEnd ∨ t = .flowMappingEnd) (h : s.fetchClose t = .ok s')
  | comma (ha : a = ',') (h : s.fetchComma = .ok s')
  | entry (ha : a = '-') (hgap : atGapOrBreak cs = true)
      (hmark : s.column = 0 → atMark '-' (a :: cs) = false) (h : s.fetchEntry = .ok s')
  | key (ha : a = '?') (h : s.fetchKey = .ok s')
  | value (ha : a = ':') (h : s.fetchValue = .ok s')
  | anchor (ha : a = '*' ∨ a = '&') {token : String → Token}
      (ht : token = .alias ∨ token = .anchor) (h : s.fetchAnchor token = .ok s')
  | tag (ha : a = '!') (h : s.fetchTag = .ok s')
  | blockScalar (ha : a = '|' ∨ a = '>') {folds : Bool} (h : s.fetchBlockScalar folds = .ok s')
  | quoted (ha : a = '\'' ∨ a = '"') {isDouble : Bool} (h : s.fetchQuoted isDouble = .ok s')
  | plain (hstart : startsPlain s.inFlow a cs = true)
      (hmark : ¬ (s.column = 0 && atDocumentMark (a :: cs)) = true) (h : s.fetchPlain = .ok s')

/-- A token is read by one of the readers. -/
theorem fetches_of_fetchFrom {a : Char} {cs : List Char} (h : s.fetchFrom a cs = .ok s') :
    Fetches s a cs s' := by
  unfold fetchFrom at h
  extract_lets atStart at h
  have and_true {p q : Bool} (hpq : (p && q) = true) : p = true ∧ q = true :=
    Bool.and_eq_true_iff.1 hpq
  rw [ite_eq_iff] at h
  rcases h with ⟨ha, h⟩ | ⟨-, h⟩
  · exact .directive (of_decide_eq_true (and_true ha).1) (of_decide_eq_true (and_true ha).2) h
  rw [ite_eq_iff] at h
  rcases h with ⟨hmark, h⟩ | ⟨hnomark, h⟩
  · exact .documentStart (of_decide_eq_true (and_true hmark).1) (and_true hmark).2 h
  rw [ite_eq_iff] at h
  rcases h with ⟨hmark, h⟩ | ⟨hnoend, h⟩
  · exact .documentEnd (of_decide_eq_true (and_true hmark).1) (and_true hmark).2 h
  rw [ite_eq_iff] at h
  rcases h with ⟨ha, h⟩ | ⟨-, h⟩
  · exact .bracket (.inl ha) (.inl rfl) h
  rw [ite_eq_iff] at h
  rcases h with ⟨ha, h⟩ | ⟨-, h⟩
  · exact .bracket (.inr ha) (.inr rfl) h
  rw [ite_eq_iff] at h
  rcases h with ⟨ha, h⟩ | ⟨-, h⟩
  · exact .closing (.inl ha) (.inl rfl) h
  rw [ite_eq_iff] at h
  rcases h with ⟨ha, h⟩ | ⟨-, h⟩
  · exact .closing (.inr ha) (.inr rfl) h
  rw [ite_eq_iff] at h
  rcases h with ⟨ha, h⟩ | ⟨-, h⟩
  · exact .comma ha h
  rw [ite_eq_iff] at h
  rcases h with ⟨ha, h⟩ | ⟨-, h⟩
  · refine .entry (of_decide_eq_true (and_true ha).1) (and_true ha).2 (fun hcolumn ↦ ?_) h
    exact Bool.eq_false_iff.2 fun hmark ↦
      hnomark (Bool.and_eq_true_iff.2 ⟨decide_eq_true hcolumn, hmark⟩)
  rw [ite_eq_iff] at h
  rcases h with ⟨ha, h⟩ | ⟨-, h⟩
  · exact .key (of_decide_eq_true (and_true ha).1) h
  rw [ite_eq_iff] at h
  rcases h with ⟨ha, h⟩ | ⟨-, h⟩
  · exact .value (of_decide_eq_true (and_true ha).1) h
  rw [ite_eq_iff] at h
  rcases h with ⟨ha, h⟩ | ⟨-, h⟩
  · exact .anchor (.inl ha) (.inl rfl) h
  rw [ite_eq_iff] at h
  rcases h with ⟨ha, h⟩ | ⟨-, h⟩
  · exact .anchor (.inr ha) (.inr rfl) h
  rw [ite_eq_iff] at h
  rcases h with ⟨ha, h⟩ | ⟨-, h⟩
  · exact .tag ha h
  rw [ite_eq_iff] at h
  rcases h with ⟨ha, h⟩ | ⟨-, h⟩
  · exact .blockScalar (.inl (of_decide_eq_true (and_true ha).1)) h
  rw [ite_eq_iff] at h
  rcases h with ⟨ha, h⟩ | ⟨-, h⟩
  · exact .blockScalar (.inr (of_decide_eq_true (and_true ha).1)) h
  rw [ite_eq_iff] at h
  rcases h with ⟨ha, h⟩ | ⟨-, h⟩
  · exact .quoted (.inl ha) h
  rw [ite_eq_iff] at h
  rcases h with ⟨ha, h⟩ | ⟨-, h⟩
  · exact .quoted (.inr ha) h
  rw [ite_eq_iff] at h
  rcases h with ⟨hstart, h⟩ | ⟨-, h⟩
  · refine .plain hstart (fun hmark ↦ ?_) h
    obtain ⟨hcolumn, hmark⟩ := and_true hmark
    rcases Bool.or_eq_true_iff.1 hmark with hmark | hmark
    · exact hnomark (Bool.and_eq_true_iff.2 ⟨hcolumn, hmark⟩)
    · exact hnoend (Bool.and_eq_true_iff.2 ⟨hcolumn, hmark⟩)
  · cases h

section

variable {a : Char} {cs : List Char} (hrest : s.cursor.rest = a :: cs)

include hrest

theorem passes_first (ha : isBreak a = false) (hne : a ≠ '-') :
    Passes s.cursor (s.cursor.skip 1) :=
  (along_of_head? (by rw [hrest]; rfl) ha).passes fun _ ↦ by rw [hrest, atMark_eq_false hne]

theorem passes_mark (hmark : atMark '.' (a :: cs) = true) : Passes s.cursor (s.cursor.skip 3) := by
  revert hrest
  generalize s.cursor = c
  intro hrest
  obtain ⟨rest, place⟩ := c
  cases hrest
  unfold atMark at hmark
  split at hmark
  · rename_i heq
    cases heq
    simp only [Bool.and_eq_true, decide_eq_true_eq] at hmark
    obtain ⟨⟨⟨rfl, rfl⟩, rfl⟩, -⟩ := hmark
    exact .other rfl (by decide) (.other rfl (by decide) (.other rfl (by decide) (.refl _)))
  · cases hmark

theorem silent_fetchDirective (h : s.fetchDirective = .ok s') (ha : a = '%') : Silent s s' := by
  subst ha
  obtain ⟨closed, hclosed, hread⟩ := exists_of_bind_ok h
  obtain ⟨⟨t, c⟩, hdirective, hlast⟩ := exists_of_bind_ok hread
  cases hlast
  have hcursor : closed.cursor = s.cursor := (dropKey_cursor hclosed).trans s.closeAll_cursor
  have hplace : (closed.cursor.skip 1).place.column ≠ 0 := Nat.succ_ne_zero _
  refine ((silent_closeAll s).trans (silent_dropKey hclosed)).read ?_
    (readDirective_ne hdirective) _
  have hfirst := passes_first hrest rfl (by decide)
  rw [← hcursor] at hfirst
  exact hfirst.trans (readDirective_passes hdirective hplace)

theorem silent_fetchDocumentEnd (h : s.fetchMark .documentEnd = .ok s')
    (hmark : atMark '.' (a :: cs) = true) : Silent s s' := by
  obtain ⟨closed, hclosed, hlast⟩ := exists_of_bind_ok h
  cases hlast
  have hcursor : closed.cursor = s.cursor := (dropKey_cursor hclosed).trans s.closeAll_cursor
  refine ((silent_closeAll s).trans (silent_dropKey hclosed)).read ?_ (by decide) _
  rw [hcursor]
  exact passes_mark hrest hmark

theorem silent_fetchOpen {t : Token} (h : s.fetchOpen t = .ok s') (ht : t ≠ .documentStart)
    (ha : isBreak a = false) (hne : a ≠ '-') : Silent s s' := by
  obtain ⟨saved, hsaved, hlast⟩ := exists_of_bind_ok h
  cases hlast
  have hsave : Silent s { saved with cursor := s.cursor.skip 1 } :=
    silent_saveKey hsaved (passes_first hrest ha hne) (before_skip s.cursor)
  have hopen : Silent { saved with cursor := s.cursor.skip 1 }
      { saved with
        cursor := s.cursor.skip 1, key := none, outerKeys := saved.key :: saved.outerKeys
        keyAllowed := true } := by
    refine silent_of_passes (.refl _) rfl rfl rfl fun k hk ↦ ?_
    simpa [mem_pending, eq_comm] using hk
  rw [← saveKey_cursor hsaved] at hsave hopen
  exact (hsave.trans hopen).trans (silent_push _ ht)

theorem silent_fetchClose {t : Token} (h : s.fetchClose t = .ok s') (ht : t ≠ .documentStart)
    (ha : isBreak a = false) (hne : a ≠ '-') : Silent s s' := by
  obtain ⟨dropped, hdropped, hlast⟩ := exists_of_bind_ok h
  have hdrop := silent_dropKey hdropped
  have hfirst := passes_first hrest ha hne
  rw [← dropKey_cursor hdropped] at hfirst
  dsimp only at hlast
  split at hlast
  · cases hlast
    exact hdrop.read hfirst ht false
  · rename_i key outerKeys houter
    cases hlast
    have hclose : Silent dropped { dropped with key, outerKeys } := by
      refine silent_of_passes (.refl _) rfl rfl rfl fun k hk ↦ ?_
      rw [mem_pending] at hk ⊢
      rw [houter, List.mem_cons]
      rcases hk with hk | hk
      · exact .inr (.inl hk.symm)
      · exact .inr (.inr hk)
    exact (hdrop.trans hclose).read hfirst ht false

theorem silent_fetchComma (h : s.fetchComma = .ok s') (ha : isBreak a = false) (hne : a ≠ '-') :
    Silent s s' := by
  obtain ⟨dropped, hdropped, hlast⟩ := exists_of_bind_ok h
  cases hlast
  have hfirst := passes_first hrest ha hne
  rw [← dropKey_cursor hdropped] at hfirst
  exact (silent_dropKey hdropped).read hfirst (by decide) true

theorem silent_fetchEntry (h : s.fetchEntry = .ok s') (ha : isBreak a = false)
    (hmark : s.cursor.place.column = 0 → atMark '-' (a :: cs) = false) : Silent s s' := by
  rw [fetchEntry] at h
  split at h
  · cases h
  obtain ⟨dropped, hdropped, hlast⟩ := exists_of_bind_ok h
  cases hlast
  have hindent : Silent s (s.indentTo s.column s.done.length .blockSequenceStart) :=
    silent_indentTo (silent_insert_length s (by decide))
  refine (hindent.trans (silent_dropKey hdropped)).read ?_ (by decide) true
  rw [dropKey_cursor hdropped, indentTo_cursor]
  exact (along_of_head? (by rw [hrest]; rfl) ha).passes (by rwa [hrest])

theorem silent_fetchKey (h : s.fetchKey = .ok s') (ha : isBreak a = false) (hne : a ≠ '-') :
    Silent s s' := by
  rw [fetchKey] at h
  split at h
  · cases h
  obtain ⟨dropped, hdropped, hlast⟩ := exists_of_bind_ok h
  cases hlast
  have hindent : Silent s (s.indentTo s.column s.done.length .blockMappingStart) :=
    silent_indentTo (silent_insert_length s (by decide))
  refine (hindent.trans (silent_dropKey hdropped)).read ?_ (by decide) (!dropped.inFlow)
  rw [dropKey_cursor hdropped, indentTo_cursor]
  exact passes_first hrest ha hne

theorem silent_fetchValue (hs : s.Sound) (h : s.fetchValue = .ok s') (ha : isBreak a = false)
    (hne : a ≠ '-') : Silent s s' := by
  have hfirst := passes_first hrest ha hne
  rw [fetchValue] at h
  split at h
  · rename_i k hk
    cases h
    have hpending : k ∈ s.pending := mem_pending.2 (.inl hk)
    have hkey : Silent s (s.insert k.before .key) := silent_insert hs hpending (.inl rfl)
    have hblock := silent_insert (hkey.sound hs) (t := .blockMappingStart) (k := k) hpending
      (.inr rfl)
    have hindent : Silent s ((s.insert k.before .key).indentTo k.place.column k.before
        .blockMappingStart) := hkey.trans (silent_indentTo hblock)
    refine (hindent.trans (silent_forget _)).read ?_ (by decide) false
    have hcursor := indentTo_cursor (s.insert k.before .key) k.place.column k.before
      .blockMappingStart
    exact hcursor ▸ hfirst
  · split at h
    · cases h
    · cases h
      have hindent : Silent s (s.indentTo s.column s.done.length .blockMappingStart) :=
        silent_indentTo (silent_insert_length s (by decide))
      refine hindent.read ?_ (by decide) _
      rw [indentTo_cursor]
      exact hfirst

theorem silent_fetchAnchor {token : String → Token} (h : s.fetchAnchor token = .ok s')
    (htoken : ∀ name, token name ≠ .documentStart) (ha : isBreak a = false) (hne : a ≠ '-') :
    Silent s s' := by
  obtain ⟨saved, hsaved, hread⟩ := exists_of_bind_ok h
  obtain ⟨⟨name, c⟩, hanchor, hlast⟩ := exists_of_bind_ok hread
  cases hlast
  rw [saveKey_cursor hsaved] at hanchor
  have hname : Passes (s.cursor.skip 1) c :=
    (readAnchor_along hanchor).passes_of_column (Nat.succ_ne_zero _)
  exact silent_saved hsaved ((passes_first hrest ha hne).trans hname) (before_of_passes hname)
    (htoken name) false

theorem silent_fetchTag (h : s.fetchTag = .ok s') (ha : a = '!') : Silent s s' := by
  subst ha
  obtain ⟨saved, hsaved, hread⟩ := exists_of_bind_ok h
  obtain ⟨⟨t, c⟩, htag, hlast⟩ := exists_of_bind_ok hread
  cases hlast
  rw [saveKey_cursor hsaved] at htag
  have hname : Passes (s.cursor.skip 1) c := by
    revert hrest htag
    generalize s.cursor = start
    intro hrest htag
    obtain ⟨rest, place⟩ := start
    cases hrest
    exact (readTag_along htag).passes_of_column (Nat.succ_ne_zero _)
  obtain ⟨handle, suffix, rfl⟩ := exists_of_readTag htag
  exact silent_saved hsaved ((passes_first hrest rfl (by decide)).trans hname)
    (before_of_passes hname) (by rintro ⟨⟩) false

theorem silent_fetchBlockScalar {folds : Bool} (h : s.fetchBlockScalar folds = .ok s')
    (ha : isBreak a = false) (hne : a ≠ '-') : Silent s s' := by
  obtain ⟨dropped, hdropped, hread⟩ := exists_of_bind_ok h
  obtain ⟨text, htext, hlast⟩ := exists_of_bind_ok hread
  cases hlast
  have hfirst := passes_first hrest ha hne
  rw [← dropKey_cursor hdropped] at hfirst
  exact (silent_dropKey hdropped).read
    (hfirst.trans (readBlock_passes htext (Nat.succ_ne_zero _))) (by rintro ⟨⟩) true

theorem silent_fetchQuoted {isDouble : Bool} (h : s.fetchQuoted isDouble = .ok s')
    (ha : isBreak a = false) (hne : a ≠ '-') : Silent s s' := by
  obtain ⟨saved, hsaved, hread⟩ := exists_of_bind_ok h
  have hscalar {text : ScalarText} (hinner : Passes (s.cursor.skip 1) text.cursor) :
      Silent s ({ saved with cursor := text.cursor, keyAllowed := false }.push
        (.scalar (String.ofList text.text) false)) :=
    silent_saved hsaved ((passes_first hrest ha hne).trans hinner) (before_of_passes hinner)
      (by rintro ⟨⟩) false
  dsimp only at hread
  rw [saveKey_cursor hsaved] at hread
  split at hread
  · obtain ⟨text, htext, hlast⟩ := exists_of_bind_ok hread
    cases hlast
    exact hscalar (readDouble_passes htext)
  · obtain ⟨text, htext, hlast⟩ := exists_of_bind_ok hread
    cases hlast
    exact hscalar (readSingle_passes htext)

theorem silent_fetchPlain (h : s.fetchPlain = .ok s')
    (hstart : startsPlain s.inFlow a cs = true)
    (hmark : ¬ (s.cursor.place.column = 0 && atDocumentMark (a :: cs)) = true) : Silent s s' := by
  obtain ⟨saved, hsaved, hread⟩ := exists_of_bind_ok h
  obtain ⟨text, htext, hlast⟩ := exists_of_bind_ok hread
  cases hlast
  rw [saveKey_cursor hsaved, saveKey_inFlow hsaved, hrest] at htext
  obtain ⟨rest, hinner, rfl⟩ := exists_of_readPlain hstart hmark htext
  have hpasses : Passes (s.cursor.skip 1) rest.cursor := by
    have hskip : s.cursor.skip 1 = ⟨cs, s.cursor.place.next⟩ := by
      simp [Cursor.skip, hrest, Position.next]
    rw [hskip]
    exact readPlain_passes hinner
  have hfirst : Passes s.cursor (s.cursor.skip 1) :=
    (along_of_head? (by rw [hrest]; rfl) (isBreak_of_startsPlain hstart)).passes
      (by rw [hrest]; exact atMark_of_not_document hmark)
  exact silent_saved hsaved (hfirst.trans hpasses) (before_of_passes hpasses) (by rintro ⟨⟩) _

/-- What starts with `a` is a mark between documents, or it is read past none. -/
theorem fetchFrom_cases (hs : s.Sound) (h : s.fetchFrom a cs = .ok s') :
    Silent s s' ∨ s.cursor.place.column = 0 ∧ atMark '-' (a :: cs) = true ∧
      s.fetchMark .documentStart = .ok s' := by
  cases fetches_of_fetchFrom h with
  | documentStart hcolumn hmark hread => exact .inr ⟨hcolumn, hmark, hread⟩
  | directive _ ha hread => exact .inl (silent_fetchDirective hrest hread ha)
  | documentEnd _ hmark hread => exact .inl (silent_fetchDocumentEnd hrest hread hmark)
  | bracket ha ht hread =>
    refine .inl (silent_fetchOpen hrest hread ?_ ?_ ?_)
    · rcases ht with rfl | rfl <;> decide
    all_goals rcases ha with rfl | rfl <;> decide
  | closing ha ht hread =>
    refine .inl (silent_fetchClose hrest hread ?_ ?_ ?_)
    · rcases ht with rfl | rfl <;> decide
    all_goals rcases ha with rfl | rfl <;> decide
  | comma ha hread =>
    subst ha
    exact .inl (silent_fetchComma hrest hread rfl (by decide))
  | entry ha _ hmark hread =>
    subst ha
    exact .inl (silent_fetchEntry hrest hread rfl hmark)
  | key ha hread =>
    subst ha
    exact .inl (silent_fetchKey hrest hread rfl (by decide))
  | value ha hread =>
    subst ha
    exact .inl (silent_fetchValue hrest hs hread rfl (by decide))
  | anchor ha ht hread =>
    refine .inl (silent_fetchAnchor hrest hread (fun name ↦ ?_) ?_ ?_)
    · rcases ht with rfl | rfl <;> rintro ⟨⟩
    all_goals rcases ha with rfl | rfl <;> decide
  | tag ha hread => exact .inl (silent_fetchTag hrest hread ha)
  | blockScalar ha hread =>
    refine .inl (silent_fetchBlockScalar hrest hread ?_ ?_)
    all_goals rcases ha with rfl | rfl <;> decide
  | quoted ha hread =>
    refine .inl (silent_fetchQuoted hrest hread ?_ ?_)
    all_goals rcases ha with rfl | rfl <;> decide
  | plain hstart hmark hread => exact .inl (silent_fetchPlain hrest hread hstart hmark)

end

end Scanner

end FolderCommands.Yaml
