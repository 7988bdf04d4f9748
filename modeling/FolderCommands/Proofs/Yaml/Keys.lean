import FolderCommands.Proofs.Yaml.Stages

/-!
# The steps of a scanner over lines of a manifest

Each step of the scanner keeps that its tokens can be followed and that, outside brackets, a key
may start in front of a string only. So the tokens of a text whose lines start like lines of a
manifest can be followed to their end.
-/

namespace FolderCommands.Yaml

namespace Scanner

open Stage

variable {s s' : Scanner} {w : Stage} {depth : Nat} {t : Token}

/-- Whether a key may start outside brackets in front of a string only, and the root of a document
too. -/
structure Orderly (s : Scanner) (w : Stage) : Prop extends Follows s w where
  lines : s.cursor.IsTame
  allowed : s.keyAllowed = true → w.depth = 0 → isTame s.cursor.rest = true
  document : w = .atDocument → isTame s.cursor.rest = true

/-- Whether a scanner is not behind a mark and keeps to the same about keys. -/
def Rests (s : Scanner) : Prop :=
  ∃ depth, s.Follows (.inside depth) ∧
    (s.keyAllowed = true → depth = 0 → isTame s.cursor.rest = true)

theorem Follows.depth_ne_zero (h : s.Follows w) (hflow : s.inFlow = true) : w.depth ≠ 0 := by
  have hle := h.le_depth
  rw [inFlow] at hflow
  cases houter : s.outerKeys with
  | nil =>
    rw [houter] at hflow
    cases hflow
  | cons key outerKeys =>
    rw [houter, List.length_cons] at hle
    exact Nat.ne_of_gt (Nat.lt_of_lt_of_le (Nat.succ_pos _) hle)

/-! ## Getting to the next token -/

theorem orderly_start {cs : List Char} (h : areTame true cs = true) :
    (start cs).Orderly (.inside 0) where
  walk := rfl
  ne_atKey := nofun
  le_depth := Nat.le_refl 0
  keys := trivial
  lines := h
  allowed _ _ := isTame_of_areTame h
  document := nofun

theorem Orderly.advance (h : s.Orderly w) : s.advance.Orderly w where
  toFollows := h.toFollows.of_eq rfl rfl rfl
  lines := h.lines.of_passes (silent_advance s).passes
  allowed hallowed hdepth := by
    cases hbefore : s.keyAllowed with
    | false => exact isTame_of_keyAllowed h.lines hbefore hallowed
    | true => exact isTame_skipBlank h.lines fun _ ↦ h.allowed hbefore hdepth
  document hdocument := isTame_skipBlank h.lines fun _ ↦ h.document hdocument

theorem unindent_keyAllowed (s : Scanner) : s.unindent.keyAllowed = s.keyAllowed := by
  obtain ⟨_, _, _, hunindent⟩ := s.exists_unindent
  rw [hunindent]

theorem expireKeys_keyAllowed (h : s.expireKeys = .ok s') : s'.keyAllowed = s.keyAllowed := by
  obtain ⟨_, _, rfl⟩ := exists_of_expireKeys h
  rfl

theorem Orderly.ready {ready : Scanner} (h : s.Orderly w) (hready : s.Ready ready) :
    ∃ w', ready.Orderly w' := by
  obtain ⟨expired, hexpired, rfl⟩ := hready
  have hadvance := h.advance
  obtain ⟨w', hfollows, hdepth, hdocument⟩ := (hadvance.toFollows.expireKeys hexpired).unindent
  have hcursor : expired.unindent.cursor = s.advance.cursor := by
    rw [unindent_cursor, expireKeys_cursor hexpired]
  have hallowed : expired.unindent.keyAllowed = s.advance.keyAllowed := by
    rw [unindent_keyAllowed, expireKeys_keyAllowed hexpired]
  refine ⟨w', hfollows, ?_, ?_, ?_⟩ <;> rw [hcursor]
  · exact hadvance.lines
  · rw [hallowed, hdepth]
    exact hadvance.allowed
  · exact fun hat ↦ hadvance.document (hdocument hat)

/-! ## Tokens that start no line -/

/-- Where no line starts, a key may start inside brackets only, and no document. -/
theorem Orderly.of_isTame_eq_false (h : s.Orderly w) (hrest : isTame s.cursor.rest = false) :
    s.column ≠ 0 ∧ ∃ depth, w = .inside depth ∧ (s.keyAllowed = true → depth ≠ 0) := by
  have hnot : ¬ isTame s.cursor.rest = true := Bool.eq_false_iff.1 hrest
  refine ⟨fun hcolumn ↦ hnot (isTame_of_areTame ?_), ?_⟩
  · have hlines := h.lines
    rw [Cursor.IsTame, show s.cursor.place.column = 0 from hcolumn] at hlines
    exact hlines
  · cases w with
    | inside depth => exact ⟨depth, rfl, fun hallowed hzero ↦ hnot (h.allowed hallowed hzero)⟩
    | atKey => exact absurd rfl h.ne_atKey
    | atDocument => exact absurd (h.document rfl) hnot

section

variable (h : s.Follows (.inside depth)) (hallowed : s.keyAllowed = true → depth ≠ 0)

include h

/-- A token that is added where no key becomes pending. -/
theorem rests_push (hnext : (inside depth).next t = some (inside depth)) (ht : t ≠ .key ∨ depth ≠ 0)
    (c : Cursor) (keyAllowed : Bool)
    (hrest : keyAllowed = true → depth = 0 → isTame c.rest = true) :
    ({ s with cursor := c, keyAllowed }.push t).Rests :=
  ⟨depth, (h.push hnext ht h.le_depth).of_eq rfl rfl rfl, hrest⟩

theorem rests_push_of_isInert (ht : t.isInert = true) (c : Cursor) (keyAllowed : Bool)
    (hrest : keyAllowed = true → depth = 0 → isTame c.rest = true) :
    ({ s with cursor := c, keyAllowed }.push t).Rests := by
  obtain ⟨hnext, hkey⟩ := next_of_isInert depth ht
  exact rests_push h hnext (.inl hkey) c keyAllowed hrest

include hallowed

/-- A token that starts where a key may start. -/
theorem rests_save {saved : Scanner} (hsave : s.saveKey = .ok saved) (ht : t.isInert = true)
    (c : Cursor) : ({ saved with cursor := c, keyAllowed := false }.push t).Rests := by
  obtain ⟨hnext, hkey⟩ := next_of_isInert depth ht
  exact ⟨depth, (h.save hsave hnext hkey h.le_depth fun hallow hzero ↦
    absurd hzero (hallowed hallow)).of_eq rfl rfl rfl, nofun⟩

theorem rests_fetchOpen (ht : t = .flowSequenceStart ∨ t = .flowMappingStart)
    (hfetch : s.fetchOpen t = .ok s') : s'.Rests := by
  obtain ⟨saved, hsave, hlast⟩ := exists_of_bind_ok hfetch
  cases hlast
  have hnext : (inside depth).next t = some (inside (depth + 1)) := by
    rcases ht with rfl | rfl <;> exact next_inside (.inr (by decide))
  have hkey : t ≠ .key := by rcases ht with rfl | rfl <;> decide
  have hsaved := h.save hsave hnext hkey (Nat.le_succ_of_le h.le_depth) fun hallow hzero ↦
    absurd hzero (hallowed hallow)
  have houter : saved.outerKeys = s.outerKeys := by
    rcases cases_of_saveKey hsave with ⟨-, rfl⟩ | ⟨-, k, -, rfl⟩ <;> rfl
  refine ⟨depth + 1, ⟨hsaved.walk, nofun, ?_, hsaved.keys⟩, nofun⟩
  have hle : saved.outerKeys.length + 1 ≤ depth + 1 := houter ▸ Nat.succ_le_succ h.le_depth
  exact hle

omit hallowed in
theorem rests_fetchClose (ht : t = .flowSequenceEnd ∨ t = .flowMappingEnd)
    (hfetch : s.fetchClose t = .ok s') : s'.Rests := by
  obtain ⟨dropped, hdropped, hlast⟩ := exists_of_bind_ok hfetch
  obtain rfl := eq_of_dropKey hdropped
  have hnext : (inside depth).next t = some (inside (depth - 1)) := by
    rcases ht with rfl | rfl <;> exact next_inside (.inr (by decide))
  have hkey : t ≠ .key := by rcases ht with rfl | rfl <;> decide
  have hle := h.le_depth
  dsimp only at hlast
  split at hlast
  · rename_i houter
    cases hlast
    have hpush := h.forget.push hnext (.inl hkey) (by
      have hnil : s.outerKeys = [] := houter
      rw [hnil]
      exact Nat.zero_le _)
    exact ⟨depth - 1, hpush.of_eq rfl rfl rfl, nofun⟩
  · rename_i key outerKeys houter
    cases hlast
    have hcons : s.outerKeys = key :: outerKeys := houter
    rw [hcons, List.length_cons] at hle
    have hclosed : { s with key, outerKeys }.Follows (.inside depth) := by
      have hkeys := h.keys.forget
      rw [hcons] at hkeys
      exact ⟨h.walk, h.ne_atKey, Nat.le_of_succ_le hle, hkeys⟩
    have hpush := hclosed.push hnext (.inl hkey) (Nat.le_sub_of_add_le hle)
    exact ⟨depth - 1, hpush.of_eq rfl rfl rfl, nofun⟩

omit hallowed in
theorem rests_fetchComma (hfetch : s.fetchComma = .ok s') : s'.Rests := by
  obtain ⟨dropped, hdropped, hlast⟩ := exists_of_bind_ok hfetch
  cases hlast
  have hnext : (inside depth).next .flowEntry = some (inside (max depth 1)) :=
    next_inside (.inr (by decide))
  have hfollows := h.dropKey hdropped
  have hpush := hfollows.push hnext (.inl (by decide))
    (Nat.le_trans hfollows.le_depth (Nat.le_max_left _ _))
  refine ⟨max depth 1, hpush.of_eq rfl rfl rfl, fun _ hzero ↦ ?_⟩
  omega

omit hallowed in
/-- Inside brackets the start of a block says nothing. -/
theorem follows_indentTo (column : Nat) (hdepth : depth ≠ 0)
    (ht : t = .blockSequenceStart ∨ t = .blockMappingStart) :
    (s.indentTo column s.done.length t).Follows (.inside depth) := by
  rw [indentTo]
  split
  · have hnext : (inside depth).next t = some (inside depth) := by
      rw [next_inside (.inl hdepth)]
      rcases ht with rfl | rfl <;> rfl
    rw [insert, Nat.sub_self]
    exact (h.push hnext (.inr hdepth) h.le_depth).of_eq rfl rfl rfl
  · exact h

theorem depth_ne_zero_of_allowed (hnot : ¬ (!s.inFlow && !s.keyAllowed) = true) : depth ≠ 0 := by
  cases hflow : s.inFlow with
  | true => exact h.depth_ne_zero hflow
  | false => exact hallowed (by simpa [hflow] using hnot)

theorem rests_fetchEntry (hfetch : s.fetchEntry = .ok s') : s'.Rests := by
  rw [fetchEntry] at hfetch
  split at hfetch
  · cases hfetch
  rename_i hnot
  have hdepth := depth_ne_zero_of_allowed h hallowed hnot
  obtain ⟨dropped, hdropped, hlast⟩ := exists_of_bind_ok hfetch
  cases hlast
  have hindent := (follows_indentTo h s.column hdepth (.inl rfl)).dropKey hdropped
  exact rests_push_of_isInert hindent (by rfl) _ true fun _ hzero ↦ absurd hzero hdepth

theorem rests_fetchKey (hfetch : s.fetchKey = .ok s') : s'.Rests := by
  rw [fetchKey] at hfetch
  split at hfetch
  · cases hfetch
  rename_i hnot
  have hdepth := depth_ne_zero_of_allowed h hallowed hnot
  obtain ⟨dropped, hdropped, hlast⟩ := exists_of_bind_ok hfetch
  cases hlast
  have hindent := (follows_indentTo h s.column hdepth (.inr rfl)).dropKey hdropped
  exact rests_push hindent (next_inside (.inl hdepth)) (.inr hdepth) _ _ fun _ hzero ↦
    absurd hzero hdepth

/-- A colon marks the key that is pending, or it stands inside brackets. -/
theorem rests_fetchValue (hfetch : s.fetchValue = .ok s') : s'.Rests := by
  rw [fetchValue] at hfetch
  split at hfetch
  · rename_i k hk
    cases hfetch
    exact rests_push_of_isInert (h.mark hk k.place.column) (by rfl) _ false (by rintro ⟨⟩)
  · split at hfetch
    · cases hfetch
    rename_i hnot
    have hdepth := depth_ne_zero_of_allowed h hallowed hnot
    cases hfetch
    exact rests_push_of_isInert (follows_indentTo h s.column hdepth (.inr rfl))
      (by rfl) _ _ fun _ hzero ↦ absurd hzero hdepth

theorem rests_fetchAnchor {token : String → Token} (ht : token = .alias ∨ token = .anchor)
    (hfetch : s.fetchAnchor token = .ok s') : s'.Rests := by
  obtain ⟨saved, hsave, hread⟩ := exists_of_bind_ok hfetch
  obtain ⟨⟨name, c⟩, -, hlast⟩ := exists_of_bind_ok hread
  cases hlast
  rcases ht with rfl | rfl <;> exact rests_save h hallowed hsave (by rfl) c

theorem rests_fetchTag (hfetch : s.fetchTag = .ok s') : s'.Rests := by
  obtain ⟨saved, hsave, hread⟩ := exists_of_bind_ok hfetch
  obtain ⟨⟨t, c⟩, htag, hlast⟩ := exists_of_bind_ok hread
  cases hlast
  obtain ⟨handle, suffix, rfl⟩ := exists_of_readTag htag
  exact rests_save h hallowed hsave (by rfl) c

theorem rests_fetchQuoted {isDouble : Bool} (hfetch : s.fetchQuoted isDouble = .ok s') :
    s'.Rests := by
  obtain ⟨saved, hsave, hread⟩ := exists_of_bind_ok hfetch
  dsimp only at hread
  split at hread
  all_goals
    obtain ⟨text, -, hlast⟩ := exists_of_bind_ok hread
    cases hlast
    exact rests_save h hallowed hsave (by rfl) text.cursor

omit hallowed in
theorem rests_fetchBlockScalar {folds : Bool} {a : Char} {cs : List Char}
    (hlines : s.cursor.IsTame) (hrest : s.cursor.rest = a :: cs) (ha : isBreak a = false)
    (hne : a ≠ '-') (hfetch : s.fetchBlockScalar folds = .ok s') : s'.Rests := by
  obtain ⟨dropped, hdropped, hread⟩ := exists_of_bind_ok hfetch
  obtain ⟨text, htext, hlast⟩ := exists_of_bind_ok hread
  cases hlast
  have hfirst := passes_first hrest ha hne
  rw [← dropKey_cursor hdropped] at hfirst hlines
  exact rests_push_of_isInert (h.dropKey hdropped) (by rfl) text.cursor true fun _ _ ↦
    isTame_readBlock htext (hlines.of_passes hfirst) (Nat.succ_ne_zero _)

end

/-! ## Tokens that start a line -/

theorem Rests.exists_orderly (h : s.Rests) (hlines : s.cursor.IsTame) : ∃ w, s.Orderly w := by
  obtain ⟨depth, hfollows, hallowed⟩ := h
  exact ⟨.inside depth, hfollows, hlines, hallowed, nofun⟩

/-- A plain scalar where a key may start is a string. -/
theorem Orderly.rests_fetchPlain {a : Char} {cs : List Char} (h : s.Orderly w)
    (hrest : s.cursor.rest = a :: cs) (hstart : startsPlain s.inFlow a cs = true)
    (hmark : ¬ (s.column = 0 && atDocumentMark (a :: cs)) = true) (hfetch : s.fetchPlain = .ok s') :
    s'.Rests := by
  obtain ⟨saved, hsave, hread⟩ := exists_of_bind_ok hfetch
  obtain ⟨text, htext, hlast⟩ := exists_of_bind_ok hread
  cases hlast
  rw [saveKey_cursor hsave, saveKey_inFlow hsave] at htext
  have hcrosses : text.crossesLine = true → isTame text.cursor.rest = true :=
    isTame_readPlain htext h.lines nofun
  have hnext : w.next (.scalar (String.ofList text.text) true) = some (inside w.depth) := by
    cases w with
    | inside depth => exact (next_of_isInert depth rfl).1
    | atKey => exact absurd rfl h.ne_atKey
    | atDocument => rfl
  refine ⟨w.depth, (h.save hsave hnext (by rintro ⟨⟩) h.le_depth fun hallowed hzero ↦ ?_).of_eq
    rfl rfl rfl, fun hallowed _ ↦ hcrosses hallowed⟩
  have htame := h.allowed hallowed hzero
  rw [hrest] at htext htame
  obtain ⟨hgap, hbreak, -⟩ := startsPlain_spec hstart
  have hcomment : a ≠ '#' := by
    rintro rfl
    cases hstart
  have hstring := resolvePlain_of_opensString (opensString_of_isTame htame hgap hbreak hcomment)
    hstart hmark htext
  simp only [Token.isString, hstring]

/-- Behind the mark of a document there is nothing but white space, a comment or a string. -/
theorem Orderly.exists_of_mark {a : Char} {cs : List Char} (h : s.Orderly w)
    (hrest : s.cursor.rest = a :: cs) (hcolumn : s.column = 0)
    (hmark : atMark '-' (a :: cs) = true) (hfetch : s.fetchMark .documentStart = .ok s') :
    ∃ w', s'.Orderly w' := by
  obtain ⟨rest, rfl, rfl, -⟩ := exists_of_atMark hmark
  have hlines := h.lines
  rw [Cursor.IsTame, hrest, show s.cursor.place.column = 0 from hcolumn] at hlines
  have hbehind : isTame rest = true := by
    have hline : opensLine ('-' :: '-' :: '-' :: rest) = true := by
      simpa using (Bool.and_eq_true_iff.1 hlines).1
    rw [opensLine, hmark] at hline
    exact (Bool.and_eq_true_iff.1 hline).2
  have htail : areTame false rest = true := areTame_tail (areTame_tail (areTame_tail hlines))
  obtain ⟨closed, hclosed, hlast⟩ := exists_of_bind_ok hfetch
  cases hlast
  have hcursor : closed.cursor = s.cursor := (dropKey_cursor hclosed).trans s.closeAll_cursor
  obtain ⟨w', hfollows, hdepth, -⟩ := h.closeAll
  obtain ⟨w'', hnext, hdepth'⟩ : ∃ w'', w'.next .documentStart = some w'' ∧
      w''.depth = w'.depth := by
    cases w' with
    | inside depth =>
      cases depth with
      | zero => exact ⟨.atDocument, rfl, rfl⟩
      | succ depth => exact ⟨_, next_inside (.inl (Nat.succ_ne_zero depth)), rfl⟩
    | atKey => exact absurd rfl hfollows.ne_atKey
    | atDocument => exact ⟨.atDocument, rfl, rfl⟩
  have hdropped := hfollows.dropKey hclosed
  have hpush := hdropped.push hnext (.inl (by decide)) (hdepth' ▸ hdropped.le_depth)
  refine ⟨w'', hpush.of_eq rfl rfl rfl, ?_, nofun, fun _ ↦ ?_⟩
  · have hskip : areTame (closed.cursor.place.column + 3 == 0)
        (closed.cursor.rest.drop 3) = true := by
      rw [hcursor, hrest]
      exact htail
    exact hskip
  · have hskip : isTame (closed.cursor.rest.drop 3) = true := by
      rw [hcursor, hrest]
      exact hbehind
    exact hskip

/-! ## Steps and runs -/

/-- A step that reads a token. -/
theorem Orderly.fetch {a : Char} {cs : List Char} (h : s.Orderly w) (hs : s.Sound)
    (hrest : s.cursor.rest = a :: cs) (hfetch : s.fetchFrom a cs = .ok s') :
    ∃ w', s'.Orderly w' := by
  rcases fetchFrom_cases hrest hs hfetch with hsilent | ⟨hcolumn, hmark, hread⟩
  · have hlines := h.lines.of_passes hsilent.passes
    -- No line starts here, unless with a mark or a plain scalar.
    have hother (htame : isTame (a :: cs) = false) (hrests : ∀ depth, s.Follows (.inside depth) →
        (s.keyAllowed = true → depth ≠ 0) → s'.Rests) : ∃ w', s'.Orderly w' := by
      obtain ⟨-, depth, rfl, hallowed⟩ := h.of_isTame_eq_false (hrest ▸ htame)
      exact (hrests depth h.toFollows hallowed).exists_orderly hlines
    have hnever {p : Prop} (hcolumn : s.column = 0) (htame : isTame (a :: cs) = false) : p :=
      absurd hcolumn (h.of_isTame_eq_false (hrest ▸ htame)).1
    cases fetches_of_fetchFrom hfetch with
    | directive hcolumn ha =>
      subst ha
      exact hnever hcolumn (isTame_eq_false (by decide) cs)
    | documentStart hcolumn hmark hread => exact h.exists_of_mark hrest hcolumn hmark hread
    | documentEnd hcolumn hmark =>
      obtain ⟨rest, rfl, -⟩ := exists_of_atMark hmark
      exact hnever hcolumn (isTame_eq_false (by decide) cs)
    | bracket ha ht hread =>
      refine hother ?_ fun _ hfollows hallowed ↦ rests_fetchOpen hfollows hallowed ht hread
      rcases ha with rfl | rfl <;> exact isTame_eq_false (by decide) cs
    | closing ha ht hread =>
      refine hother ?_ fun _ hfollows _ ↦ rests_fetchClose hfollows ht hread
      rcases ha with rfl | rfl <;> exact isTame_eq_false (by decide) cs
    | comma ha hread =>
      subst ha
      exact hother (isTame_eq_false (by decide) cs) fun _ hfollows _ ↦
        rests_fetchComma hfollows hread
    | entry ha hgap _ hread =>
      subst ha
      exact hother (isTame_dash hgap) fun _ hfollows hallowed ↦
        rests_fetchEntry hfollows hallowed hread
    | key ha hread =>
      subst ha
      exact hother (isTame_eq_false (by decide) cs) fun _ hfollows hallowed ↦
        rests_fetchKey hfollows hallowed hread
    | value ha hread =>
      subst ha
      exact hother (isTame_eq_false (by decide) cs) fun _ hfollows hallowed ↦
        rests_fetchValue hfollows hallowed hread
    | anchor ha ht hread =>
      refine hother ?_ fun _ hfollows hallowed ↦ rests_fetchAnchor hfollows hallowed ht hread
      rcases ha with rfl | rfl <;> exact isTame_eq_false (by decide) cs
    | tag ha hread =>
      subst ha
      exact hother (isTame_eq_false (by decide) cs) fun _ hfollows hallowed ↦
        rests_fetchTag hfollows hallowed hread
    | blockScalar ha hread =>
      refine hother ?_ fun _ hfollows _ ↦ rests_fetchBlockScalar hfollows h.lines hrest ?_ ?_ hread
      all_goals rcases ha with rfl | rfl <;> first | exact isTame_eq_false (by decide) cs | decide
    | quoted ha hread =>
      refine hother ?_ fun _ hfollows hallowed ↦ rests_fetchQuoted hfollows hallowed hread
      rcases ha with rfl | rfl <;> exact isTame_eq_false (by decide) cs
    | plain hstart hmark hread =>
      exact (h.rests_fetchPlain hrest hstart hmark hread).exists_orderly hlines
  · exact h.exists_of_mark hrest hcolumn hmark hread

/-- The tokens of a run can be followed to their end. -/
theorem Orderly.walk_of_run {fuel : Nat} {ts : List Token} (h : s.Orderly w) (hs : s.Sound)
    (hrun : run fuel s = .ok ts) : ∃ w', (inside 0).walk ts = some w' := by
  induction fuel generalizing s w with
  | zero => cases hrun
  | succ fuel ih =>
    obtain ⟨ready, hready, ⟨-, closed, hclosed, rfl⟩ | ⟨a, cs, s', hrest, hfetch, hrun'⟩⟩ :=
      run_succ hrun
    · obtain ⟨w', horderly⟩ := h.ready hready
      obtain ⟨w'', hfollows, -⟩ := horderly.closeAll
      exact ⟨w'', (hfollows.dropKey hclosed).walk⟩
    · obtain ⟨w', horderly⟩ := h.ready hready
      have hsound := hready.silent.sound hs
      obtain ⟨w'', hnext⟩ := horderly.fetch hsound hrest hfetch
      exact ih hnext ((keeps_of_fetchFrom hs hready hrest hfetch).sound hs) hrun'

theorem sound_start (cs : List Char) : (start cs).Sound where
  before_le := by simp [pending, start]
  place := by simp [pending, start]
  grounded := trivial

end Scanner

/-- Where the lines of a text start like lines of a manifest, keys outside brackets are strings. -/
theorem walk_of_tokens {source : String} {ts : List Token} (h : tokens source = .ok ts)
    (hlines : areTame true (unifyBreaks source.toList) = true) :
    ∃ w, (Stage.inside 0).walk ts = some w := by
  simp only [tokens] at h
  split at h
  · exact (Scanner.orderly_start hlines).walk_of_run (Scanner.sound_start _) h
  · cases h

end FolderCommands.Yaml
