import FolderCommands.Proofs.Yaml.Heads
import FolderCommands.Proofs.Yaml.Openings

/-!
# Keys outside brackets

Where the lines of a text start like lines of a manifest, a key outside brackets is a plain scalar
that is a string: it starts where a line does, and nothing but such a scalar starts there. The
tokens are followed with the number of open brackets. A comma outside brackets, which no reader of
nodes takes, counts as an opening bracket, because behind it a key may start within a line.
-/

namespace FolderCommands.Yaml

/-! ## Following tokens -/

/-- Whether a token is a plain scalar that stands for a string. -/
def Token.isString : Token → Bool
  | .scalar text true => match Scalar.resolvePlain text with
    | .ok (.string _) => true
    | _ => false
  | _ => false

/-- Whether a token starts a root that is neither a scalar nor a block. -/
def Token.opensOther : Token → Bool
  | .flowMappingStart | .anchor _ | .tag .. => true
  | _ => false

/-- Whether a token opens, closes and marks nothing. -/
def Token.isInert : Token → Bool
  | .blockEntry | .value | .alias _ | .anchor _ | .tag .. | .scalar .. => true
  | _ => false

/-- How far some tokens have got. -/
inductive Stage where
  | inside (depth : Nat)
  /-- Behind the mark of a key outside brackets. -/
  | atKey
  /-- Behind the mark of a document outside brackets. -/
  | atDocument
deriving DecidableEq, Repr

namespace Stage

def depth : Stage → Nat
  | inside depth => depth
  | _ => 0

/-- What a token leads to inside some brackets. -/
def enter (depth : Nat) (t : Token) : Stage :=
  if depth = 0 ∧ t = .key then atKey
  else if depth = 0 ∧ t = .documentStart then atDocument
  else inside (t.depthAfter depth)

/-- What a token leads to. A key outside brackets must be a string, and the root of a document a
scalar or a block. -/
def next : Stage → Token → Option Stage
  | inside depth, t => some (enter depth t)
  | atKey, t => if t.isString then some (inside 0) else none
  | atDocument, t => if t.opensOther then none else some (enter 0 t)

/-- What some tokens lead to. -/
def walk : Stage → List Token → Option Stage
  | w, [] => some w
  | w, t :: ts => (w.next t).bind fun w ↦ w.walk ts

theorem walk_append (w : Stage) (ts us : List Token) :
    w.walk (ts ++ us) = (w.walk ts).bind fun w ↦ w.walk us := by
  induction ts generalizing w with
  | nil => rfl
  | cons t ts ih =>
    rw [List.cons_append, walk, walk]
    cases w.next t with
    | none => rfl
    | some w => exact ih w

theorem walk_append_singleton {w w' : Stage} {ts : List Token} (h : w.walk ts = some w')
    (t : Token) : w.walk (ts ++ [t]) = w'.next t := by
  rw [walk_append, h, Option.bind_some, walk]
  cases w'.next t <;> rfl

theorem next_inside {depth : Nat} {t : Token} (h : depth ≠ 0 ∨ t ≠ .key ∧ t ≠ .documentStart) :
    (inside depth).next t = some (inside (t.depthAfter depth)) := by
  rw [next, enter, if_neg, if_neg]
  · rintro ⟨hzero, ht⟩
    exact h.elim (absurd hzero) fun h ↦ h.2 ht
  · rintro ⟨hzero, ht⟩
    exact h.elim (absurd hzero) fun h ↦ h.1 ht

theorem next_of_isInert (depth : Nat) {t : Token} (h : t.isInert = true) :
    (inside depth).next t = some (inside depth) ∧ t ≠ .key := by
  unfold Token.isInert at h
  split at h
  all_goals first | exact ⟨next_inside (.inr ⟨nofun, nofun⟩), nofun⟩ | cases h

/-- Only the mark of a key outside brackets leads behind one. -/
theorem ne_atKey_of_next {w w' : Stage} {t : Token} (h : w.next t = some w')
    (ht : t ≠ .key ∨ w.depth ≠ 0) : w' ≠ atKey := by
  have henter {depth : Nat} (hw : w.depth = depth) : enter depth t ≠ atKey := by
    rw [enter, if_neg]
    · split <;> exact nofun
    · rintro ⟨rfl, rfl⟩
      exact ht.elim (absurd rfl) (absurd hw)
  cases w with
  | inside depth =>
    cases h
    exact henter rfl
  | atKey =>
    rw [next] at h
    split at h <;> cases h
    exact nofun
  | atDocument =>
    rw [next] at h
    split at h <;> cases h
    exact henter rfl

theorem exists_of_isString {t : Token} (h : t.isString = true) :
    ∃ text s, t = .scalar text true ∧ Scalar.resolvePlain text = .ok (.string s) := by
  unfold Token.isString at h
  split at h
  · rename_i text
    split at h
    · rename_i s hs
      exact ⟨text, s, rfl, hs⟩
    · cases h
  · cases h

/-- A string leads from anywhere into the text. -/
theorem next_of_isString {w : Stage} {t : Token} (h : t.isString = true) :
    w.next t = some (inside w.depth) := by
  cases w with
  | inside depth =>
    obtain ⟨text, s, rfl, -⟩ := exists_of_isString h
    exact next_inside (.inr ⟨nofun, nofun⟩)
  | atKey => exact if_pos h
  | atDocument =>
    obtain ⟨text, s, rfl, -⟩ := exists_of_isString h
    rfl

/-- Marking a key that is a string changes nothing behind it. -/
theorem walk_key {w : Stage} {ts : List Token} (hw : w ≠ atKey)
    (h : w.depth = 0 → ∃ t ∈ ts.head?, t.isString = true) : w.walk (.key :: ts) = w.walk ts := by
  have hzero (hw : w.next .key = some atKey) (hdepth : w.depth = 0) :
      w.walk (.key :: ts) = w.walk ts := by
    obtain ⟨t, ht, hstring⟩ := h hdepth
    cases ts with
    | nil => cases ht
    | cons u ts =>
      cases ht
      rw [walk, hw, Option.bind_some, walk, walk, next_of_isString hstring,
        next_of_isString hstring, hdepth]
      rfl
  cases w with
  | inside depth =>
    cases depth with
    | zero => exact hzero rfl rfl
    | succ depth => rw [walk, next_inside (.inl (Nat.succ_ne_zero depth))]; rfl
  | atKey => exact absurd rfl hw
  | atDocument => exact hzero rfl rfl

/-- The start of a block around the key changes nothing either. -/
theorem walk_blockMappingStart {w : Stage} {ts : List Token} (hw : w ≠ atKey)
    (h : w.depth = 0 → ∃ t ∈ ts.head?, t.isString = true) :
    w.walk (.blockMappingStart :: .key :: ts) = w.walk ts := by
  cases w with
  | inside depth =>
    rw [walk, next_inside (.inr (by decide)), Option.bind_some]
    exact walk_key hw h
  | atKey => exact absurd rfl hw
  | atDocument =>
    have hinside : inside 0 ≠ atKey := nofun
    have hstep : atDocument.walk (.blockMappingStart :: .key :: ts) =
        (inside 0).walk (.key :: ts) := rfl
    obtain ⟨t, ht, hstring⟩ := h rfl
    cases ts with
    | nil => cases ht
    | cons u ts =>
      cases ht
      rw [hstep, walk_key hinside fun _ ↦ ⟨t, rfl, hstring⟩, walk, walk, next_of_isString hstring,
        next_of_isString hstring]
      rfl

end Stage

open Stage

/-! ## Pending keys -/

/-- Whether a key may be marked behind the first `n` of some tokens. -/
def MayMark (ts : List Token) (n : Nat) : Prop :=
  ∃ w, (inside 0).walk (ts.take n) = some w ∧ w ≠ .atKey ∧
    (w.depth = 0 → ∃ t ∈ ts[n]?, t.isString = true)

/-- Whether all pending keys may be marked. They stand one in front of the other, the first of them
in front of the token number `bound`. -/
def MayMarkAll (ts : List Token) : Nat → List (Option PendingKey) → Prop
  | _, [] => True
  | bound, none :: keys => MayMarkAll ts bound keys
  | bound, some k :: keys => k.before < bound ∧ MayMark ts k.before ∧ MayMarkAll ts k.before keys

section

variable {ts us : List Token} {bound bound' : Nat} {keys : List (Option PendingKey)}

theorem MayMarkAll.mono (h : MayMarkAll ts bound keys) (hle : bound ≤ bound') :
    MayMarkAll ts bound' keys := by
  induction keys with
  | nil => trivial
  | cons key keys ih =>
    cases key with
    | none => exact ih h
    | some k => exact ⟨Nat.lt_of_lt_of_le h.1 hle, h.2⟩

/-- The first key may be forgotten. -/
theorem MayMarkAll.forget {key : Option PendingKey} (h : MayMarkAll ts bound (key :: keys)) :
    MayMarkAll ts bound keys := by
  cases key with
  | none => exact h
  | some k => exact h.2.2.mono (Nat.le_of_lt h.1)

/-- Only the tokens in front of the bound count. -/
theorem MayMarkAll.of_take_eq (h : MayMarkAll ts bound keys)
    (heq : us.take bound = ts.take bound) : MayMarkAll us bound keys := by
  induction keys generalizing bound with
  | nil => trivial
  | cons key keys ih =>
    cases key with
    | none => exact ih h heq
    | some k =>
      obtain ⟨hlt, ⟨w, hwalk, hw, hstring⟩, hrest⟩ := h
      have htake {n : Nat} (hn : n ≤ bound) : us.take n = ts.take n := by
        rw [← Nat.min_eq_left hn, ← List.take_take, heq, List.take_take]
      refine ⟨hlt, ⟨w, ?_, hw, fun hdepth ↦ ?_⟩, ih hrest (htake (Nat.le_of_lt hlt))⟩
      · rw [htake (Nat.le_of_lt hlt)]
        exact hwalk
      · rw [← List.getElem?_take_of_lt hlt, heq, List.getElem?_take_of_lt hlt]
        exact hstring hdepth

theorem MayMarkAll.push (h : MayMarkAll ts ts.length keys) (t : Token) :
    MayMarkAll (ts ++ [t]) (ts ++ [t]).length keys := by
  refine (h.of_take_eq ?_).mono ?_
  · rw [List.take_append_of_le_length (Nat.le_refl _)]
  · rw [List.length_append]
    exact Nat.le_add_right _ _

/-- A key becomes pending in front of a token. -/
theorem MayMarkAll.save (h : MayMarkAll ts ts.length keys) {w : Stage} {t : Token}
    (hwalk : (inside 0).walk ts = some w) (hw : w ≠ .atKey)
    (hstring : w.depth = 0 → t.isString = true) {k : PendingKey} (hk : k.before = ts.length) :
    MayMarkAll (ts ++ [t]) (ts ++ [t]).length (some k :: keys) := by
  have htake : (ts ++ [t]).take ts.length = ts := by
    rw [List.take_append_of_le_length (Nat.le_refl _), List.take_length]
  refine ⟨?_, ⟨w, ?_, hw, fun hdepth ↦ ⟨t, ?_, hstring hdepth⟩⟩, ?_⟩
  · rw [hk, List.length_append]
    exact Nat.lt_succ_self _
  · rw [hk, htake, hwalk]
  · rw [hk, List.getElem?_append_right (Nat.le_refl _), Nat.sub_self]
    rfl
  · rw [hk]
    exact h.of_take_eq (by rw [htake, List.take_length])

/-- A key that may be marked changes nothing behind it when it is. -/
theorem MayMark.walk_eq {n : Nat} (h : MayMark ts n) :
    (inside 0).walk (ts.take n ++ .key :: ts.drop n) = (inside 0).walk ts ∧
      (inside 0).walk (ts.take n ++ .blockMappingStart :: .key :: ts.drop n) =
        (inside 0).walk ts := by
  obtain ⟨w, hwalk, hw, hstring⟩ := h
  have hhead (hdepth : w.depth = 0) : ∃ t ∈ (ts.drop n).head?, t.isString = true := by
    rw [List.head?_drop]
    exact hstring hdepth
  have hsplit : (inside 0).walk ts = w.walk (ts.drop n) := by
    nth_rewrite 1 [← List.take_append_drop n ts]
    rw [walk_append, hwalk, Option.bind_some]
  constructor
  · rw [walk_append, hwalk, Option.bind_some, walk_key hw hhead, hsplit]
  · rw [walk_append, hwalk, Option.bind_some, walk_blockMappingStart hw hhead, hsplit]

theorem mayMarkAll_of_expire {place : Position} {keys' : List (Option PendingKey)}
    (h : MayMarkAll ts bound keys) (hexpire : keys.mapM (Scanner.expire place) = .ok keys') :
    MayMarkAll ts bound keys' ∧ keys'.length = keys.length := by
  induction keys generalizing bound keys' with
  | nil =>
    cases hexpire
    exact ⟨trivial, rfl⟩
  | cons key keys ih =>
    rw [List.mapM_cons] at hexpire
    obtain ⟨key', hkey, hrest⟩ := exists_of_bind_ok hexpire
    obtain ⟨rest, hkeys, hlast⟩ := exists_of_bind_ok hrest
    cases hlast
    cases hkey' : key' with
    | none =>
      obtain ⟨hall, hlength⟩ := ih h.forget hkeys
      exact ⟨hall, congrArg Nat.succ hlength⟩
    | some k =>
      obtain ⟨rfl, -⟩ := Scanner.expire_eq_some hkey hkey'
      obtain ⟨hall, hlength⟩ := ih h.2.2 hkeys
      exact ⟨⟨h.1, h.2.1, hall⟩, congrArg Nat.succ hlength⟩

end

namespace Scanner

variable {s s' : Scanner} {w w' : Stage} {t : Token}

/-- Whether a scanner has got that far without marking a key outside brackets that is no string,
and marks none of those that are pending. -/
structure Follows (s : Scanner) (w : Stage) : Prop where
  walk : (inside 0).walk s.produced = some w
  ne_atKey : w ≠ .atKey
  le_depth : s.outerKeys.length ≤ w.depth
  keys : MayMarkAll s.produced s.produced.length (s.key :: s.outerKeys)

namespace Follows

/-- Neither the cursor nor the margins matter. -/
theorem of_eq (h : s.Follows w) (hdone : s'.done = s.done) (hkey : s'.key = s.key)
    (houter : s'.outerKeys = s.outerKeys) : s'.Follows w := by
  have hproduced : s'.produced = s.produced := congrArg List.reverse hdone
  exact ⟨hproduced ▸ h.walk, h.ne_atKey, houter ▸ h.le_depth, hproduced ▸ hkey ▸ houter ▸ h.keys⟩

theorem forget (h : s.Follows w) : { s with key := none }.Follows w :=
  ⟨h.walk, h.ne_atKey, h.le_depth, h.keys.forget⟩

theorem push (h : s.Follows w) (hnext : w.next t = some w') (ht : t ≠ .key ∨ w.depth ≠ 0)
    (hdepth : s.outerKeys.length ≤ w'.depth) : (s.push t).Follows w' where
  walk := by rw [produced_push, walk_append_singleton h.walk, hnext]
  ne_atKey := ne_atKey_of_next hnext ht
  le_depth := hdepth
  keys := by
    rw [produced_push]
    exact h.keys.push t

theorem dropKey (h : s.Follows w) (hdrop : s.dropKey = .ok s') : s'.Follows w := by
  rw [eq_of_dropKey hdrop]
  exact h.forget

/-- A token where a key may start must be a string if no brackets surround it. -/
theorem save (h : s.Follows w) (hsave : s.saveKey = .ok s') (hnext : w.next t = some w')
    (ht : t ≠ .key) (hdepth : s.outerKeys.length ≤ w'.depth)
    (hstring : s.keyAllowed = true → w.depth = 0 → t.isString = true) : (s'.push t).Follows w' := by
  have hpush := h.push hnext (.inl ht) hdepth
  rcases cases_of_saveKey hsave with ⟨-, rfl⟩ | ⟨hallowed, k, hk, rfl⟩
  · exact hpush
  · refine ⟨hpush.walk, hpush.ne_atKey, hdepth, ?_⟩
    rw [produced_push]
    exact h.keys.forget.save h.walk h.ne_atKey (hstring hallowed) hk

/-- What is put in where a pending key starts leaves the tokens in front of it. -/
theorem insert (h : s.Follows w) {k : PendingKey} (hk : s.key = some k) {us : List Token}
    (hproduced : s'.produced = s.produced.take k.before ++ us)
    (hwalk : (inside 0).walk s'.produced = some w) (houter : s'.outerKeys = s.outerKeys) :
    { s' with key := none }.Follows w := by
  have hkeys := h.keys
  rw [hk] at hkeys
  obtain ⟨hlt, -, hrest⟩ := hkeys
  have hlength : (s.produced.take k.before).length = k.before := by
    rw [List.length_take, Nat.min_eq_left (Nat.le_of_lt hlt)]
  have hall : MayMarkAll s'.produced k.before s.outerKeys :=
    hrest.of_take_eq (by rw [hproduced, List.take_left' hlength])
  have hle : k.before ≤ s'.produced.length := by
    rw [hproduced, List.length_append, hlength]
    exact Nat.le_add_right _ _
  refine ⟨hwalk, h.ne_atKey, houter ▸ h.le_depth, ?_⟩
  rw [← houter] at hall
  exact hall.mono hle

/-- A pending key is marked where it starts, perhaps with a block around it. -/
theorem mark (h : s.Follows w) {k : PendingKey} (hk : s.key = some k) (column : Nat) :
    { (s.insert k.before .key).indentTo column k.before .blockMappingStart with
      key := none }.Follows w := by
  have hkeys := h.keys
  rw [hk] at hkeys
  have hlength : (s.produced.take k.before).length = k.before := by
    rw [List.length_take, Nat.min_eq_left (Nat.le_of_lt hkeys.1)]
  obtain ⟨hkey, hblock⟩ := hkeys.2.1.walk_eq
  have hone := produced_insert s (Nat.le_of_lt hkeys.1) .key
  have hle : k.before ≤ (s.insert k.before .key).produced.length := by
    rw [hone, List.length_append, hlength]
    exact Nat.le_add_right _ _
  rw [indentTo]
  split
  · have htwo := produced_insert (s.insert k.before .key) hle .blockMappingStart
    rw [hone, List.take_left' hlength, List.drop_left' hlength] at htwo
    exact (h.insert hk htwo (by rw [htwo, hblock, h.walk]) rfl).of_eq rfl rfl rfl
  · exact h.insert hk hone (by rw [hone, hkey, h.walk]) rfl

/-- A block that ends says nothing about keys. -/
theorem closeBlocks (h : s.Follows w) (bound : Nat) (margins : List Nat) :
    ∃ w', (Scanner.closeBlocks bound s margins).Follows w' ∧ w'.depth = w.depth ∧
      (w' = .atDocument → w = .atDocument) := by
  induction margins generalizing s w with
  | nil => exact ⟨w, h.of_eq rfl rfl rfl, rfl, id⟩
  | cons outer margins ih =>
    rw [Scanner.closeBlocks]
    split
    · have hnext : w.next .blockEnd = some (inside w.depth) := by
        cases w with
        | inside depth => exact next_inside (.inr (by decide))
        | atKey => exact absurd rfl h.ne_atKey
        | atDocument => rfl
      have hclosed : { s.push .blockEnd with margin := outer }.Follows (inside w.depth) :=
        (h.push hnext (.inl (by decide)) h.le_depth).of_eq rfl rfl rfl
      obtain ⟨w', hw', hdepth, hdocument⟩ := ih hclosed
      exact ⟨w', hw', hdepth, fun hat ↦ by cases hdocument hat⟩
    · exact ⟨w, h.of_eq rfl rfl rfl, rfl, id⟩

theorem unindent (h : s.Follows w) : ∃ w', s.unindent.Follows w' ∧ w'.depth = w.depth ∧
    (w' = .atDocument → w = .atDocument) := by
  rw [Scanner.unindent]
  split
  · exact ⟨w, h, rfl, id⟩
  · exact h.closeBlocks ..

theorem closeAll (h : s.Follows w) : ∃ w', s.closeAll.Follows w' ∧ w'.depth = w.depth ∧
    (w' = .atDocument → w = .atDocument) := by
  rw [Scanner.closeAll]
  split
  · exact ⟨w, h, rfl, id⟩
  · exact h.closeBlocks ..

theorem expireKeys (h : s.Follows w) (hexpire : s.expireKeys = .ok s') : s'.Follows w := by
  obtain ⟨key, hkey, hrest⟩ := exists_of_bind_ok hexpire
  obtain ⟨outerKeys, houter, hlast⟩ := exists_of_bind_ok hrest
  cases hlast
  have hall : (s.key :: s.outerKeys).mapM (expire s.cursor.place) = .ok (key :: outerKeys) := by
    rw [List.mapM_cons, hkey, houter]
    rfl
  obtain ⟨hkeys, hlength⟩ := mayMarkAll_of_expire h.keys hall
  exact ⟨h.walk, h.ne_atKey, Nat.succ.inj hlength ▸ h.le_depth, hkeys⟩

end Follows

end Scanner

end FolderCommands.Yaml
