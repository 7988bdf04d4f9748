import FolderCommands.Proofs.Files.Lexical
import FolderCommands.Proofs.Names
import FolderCommands.Uuid
import FolderCommands.RemotePath

/-!
# Values that are written as one text

A location is read from its text, so that reading any text and writing it again leads to a text
that does not change any more. An identifier is read from its five groups of digits.
-/

namespace FolderCommands

/-! ## Locations -/

namespace RemotePath

open LocalPath

theorem trim_of_isSegment {s : String} (h : IsSegment s) : Text.trim s.toList = s.toList := by
  have htrimmed := congrArg String.toList h.2.1
  rwa [Text.trimmed, String.toList_ofList] at htrimmed

theorem toList_ne_nil {s : String} (h : IsSegment s) : s.toList ≠ [] :=
  fun hnil ↦ h.1 (String.toList_eq_nil_iff.1 hnil)

theorem head?_joinWith {s : String} {segments : List String} (h : s.toList ≠ []) :
    (Text.joinWith "/" (s :: segments)).toList.head? = s.toList.head? := by
  cases segments with
  | nil => rfl
  | cons t segments =>
    change (s ++ "/" ++ Text.joinWith "/" (t :: segments)).toList.head? = _
    rw [String.toList_append, String.toList_append, List.append_assoc,
      List.head?_append_of_ne_nil _ h]

/-- No blank stands at an end of segments with slashes between. -/
theorem trim_joinWith {segments : List String} (h : ∀ s ∈ segments, IsSegment s) :
    Text.trim (Text.joinWith "/" segments).toList = (Text.joinWith "/" segments).toList := by
  induction segments with
  | nil => rfl
  | cons s segments ih =>
    obtain ⟨hs, hrest⟩ := List.forall_mem_cons.1 h
    cases segments with
    | nil => exact trim_of_isSegment hs
    | cons t segments =>
      have hhead := (Text.trim_eq_self_iff.1 (trim_of_isSegment hs)).1
      have hlast := (Text.trim_eq_self_iff.1 (ih hrest)).2
      have hne := toList_ne_nil (hrest t List.mem_cons_self)
      have hne' : (Text.joinWith "/" (t :: segments)).toList ≠ [] := by
        rw [Ne, ← List.head?_eq_none_iff, head?_joinWith hne]
        exact List.head?_eq_none_iff.not.2 hne
      rw [Text.trim_eq_self_iff]
      refine ⟨fun c hc ↦ hhead c ?_, fun c hc ↦ hlast c ?_⟩
      · rwa [head?_joinWith (toList_ne_nil hs)] at hc
      · change (s ++ "/" ++ Text.joinWith "/" (t :: segments)).toList.getLast? = _ at hc
        rwa [String.toList_append, List.getLast?_append_of_ne_nil _ hne'] at hc

theorem toList_text (p : RemotePath) : p.text.toList =
    (if p.rooted then ['/'] else []) ++ (Text.joinWith "/" p.segments).toList := by
  rw [text, String.toList_append]
  cases p.rooted <;> rfl

/-- No blank stands at an end of the text of a location. -/
theorem trim_text (p : RemotePath) : Text.trim p.text.toList = p.text.toList := by
  have hjoin := Text.trim_eq_self_iff.1 (trim_joinWith p.isSegment)
  rw [toList_text, Text.trim_eq_self_iff]
  cases p.rooted with
  | false => exact hjoin
  | true =>
    refine ⟨?_, fun c hc ↦ ?_⟩
    · rintro c ⟨⟩
      decide
    · by_cases hnil : (Text.joinWith "/" p.segments).toList = []
      · rw [hnil] at hc
        cases hc
        decide
      · exact hjoin.2 c ((List.getLast?_cons_of_ne_nil hnil).symm.trans hc)

theorem head?_text (p : RemotePath) : (p.text.toList.head? == some '/') = p.rooted := by
  rw [toList_text]
  cases p.rooted with
  | true => rfl
  | false =>
    rw [if_neg Bool.false_ne_true, List.nil_append, beq_eq_false_iff_ne]
    cases hsegments : p.segments with
    | nil => rintro ⟨⟩
    | cons s segments =>
      have hs := p.isSegment s (by rw [hsegments]; exact List.mem_cons_self)
      rw [head?_joinWith (toList_ne_nil hs)]
      exact fun hhead ↦ hs.2.2 (List.mem_of_mem_head? hhead)

theorem segmentsOf_joinWith {segments : List String} (h : ∀ s ∈ segments, IsSegment s) :
    segmentsOf (Text.joinWith "/" segments) = segments := by
  cases segments with
  | nil => rfl
  | cons s segments =>
    rw [segmentsOf, split_joinWith (List.cons_ne_nil _ _) fun t ht ↦ (h t ht).2.2,
      List.map_congr_left (fun t ht ↦ (h t ht).2.1), List.map_id', List.filter_eq_self.2]
    exact fun t ht ↦ decide_eq_true (h t ht).1

theorem segmentsOf_of_isSegment {s : String} (h : IsSegment s) : segmentsOf s = [s] :=
  segmentsOf_joinWith (List.forall_mem_singleton.2 h)

/-- Texts with a slash between name the segments of both. -/
theorem segmentsOf_append_slash (a b : String) :
    segmentsOf (a ++ "/" ++ b) = segmentsOf a ++ segmentsOf b := by
  unfold segmentsOf
  rw [split_append_slash, List.map_append, List.filter_append]

theorem segmentsOf_slash (text : String) : segmentsOf ("/" ++ text) = segmentsOf text := by
  have hsegments := segmentsOf_append_slash "" text
  rwa [String.empty_append] at hsegments

/-- A location is read from its text. -/
theorem ofText_text (p : RemotePath) : ofText p.text = p := by
  apply RemotePath.ext
  · rw [rooted_ofText, trim_text, head?_text]
  · rw [segments_ofText, Text.trimmed, trim_text, String.ofList_toList, text]
    cases p.rooted with
    | false =>
      rw [if_neg Bool.false_ne_true, String.empty_append]
      exact segmentsOf_joinWith p.isSegment
    | true =>
      rw [if_pos rfl, segmentsOf_slash]
      exact segmentsOf_joinWith p.isSegment

end RemotePath

/-! ## Identifiers -/

namespace Uuid

theorem digitChar_spec (d : Fin 16) : digit? (digitChar d) = some d ∧ digitChar d ≠ '-' ∧
    digitChar d ≠ '\x7b' ∧ digitChar d ≠ 'u' := by
  revert d
  decide

theorem mapM_digit? (digits : List (Fin 16)) : (digits.map digitChar).mapM digit? = some digits := by
  induction digits with
  | nil => rfl
  | cons d digits ih =>
    rw [List.map_cons, List.mapM_cons, (digitChar_spec d).1, ih]
    rfl

/-- The groups of a text without hyphens, with hyphens between. -/
def grouped (cs : List Char) : List Char :=
  cs.take 8 ++ '-' :: ((cs.drop 8).take 4 ++ '-' :: ((cs.drop 12).take 4 ++
    '-' :: ((cs.drop 16).take 4 ++ '-' :: cs.drop 20)))

variable {cs : List Char}

theorem map_length_pieces_grouped (h : '-' ∉ cs) (hlength : cs.length = 32) :
    (Text.pieces '-' (grouped cs)).map List.length = groupLengths := by
  have htake {n : Nat} (ds : List Char) (hds : ∀ c ∈ ds, c ∈ cs) : '-' ∉ ds.take n :=
    fun hmem ↦ h (hds _ (List.mem_of_mem_take hmem))
  have hdrop (n : Nat) : ∀ c ∈ cs.drop n, c ∈ cs := fun c hc ↦ List.mem_of_mem_drop hc
  rw [grouped, Text.pieces_append, Text.pieces_append, Text.pieces_append, Text.pieces_append,
    Text.pieces_of_notMem (htake cs fun c hc ↦ hc), Text.pieces_of_notMem (htake _ (hdrop 8)),
    Text.pieces_of_notMem (htake _ (hdrop 12)), Text.pieces_of_notMem (htake _ (hdrop 16)),
    Text.pieces_of_notMem fun hmem ↦ h (hdrop 20 _ hmem)]
  simp [hlength, groupLengths]

theorem filter_grouped (h : '-' ∉ cs) : (grouped cs).filter (· ≠ '-') = cs := by
  have hself : cs.filter (· ≠ '-') = cs :=
    List.filter_eq_self.2 fun c hc ↦ decide_eq_true fun heq ↦ h (heq ▸ hc)
  have hcut (n k : Nat) : (cs.drop n).take k ++ cs.drop (n + k) = cs.drop n := by
    rw [← List.drop_drop, List.take_append_drop]
  have hhyphen (ds : List Char) : ('-' :: ds).filter (· ≠ '-') = ds.filter (· ≠ '-') :=
    List.filter_cons_of_neg (by decide)
  rw [grouped, List.filter_append, hhyphen, List.filter_append, hhyphen, List.filter_append,
    hhyphen, List.filter_append, hhyphen, ← List.filter_append, ← List.filter_append,
    ← List.filter_append, ← List.filter_append, hcut 16 4, hcut 12 4, hcut 8 4,
    List.take_append_drop, hself]

theorem ofDigits?_map (u : Uuid) : ofDigits? (u.digits.map digitChar) = some u := by
  rw [ofDigits?, mapM_digit?]
  exact dif_pos u.length_digits

/-- Neither a brace nor the name of the space of identifiers stands in front of digits. -/
theorem core_grouped (d : Fin 16) (digits : List (Fin 16)) :
    core (grouped ((d :: digits).map digitChar)) =
      (grouped ((d :: digits).map digitChar), 0, true) := by
  obtain ⟨-, -, hbrace, hspace⟩ := digitChar_spec d
  obtain ⟨cs, hcs⟩ : ∃ cs, grouped ((d :: digits).map digitChar) = digitChar d :: cs := ⟨_, rfl⟩
  have hhead : (digitChar d :: cs).head? ≠ some '\x7b' := fun heq ↦ hbrace (Option.some.inj heq)
  have hurn : "urn:uuid:".toList.isPrefixOf (digitChar d :: cs) = false := by
    rw [show "urn:uuid:".toList = 'u' :: "rn:uuid:".toList from rfl, List.isPrefixOf,
      beq_eq_false_iff_ne.2 (Ne.symm hspace), Bool.false_and]
  rw [hcs, core, decide_eq_false hhead, hurn]
  rfl

/-- An identifier is read from its text. -/
theorem parse_text (u : Uuid) : parse u.text = .ok u := by
  have htext : u.text.toList = grouped (u.digits.map digitChar) := by
    rw [text, String.toList_ofList]
    simp only [grouped, List.append_assoc, List.cons_append]
  have hhyphen : '-' ∉ u.digits.map digitChar := by
    rw [List.mem_map]
    rintro ⟨d, -, hd⟩
    exact (digitChar_spec d).2.1 hd
  have hlength : (u.digits.map digitChar).length = 32 := by
    rw [List.length_map, u.length_digits]
  have hcore : core (grouped (u.digits.map digitChar)) =
      (grouped (u.digits.map digitChar), 0, true) := by
    cases hdigits : u.digits with
    | nil =>
      have hlength := u.length_digits
      rw [hdigits] at hlength
      cases hlength
    | cons d digits => exact core_grouped d digits
  rw [parse, htext, hcore]
  dsimp only
  rw [map_length_pieces_grouped hhyphen hlength, filter_grouped hhyphen, ofDigits?_map]
  rfl

end Uuid

end FolderCommands
