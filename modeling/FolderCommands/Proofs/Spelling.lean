import FolderCommands.Proofs.Data.Texts
import FolderCommands.Proofs.Joins

/-!
# How a location is spelled

A location and its text determine each other, so either may stand for the other. A text that is
joined to a location is read as if it had been written behind the text of the location, with a slash
between. The one exception are texts of blanks alone: with a slash behind it such a text is rooted,
although it is not rooted itself.
-/

namespace FolderCommands

/-! ## Blanks at the ends -/

namespace Text

theorem slash_notMem_of_isBlank {cs : List Char} (h : ∀ c ∈ cs, isBlank c = true) : '/' ∉ cs :=
  fun hslash ↦ absurd (h '/' hslash) (by decide)

/-- Blanks around a text are around its first piece and its last one. -/
theorem map_trim_pieces_around {before after : List Char} (hbefore : ∀ c ∈ before, isBlank c = true)
    (hafter : ∀ c ∈ after, isBlank c = true) (cs : List Char) :
    (pieces '/' (before ++ (cs ++ after))).map trim = (pieces '/' cs).map trim := by
  induction hlength : cs.length using Nat.strong_induction_on generalizing before cs after with
  | h n ih =>
    by_cases hslash : '/' ∈ cs
    · obtain ⟨front, back, rfl⟩ := List.append_of_mem hslash
      rw [List.length_append, List.length_cons] at hlength
      have hsplit : before ++ (front ++ '/' :: back ++ after) =
          (before ++ (front ++ [])) ++ '/' :: ([] ++ (back ++ after)) := by simp
      have hnil : ∀ c ∈ ([] : List Char), isBlank c = true := List.forall_mem_nil _
      have hfront := ih front.length (by omega) hbefore hnil front rfl
      have hback := ih back.length (by omega) hnil hafter back rfl
      rw [hsplit, pieces_append, pieces_append, List.map_append, List.map_append, hfront, hback]
    · have hnone : '/' ∉ before ++ (cs ++ after) := by
        simp [hslash, slash_notMem_of_isBlank hbefore, slash_notMem_of_isBlank hafter]
      rw [pieces_of_notMem hnone, pieces_of_notMem hslash, List.map_singleton, List.map_singleton,
        trim, trimWhile_around hbefore hafter, trim]

end Text

/-! ## Segments -/

theorem segmentsOf_eq (text : String) : segmentsOf text =
    (((Text.pieces '/' text.toList).map Text.trim).map String.ofList).filter (· ≠ "") := by
  rw [segmentsOf, Text.split, List.map_map, List.map_map]
  congr 2
  funext piece
  rw [Function.comp_apply, Function.comp_apply, Text.trimmed, String.toList_ofList]

/-- Blanks around a text are of no account for its segments. -/
theorem segmentsOf_trim (text : String) : segmentsOf (Text.trimmed text) = segmentsOf text := by
  obtain ⟨before, after, htext, hbefore, hafter⟩ :=
    Text.exists_trimWhile_append Text.isBlank text.toList
  rw [segmentsOf_eq, segmentsOf_eq, Text.trimmed, String.toList_ofList]
  conv_rhs => rw [htext]
  rw [Text.map_trim_pieces_around hbefore hafter, Text.trim]

namespace RemotePath

/-! ## Joining -/

/-- Joining one text after the other is joining both with a slash between. -/
theorem join_join (p : RemotePath) (a b : String) :
    (p.join a).join b = p.join (a ++ "/" ++ b) := by
  apply RemotePath.ext
  · rfl
  · rw [segments_join, segments_join, segments_join, segmentsOf_append_slash, List.append_assoc]

/-- A slash behind a text roots it if and only if the text is rooted or has nothing but blanks. -/
theorem rooted_append_slash (s t : String) : (ofText (s ++ "/" ++ t)).rooted =
    ((ofText s).rooted || s.toList.all Text.isBlank) := by
  have hchars : (s ++ "/" ++ t).toList = s.toList ++ '/' :: t.toList := by simp
  rw [rooted_ofText, rooted_ofText, Text.trim, Text.trim, Text.head?_trimWhile,
    Text.head?_trimWhile, hchars, List.dropWhile_append]
  cases hkept : s.toList.dropWhile Text.isBlank with
  | nil =>
    have hall : s.toList.all Text.isBlank = true :=
      List.all_eq_true.2 (List.dropWhile_eq_nil_iff.1 hkept)
    rw [hall, Bool.or_true]
    rfl
  | cons c rest =>
    have hall : s.toList.all Text.isBlank = false := by
      rw [← Bool.not_eq_true, List.all_eq_true, ← List.dropWhile_eq_nil_iff, hkept]
      exact List.cons_ne_nil c rest
    rw [hall, Bool.or_false]
    rfl

theorem rooted_of_all_isBlank {s : String} (h : s.toList.all Text.isBlank = true) :
    (ofText s).rooted = false := by
  rw [rooted_ofText, Text.trim, Text.head?_trimWhile,
    List.dropWhile_eq_nil_iff.2 (List.all_eq_true.1 h)]
  rfl

/-- A text that is joined to what another one names may be written behind that one if and only if
that one has something but blanks. -/
theorem join_ofText_iff (s t : String) :
    (ofText s).join t = ofText (s ++ "/" ++ t) ↔ ∃ c ∈ s.toList, Text.isBlank c = false := by
  have hblank : s.toList.all Text.isBlank = false ↔ ∃ c ∈ s.toList, Text.isBlank c = false := by
    rw [List.all_eq_false]
    simp only [Bool.not_eq_true]
  rw [← hblank]
  constructor
  · intro h
    by_contra hall
    rw [Bool.not_eq_false] at hall
    have hrooted := congrArg rooted h
    rw [rooted_join, rooted_append_slash, hall, rooted_of_all_isBlank hall] at hrooted
    cases hrooted
  · intro hall
    apply RemotePath.ext
    · rw [rooted_join, rooted_append_slash, hall, Bool.or_false]
    · rw [segments_join, segments_ofText, segments_ofText, segmentsOf_trim, segmentsOf_trim,
        segmentsOf_append_slash]

/-- Joining any number of texts is joining all of them with slashes between. -/
theorem foldl_join (p : RemotePath) (children : List String) :
    children.foldl join p = p.join (Text.joinWith "/" children) := by
  induction children generalizing p with
  | nil => exact RemotePath.ext rfl (List.append_nil _).symm
  | cons child children ih =>
    rw [List.foldl_cons]
    cases children with
    | nil => rfl
    | cons next children =>
      rw [ih, join_join]
      rfl

/-- Locations with the same text are the same. -/
theorem text_inj {p q : RemotePath} : p.text = q.text ↔ p = q := by
  constructor
  · intro h
    calc
      p = ofText p.text := (ofText_text p).symm
      _ = ofText q.text := by rw [h]
      _ = q := ofText_text q
  · rintro rfl
    rfl

/-- A location that has been read from a text and led on by others is read from its own text, which
no other location has. None of its segments is empty, padded or holds a slash. What leads on, at the
end or at once, may as well have been written behind, with slashes between; only behind a text of
blanks alone this makes a difference. -/
theorem spelled_exactly (s : String) (children : List String) :
    let p := children.foldl join (ofText s)
    ofText p.text = p ∧
    (∀ (s' : String) (children' : List String),
      (children'.foldl join (ofText s')).text = p.text ↔ children'.foldl join (ofText s') = p) ∧
    (∀ segment ∈ p.segments,
      segment ≠ "" ∧ Text.trimmed segment = segment ∧ '/' ∉ segment.toList) ∧
    p = (ofText s).join (Text.joinWith "/" children) ∧
    (∀ t, (ofText s).join t = ofText (s ++ "/" ++ t) ↔ ∃ c ∈ s.toList, Text.isBlank c = false) ∧
    ∀ a b, (p.join a).join b = p.join (a ++ "/" ++ b) := by
  intro p
  exact ⟨ofText_text p, fun _ _ ↦ text_inj, p.isSegment, foldl_join _ children, join_ofText_iff s,
    join_join p⟩

/-- Blanks and slashes wherever they can be. -/
theorem spelled_exactly_padded :
    "b" ∈ (["b / ", "\u00a0/c"].foldl join (ofText " / a //")).segments ∧
      "b" ≠ "" ∧ Text.trimmed "b" = "b" ∧ '/' ∉ "b".toList := by
  have hmem : "b" ∈ (["b / ", "\u00a0/c"].foldl join (ofText " / a //")).segments := by
    decide +kernel
  exact ⟨hmem, (spelled_exactly _ _).2.2.1 "b" hmem⟩

end RemotePath

end FolderCommands
