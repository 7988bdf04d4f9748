import FolderCommands.Proofs.Grammar.Tokens
import FolderCommands.Proofs.Yaml.Roots

/-!
# The values of accepted lines

The text of accepted lines has a document behind each separator, and one in front of the first
separator if there are lines. The value of a document that starts with a separator is null, that of
a document that starts with the name of a command or of a command set is not, and where this name
is written plainly, it is the first entry of the value.
-/

namespace FolderCommands.Grammar

open Yaml Scanner

variable {l rest : List Step} {s : Step} {suffix : List Token} {value : Value}

/-! ## The lines of a document -/

/-- The lines from the start of each document on. -/
def documentLines (l : List Step) : List (List Step) :=
  if startsDeclared l then l :: sections l else sections l

/-- Whether some tokens are those of a text from some accepted lines on. -/
def Starts (l : List Step) (suffix : List Token) : Prop :=
  (∃ fuel s, Faces s (content l) ∧ run fuel s = .ok (s.produced ++ suffix)) ∨ l = [] ∧ suffix = []

/-- Whether a value is that of the document that starts with some accepted lines. -/
def Holds (l : List Step) (value : Value) : Prop :=
  ∃ suffix, Starts l suffix ∧ HasValue suffix value

/-- Whether a line may start a document: it is a separator, or it names something. -/
structure Step.IsFirst (s : Step) : Prop where
  accepted : s.IsAccepted
  regular : s.isRegular = true
  naming : s.isMark = false → s.isNaming = true

theorem Step.IsAccepted.isFirst (h : s.IsAccepted) (hregular : s.isRegular = true)
    (hbefore : s.before = .header ∨ ∃ set, s.before = .command set) : s.IsFirst where
  accepted := h
  regular := hregular
  naming hmark := by
    rw [isNaming, hmark]
    rcases hbefore with hbefore | ⟨set, hbefore⟩ <;> rw [hbefore] <;> rfl

/-- The first document is that of the header, unless there is nothing but a separator in it. -/
theorem Headed.documentLines_eq {set : CommandSet} (parts : Headed l set) :
    documentLines l = (parts.header :: parts.rest) :: sections parts.rest ∨
      ∃ s more others, documentLines l = (s :: more) :: others ∧ s.isMark = true ∧
        s.before = .header ∧ s :: more <:+ l := by
  obtain ⟨leading, header, rest, hl, hleading, hmark, -, -⟩ := parts
  dsimp only
  subst hl
  have hheader : sections (header :: rest) = sections rest := by
    rw [sections, if_neg (by simp [hmark])]
  rcases leading with _ | ⟨m, _ | ⟨n, ms⟩⟩
  · refine .inl ?_
    have hdeclared : startsDeclared (header :: rest) = true := by simp [startsDeclared, hmark]
    rw [List.nil_append, documentLines, if_pos hdeclared, hheader]
  · refine .inl ?_
    have hm := (hleading m List.mem_cons_self).1
    have hdeclared : startsDeclared (m :: header :: rest) = false := by simp [startsDeclared, hm]
    rw [List.singleton_append, documentLines, hdeclared, if_neg Bool.false_ne_true, sections,
      if_pos hm, hheader]
  · have hm := (hleading m List.mem_cons_self).1
    obtain ⟨hn, hbefore⟩ := hleading n (by simp)
    have hdeclared : startsDeclared (m :: n :: ms ++ header :: rest) = false := by
      simp [startsDeclared, hm]
    refine .inr ⟨n, ms ++ header :: rest, sections (n :: (ms ++ header :: rest)), ?_, hn, hbefore,
      List.suffix_cons m _⟩
    rw [documentLines, hdeclared, if_neg Bool.false_ne_true, List.cons_append, List.cons_append]
    exact if_pos hm

theorem starts_of_behind {cs : List Char} (h : Behind l cs) (hopens : Opens cs suffix) :
    Starts l suffix := by
  obtain ⟨fuel, s, hfresh, rfl, hrun⟩ := hopens
  rcases faces_of_behind hfresh h with hfaces | ⟨hnil, hproduced⟩
  · exact .inl ⟨fuel, s, hfaces, hrun⟩
  · have hsuffix := hproduced fuel _ hrun
    rw [List.append_right_eq_self] at hsuffix
    exact .inr ⟨hnil, hsuffix⟩

/-- A line that names something has the name of a command or of a command set. -/
theorem Step.IsAccepted.exists_name (h : s.IsAccepted) (hnaming : s.isNaming = true) :
    ∃ d, declaration? s.line = some d ∧ (d.key = "command_set" ∨ d.key = "command") ∧
      foldedName d.value ∈ catalogNames := by
  rw [isNaming, Bool.and_eq_true, Bool.not_eq_true'] at hnaming
  obtain ⟨hmark, hbefore⟩ := hnaming
  split at hbefore
  · rename_i hheader
    obtain ⟨value, set, hd, hset, -⟩ := h.of_header hmark hheader
    exact ⟨_, hd, .inl rfl, mem_catalogNames_of_find? hset⟩
  · rename_i set hcommand
    obtain ⟨value, spec, hd, hspec, -⟩ := h.of_command hmark hcommand
    exact ⟨_, hd, .inr rfl, mem_catalogNames_of_command? hspec⟩
  · cases hbefore

/-! ## First tokens -/

namespace Starts

theorem eq_nil (h : Starts [] suffix) : suffix = [] := by
  rcases h with ⟨fuel, s, hfaces, hrun⟩ | ⟨-, hsuffix⟩
  · have hts := eq_produced_of_faces hfaces hrun
    rwa [List.append_right_eq_self] at hts
  · exact hsuffix

theorem exists_faces (h : Starts (s :: rest) suffix) :
    ∃ fuel scanner, Faces scanner (content (s :: rest)) ∧
      run fuel scanner = .ok (scanner.produced ++ suffix) := by
  rcases h with hfaces | ⟨hnil, -⟩
  · exact hfaces
  · cases hnil

variable (hlines : Text.AreLines ((s :: rest).map (·.raw)))

include hlines

theorem exists_of_isMark (h : Starts (s :: rest) suffix) (hregular : s.isRegular = true)
    (hmark : s.isMark = true) : ∃ more, suffix = .documentStart :: more := by
  obtain ⟨fuel, scanner, hfaces, hrun⟩ := h.exists_faces
  obtain ⟨more, hmore⟩ := Grammar.exists_of_isMark hfaces hlines hregular hmark hrun
  exact ⟨more, List.append_cancel_left hmore⟩

theorem exists_of_isNaming (h : Starts (s :: rest) suffix) (hfirst : s.IsFirst)
    (hnaming : s.isNaming = true) :
    ∃ t more, suffix = t :: more ∧ (t = .key ∨ t = .blockMappingStart ∨
      ∃ text, t = .scalar (String.ofList ('c' :: text)) true) := by
  obtain ⟨fuel, scanner, hfaces, hrun⟩ := h.exists_faces
  obtain ⟨d, hd, hkey, -⟩ := hfirst.accepted.exists_name hnaming
  obtain ⟨t, more, hmore, ht⟩ := exists_of_declaration hkey hfaces hlines
    (Step.isUnbroken_of_isRegular hfirst.regular) hfirst.accepted.noTabs hd hrun
  refine ⟨t, more, List.append_cancel_left hmore, ht.imp id (.imp id ?_)⟩
  rintro ⟨text, rfl⟩
  rcases hkey with hkey | hkey
  · exact ⟨"ommand_set".toList ++ text, by rw [hkey]; rfl⟩
  · exact ⟨"ommand".toList ++ text, by rw [hkey]; rfl⟩

end Starts

/-- The check and YAML agree on whether there are lines in front of the first separator. -/
theorem startsBare_eq (hlines : Text.AreLines (l.map (·.raw))) (hfirst : ∀ s ∈ l.head?, s.IsFirst)
    (h : Starts l suffix) : startsBare suffix = startsDeclared l := by
  cases l with
  | nil =>
    rw [h.eq_nil]
    rfl
  | cons s rest =>
    have hs := hfirst s rfl
    cases hmark : s.isMark with
    | true =>
      obtain ⟨more, rfl⟩ := h.exists_of_isMark hlines hs.regular hmark
      simp [startsBare, startsDeclared, hmark]
    | false =>
      obtain ⟨t, more, rfl, ht⟩ := h.exists_of_isNaming hlines hs (hs.naming hmark)
      rcases ht with rfl | rfl | ⟨text, rfl⟩ <;> simp [startsBare, startsDeclared, hmark] <;> rfl

/-! ## Values -/

namespace Holds

theorem isNull_of_isFirst (hlines : Text.AreLines (l.map (·.raw)))
    (hfirst : ∀ s ∈ l.head?, s.IsFirst) (h : Holds l value) :
    value.isNull = !startsDeclared l := by
  obtain ⟨suffix, hstarts, node, hroot, hvalue⟩ := h
  have hnull (hends : endsDocument suffix = true) : value.isNull = true := by
    rw [hroot.eq_empty hends, valueOf_empty] at hvalue
    cases hvalue
    rfl
  cases l with
  | nil => exact hnull (by rw [hstarts.eq_nil]; rfl)
  | cons s rest =>
    have hs := hfirst s rfl
    cases hmark : s.isMark with
    | true =>
      obtain ⟨more, rfl⟩ := hstarts.exists_of_isMark hlines hs.regular hmark
      simpa [startsDeclared, hmark] using hnull rfl
    | false =>
      obtain ⟨t, more, rfl, ht⟩ := hstarts.exists_of_isNaming hlines hs (hs.naming hmark)
      rw [startsDeclared, List.head?_cons, Option.any_some, hmark]
      rcases ht with rfl | rfl | ⟨text, rfl⟩
      · exact absurd hroot HasRoot.not_key
      · obtain ⟨entries, rfl⟩ := hroot.exists_mapping
        obtain ⟨-, built, -, -, rfl⟩ := exists_of_valueOf_mapping hvalue
        rfl
      · rw [hroot.eq_scalar, valueOf_scalar] at hvalue
        have hother {ts : List String} (hts : ∀ t ∈ ts, t.toList.head? ≠ some 'c') :
            ts.contains (String.ofList ('c' :: text)) = false := by
          refine Bool.eq_false_iff.2 fun hmem ↦ hts _ (List.contains_iff_mem.1 hmem) ?_
          rw [String.toList_ofList]
          rfl
        have hne : String.ofList ('c' :: text) ≠ "" := by
          intro hempty
          have hlist := congrArg String.toList hempty
          rw [String.toList_ofList] at hlist
          cases hlist
        exact Scalar.isNull_of_resolvePlain hne (hother (by decide)) hvalue

/-- A name that is written plainly is the first entry of the value, or inside brackets its key is
all there is. -/
theorem exists_of_isPlain (hlines : Text.AreLines ((s :: rest).map (·.raw)))
    (haccepted : s.IsAccepted) (hnaming : s.isNaming = true) (hplain : s.isPlain = true)
    {d : Declaration} (hd : declaration? s.line = some d)
    (hends : EndsScalar (s.indent + 1) (content rest)) (h : Holds (s :: rest) value) :
    value = .string d.key ∨ ∃ entries, value = .mapping ((.string d.key, .string d.value) ::
      entries) := by
  obtain ⟨suffix, hstarts, node, hroot, hvalue⟩ := h
  obtain ⟨fuel, scanner, hfaces, hrun⟩ := hstarts.exists_faces
  obtain ⟨d', hd', hkey, hname⟩ := haccepted.exists_name hnaming
  obtain rfl : d' = d := Option.some.inj (hd'.symm.trans hd)
  rw [Step.isPlain, hnaming, Bool.not_true, Bool.false_or, Bool.and_eq_true] at hplain
  have hresolve : Scalar.resolve none d'.key true = .ok (.string d'.key) := by
    rcases hkey with hkey | hkey <;> rw [hkey] <;> rfl
  rcases exists_of_isPlainEntry hkey hfaces hlines (Step.isUnbroken_of_isRegular hplain.1)
    haccepted.noTabs hd hplain.2 hname hends hrun with
      ⟨more, hmore⟩ | ⟨isPlain, more, hname', hmore⟩
  · rw [List.append_cancel_left hmore] at hroot
    rw [hroot.eq_scalar, valueOf_scalar, hresolve] at hvalue
    exact .inl (Except.ok.inj hvalue).symm
  · rw [List.append_cancel_left hmore] at hroot
    obtain ⟨entries, rfl⟩ := hroot.exists_entry
    exact .inr (exists_of_valueOf_entry hvalue hresolve hname')

end Holds

/-! ## Documents -/

section

variable {ts : List Token} {values : List Value} (hlines : Text.AreLines (l.map (·.raw)))
  (hfirst : ∀ s ∈ l.head?, s.IsFirst) (hts : tokens (String.ofList (l.flatMap (·.raw))) = .ok ts)

include hts

theorem starts_tokens :
    Starts l ts ∧ List.Forall₂ Opens (marks true (content l)) (openings ts) := by
  simp only [tokens, String.toList_ofList] at hts
  split at hts
  · refine ⟨.inl ⟨_, _, faces_start _, hts⟩, ?_⟩
    obtain ⟨before, after, hopenings, hlength, hafter⟩ :=
      run_openings (sound_of_pending (s := start (content l)) rfl trivial) hts
    obtain rfl := List.length_eq_zero_iff.1 hlength
    rw [hopenings]
    exact hafter
  · cases hts

include hlines hfirst

/-- The first document starts where the check has its first lines. -/
theorem exists_documentTokens_cons {sec : List Step} {more : List (List Step)}
    (hsec : documentLines l = sec :: more) :
    ∃ suffix others, documentTokens ts = suffix :: others ∧ Starts sec suffix := by
  obtain ⟨hstarts, hopens⟩ := starts_tokens hts
  rw [documentTokens, startsBare_eq hlines hfirst hstarts]
  rw [documentLines] at hsec
  cases hdeclared : startsDeclared l with
  | true =>
    rw [hdeclared, if_pos rfl] at hsec
    obtain rfl := List.head_eq_of_cons_eq hsec
    exact ⟨ts, _, rfl, hstarts⟩
  | false =>
    rw [hdeclared, if_neg Bool.false_ne_true] at hsec
    cases l with
    | nil => cases hsec
    | cons s rest =>
      have hmark : s.isMark = true := by simpa [startsDeclared] using hdeclared
      rw [sections, if_pos hmark] at hsec
      obtain rfl := List.head_eq_of_cons_eq hsec
      obtain ⟨cs, hbehind, hmarks⟩ := exists_marks_of_isMark hlines (hfirst s rfl).regular hmark
      rw [hmarks] at hopens
      generalize openings ts = others at hopens
      cases hopens with
      | cons hfirst _ => exact ⟨_, _, rfl, starts_of_behind hbehind hfirst⟩

/-- The documents start where the check has its lines. -/
theorem forall₂_starts (hall : ∀ s ∈ l, s.IsAccepted ∧ s.isRegular = true) :
    List.Forall₂ Starts (documentLines l) (documentTokens ts) := by
  obtain ⟨hstarts, hopens⟩ := starts_tokens hts
  have hbehind := behind_marks hlines fun s hs ↦ ⟨(hall s hs).2, (hall s hs).1.line_ne_nil⟩
  have hsections : List.Forall₂ Starts (sections l) (openings ts) :=
    (forall₂_comp hbehind hopens).imp fun _ _ ⟨_, h, hopens⟩ ↦ starts_of_behind h hopens
  rw [documentLines, documentTokens, startsBare_eq hlines hfirst hstarts]
  split
  · exact .cons hstarts hsections
  · exact hsections

end

section

variable {values : List Value} (hlines : Text.AreLines (l.map (·.raw)))
  (hfirst : ∀ s ∈ l.head?, s.IsFirst)
  (h : documents (String.ofList (l.flatMap (·.raw))) = .ok values)

include hlines hfirst h

/-- The first value is that of the first lines. -/
theorem exists_holds_cons {sec : List Step} {more : List (List Step)}
    (hsec : documentLines l = sec :: more) :
    ∃ value others, values = value :: others ∧ Holds sec value := by
  obtain ⟨ts, hts, hvalues⟩ := forall₂_of_documents h
  obtain ⟨suffix, others, htokens, hstarts⟩ := exists_documentTokens_cons hlines hfirst hts hsec
  rw [htokens] at hvalues
  cases hvalues (List.cons_ne_nil _ _) with
  | cons hvalue _ => exact ⟨_, _, rfl, suffix, hstarts, hvalue⟩

/-- Each value is that of the lines that the check has for it. -/
theorem forall₂_holds (hall : ∀ s ∈ l, s.IsAccepted ∧ s.isRegular = true)
    (hne : documentLines l ≠ []) : List.Forall₂ Holds (documentLines l) values := by
  obtain ⟨ts, hts, hvalues⟩ := forall₂_of_documents h
  have hstarts := forall₂_starts hlines hfirst hts hall
  refine forall₂_comp hstarts (hvalues ?_)
  intro hnil
  rw [hnil] at hstarts
  exact hne (List.forall₂_nil_right_iff.1 hstarts)

end

end FolderCommands.Grammar
