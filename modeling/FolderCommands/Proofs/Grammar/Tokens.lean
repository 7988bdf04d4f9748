import FolderCommands.Proofs.Grammar.Entries

/-!
# The first tokens of accepted lines

A scanner at the start of accepted lines reads the first of them as the check does: a separator
gives the token of a mark, a declaration starts with the scalar of its key, and where it is written
plainly the key and the value make the first entry of a mapping.
-/

namespace FolderCommands.Grammar

open Yaml Scanner

variable {s : Scanner} {fuel : Nat} {ts : List Token} {st : Step} {rest : List Step}

/-- Whether a scanner stands in front of a text at the start of a line. -/
def Faces (s : Scanner) (cs : List Char) : Prop :=
  ∀ n ds, cs = List.replicate n ' ' ++ ds → (∀ c, ds.head? = some c → isVisible c = true) →
    s.advance.IsReadyAt n ds

theorem faces_start (cs : List Char) : Faces (start cs) cs := by
  rintro n ds rfl hvisible
  exact .of_start hvisible

theorem isBreak_of_isUnbroken {cs : List Char} (h : isUnbroken cs = true) :
    ∀ c ∈ cs, isBreak c = false :=
  fun _ hc ↦ (isUnbroken_spec h hc).1

/-- Behind a separator there are the next lines, or the text is over. -/
theorem faces_of_behind (hs : s.IsFresh) (h : Behind rest s.cursor.rest) :
    Faces s (content rest) ∨ rest = [] ∧ ∀ fuel ts, run fuel s = .ok ts → ts = s.produced := by
  obtain ⟨tail, k, hrest, hk, hbreak, hclose⟩ := h
  cases k with
  | zero =>
    refine .inr ⟨hk rfl, fun fuel ts hrun ↦ ?_⟩
    rw [hk rfl] at hrest
    exact hs.eq_produced (hrest.trans (List.append_nil tail)) (isBreak_of_isUnbroken hbreak) hclose
      hrun
  | succ k =>
    refine .inl ?_
    intro n ds hds hvisible
    rw [hds] at hrest
    exact .of_isFresh hs hrest (isBreak_of_isUnbroken hbreak) hclose hvisible

/-- Behind the last line there are no tokens. -/
theorem eq_produced_of_faces (hs : Faces s (content [])) (hrun : run fuel s = .ok ts) :
    ts = s.produced := by
  have hready := hs 0 [] rfl (by rintro c ⟨⟩)
  rcases hready.exists_step hrun with ⟨-, hts⟩ | ⟨fuel', a, cs', s', hcons, -⟩
  · exact hts
  · cases hcons

/-- A separator gives a mark. -/
theorem exists_of_isMark (hs : Faces s (content (st :: rest)))
    (hlines : Text.AreLines ((st :: rest).map (·.raw))) (hregular : st.isRegular = true)
    (hmark : st.isMark = true) (hrun : run fuel s = .ok ts) :
    ∃ more, ts = s.produced ++ .documentStart :: more := by
  obtain ⟨k, hcontent, hk⟩ := content_cons hlines (Step.isUnbroken_of_isRegular hregular)
  obtain ⟨tail, hline, -, hclose⟩ := st.exists_tail hregular hmark
  have hready := hs 0 (content (st :: rest)) rfl (by
    rw [hcontent, hline]
    rintro c ⟨⟩
    decide)
  refine hready.exists_of_mark ?_ hrun
  rw [hcontent, hline]
  exact atMark_of_closesLine (endsLine_lineBreaks hk) hclose

section

variable {d : Declaration} (hkey : d.key = "command_set" ∨ d.key = "command")

include hkey

theorem key_ne_nil : d.key.toList ≠ [] ∧ d.key.toList.head? ≠ some '-' := by
  rcases hkey with hkey | hkey <;> rw [hkey] <;> decide

/-- The key is what is seen of the line. -/
theorem isVisible_of_key {cs : List Char} {c : Char} (h : (d.key.toList ++ cs).head? = some c) :
    isVisible c = true := by
  rcases hkey with hkey | hkey <;> rw [hkey] at h <;> obtain rfl := Option.some.inj h <;> decide

/-- A declaration starts with a scalar, or with what is put in front of it. -/
theorem exists_of_declaration (hs : Faces s (content (st :: rest)))
    (hlines : Text.AreLines ((st :: rest).map (·.raw))) (hbreak : isUnbroken st.line = true)
    (htabs : '\t' ∉ st.line) (hd : declaration? st.line = some d) (hrun : run fuel s = .ok ts) :
    ∃ t more, ts = s.produced ++ t :: more ∧ (t = .key ∨ t = .blockMappingStart ∨
      ∃ text, t = .scalar (String.ofList (d.key.toList ++ text)) true) := by
  obtain ⟨hne, hhead⟩ := key_ne_nil hkey
  obtain ⟨k, hcontent, -⟩ := content_cons hlines hbreak
  obtain ⟨n, more, hline, hword⟩ := exists_of_declaration? hd htabs
  rw [hline, List.append_assoc, List.append_assoc] at hcontent
  have hready := hs n _ hcontent fun c ↦ isVisible_of_key hkey
  exact hready.exists_of_word hword hne hhead hrun

/-- A declaration that is written plainly gives an entry, or inside brackets a scalar. -/
theorem exists_of_isPlainEntry (hs : Faces s (content (st :: rest)))
    (hlines : Text.AreLines ((st :: rest).map (·.raw))) (hbreak : isUnbroken st.line = true)
    (htabs : '\t' ∉ st.line) (hd : declaration? st.line = some d)
    (hentry : isPlainEntry st.line = true) (hvalue : foldedName d.value ∈ catalogNames)
    (hrest : EndsScalar (st.indent + 1) (content rest)) (hrun : run fuel s = .ok ts) :
    (∃ more, ts = s.produced ++ .scalar d.key true :: more) ∨
      ∃ isPlain more, Scalar.resolve none d.value isPlain = .ok (.string d.value) ∧
        ts = s.produced ++ .blockMappingStart :: .key :: .scalar d.key true ::
          .value :: .scalar d.value isPlain :: more := by
  obtain ⟨hne, hhead⟩ := key_ne_nil hkey
  obtain ⟨k, hcontent, hk⟩ := content_cons hlines hbreak
  obtain ⟨n, cs, hcs, hn, hkeyword, hword, e, he⟩ := exists_entry hentry hd htabs
    fun hzero : k = 0 ↦ (by rw [hk hzero]; rfl : content rest = [])
  rw [hcs] at hcontent
  have hready := hs n cs hcontent fun c hc ↦ by
    rw [e.eq_valueText] at hc
    exact isVisible_of_key hkey hc
  have hvalue' : foldedName (String.ofList d.value.toList) ∈ catalogNames := by
    rwa [String.ofList_toList]
  obtain ⟨c, value, hcons, hc⟩ := exists_isAlpha_of_mem hword hvalue'
  have hends : e.isPlain = true → EndsScalar (n + 1) e.rest := by
    intro _
    rw [he, hn]
    exact hrest
  have hentry' := hready.exists_entry e hkeyword hne hhead hword (by simp [hcons]) (by
    rw [hcons]
    rintro ⟨⟩
    cases hc) hends hrun
  have hresolve : Scalar.resolve none d.value e.isPlain = .ok (.string d.value) := by
    have hplain := resolvePlain_of_mem hword hvalue'
    rw [String.ofList_toList] at hplain
    cases e.isPlain with
    | true => exact hplain
    | false => rfl
  rw [String.ofList_toList, String.ofList_toList] at hentry'
  exact hentry'.imp id fun ⟨more, hts⟩ ↦ ⟨e.isPlain, more, hresolve, hts⟩

end

end FolderCommands.Grammar
