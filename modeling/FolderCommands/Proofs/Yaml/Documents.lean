import FolderCommands.Proofs.Yaml.Openings
import FolderCommands.Yaml.Document

/-!
# Documents and their marks

Reading a node never goes past the token of a document mark. So each mark opens exactly one
document, in the order of the marks, and only the first document may lack one.
-/

namespace FolderCommands.Yaml

/-- What is said of the tokens inside some brackets and stays when a token is passed that is no
document mark. -/
structure IsCarried (P : Nat → List Token → Prop) : Prop where
  tail {p : Nat} {t : Token} {ts : List Token} (ht : t ≠ .documentStart) (h : P p (t :: ts)) :
    P (t.depthAfter p) ts
  mono {p q : Nat} {ts : List Token} (hle : p ≤ q) (h : P p ts) : P q ts

/-! ## Readers -/

namespace Read

variable {α β : Type}

theorem bind_eq_ok {x : Read α} {next : α → Read β} {r r'' : TokenReader} {b : β}
    (h : (x >>= next) r = .ok (b, r'')) : ∃ a r', x r = .ok (a, r') ∧ next a r' = .ok (b, r'') := by
  obtain ⟨⟨a, r'⟩, hx, hnext⟩ := exists_of_bind_ok h
  exact ⟨a, r', hx, hnext⟩

/-- Whether a reader that is in front of tokens like that has such a result, with such tokens
left. -/
def Leads (P : List Token → Prop) (x : Read α) (Q : α → List Token → Prop) : Prop :=
  ∀ r a r', P r.tokens → x r = .ok (a, r') → Q a r'.tokens

section

variable {P P' : List Token → Prop} {Q : α → List Token → Prop} {Q' : β → List Token → Prop}

theorem leads_pure {a : α} (h : ∀ ts, P ts → Q a ts) : Leads P (pure a) Q := by
  intro r b r' hP hr
  cases hr
  exact h _ hP

theorem leads_fail (fault : Fault) : Leads P (fail fault) Q := by
  intro r a r' _ hr
  cases hr

theorem leads_drop {Q : Unit → List Token → Prop} (h : ∀ ts, P ts → Q () ts.tail) :
    Leads P drop Q := by
  intro r a r' hP hr
  cases hr
  exact h _ hP

theorem Leads.bind {x : Read α} {next : α → Read β} (h : Leads P x Q)
    (hnext : ∀ a, Leads (Q a) (next a) Q') : Leads P (x >>= next) Q' := by
  intro r b r'' hP hr
  obtain ⟨a, r', hx, hb⟩ := bind_eq_ok hr
  exact hnext a r' b r'' (h r a r' hP hx) hb

/-- What comes after a look at the next token knows it. -/
theorem leads_peek {next : Option Token → Read β}
    (h : ∀ t, Leads (fun ts ↦ P ts ∧ ts.head? = t) (next t) Q') : Leads P (peek >>= next) Q' :=
  fun r b r' hP hr ↦ h _ r b r' ⟨hP, rfl⟩ hr

theorem Leads.mono {x : Read α} (h : Leads P x Q) (hP : ∀ ts, P' ts → P ts) : Leads P' x Q :=
  fun r a r' hP' ↦ h r a r' (hP _ hP')

/-- The next token need not be known. -/
theorem Leads.front {t : Option Token} {x : Read α} (h : Leads P x Q) :
    Leads (fun ts ↦ P ts ∧ ts.head? = t) x Q :=
  h.mono fun _ hP ↦ hP.1

end

variable {P : Nat → List Token → Prop} {p q : Nat}

/-- Whether a reader that is in front of `t`, inside `p` brackets, ends inside `q` brackets. -/
abbrev CarriesAt (P : Nat → List Token → Prop) (t : Option Token) (p q : Nat) (x : Read α) : Prop :=
  Leads (fun ts ↦ P p ts ∧ ts.head? = t) x fun _ ↦ P q

/-- Whether a reader that starts inside `p` brackets ends inside `q` brackets. -/
abbrev Carries (P : Nat → List Token → Prop) (p q : Nat) (x : Read α) : Prop :=
  Leads (P p) x fun _ ↦ P q

theorem carries_pure (a : α) : Carries P p p (pure a : Read α) :=
  leads_pure fun _ hP ↦ hP

theorem carries_enter (name : String) : Carries P p p (enter name) := by
  intro r a r' hP h
  cases h
  exact hP

theorem carries_resolve (name : String) : Carries P p p (resolve name) := by
  intro r a r' hP h
  rw [resolve] at h
  split at h
  · cases h
    exact hP
  · cases h

/-- A token that is no document mark may be passed. -/
theorem carriesAt_drop (hP : IsCarried P) {t : Token} (ht : t ≠ .documentStart)
    (hq : t.depthAfter p ≤ q) : CarriesAt P (some t) p q drop := by
  refine leads_drop ?_
  rintro ts ⟨h, hhead⟩
  obtain ⟨ts, rfl⟩ := List.head?_eq_some_iff.1 hhead
  exact hP.mono hq (hP.tail ht h)

theorem carriesAt_drop_of_beq (hP : IsCarried P) {t : Option Token} {u : Token}
    (h : (t == some u) = true) (hu : u ≠ .documentStart) (hq : u.depthAfter p ≤ q) :
    CarriesAt P t p q drop := by
  rw [eq_of_beq h]
  exact carriesAt_drop hP hu hq

end Read

open Read

variable {P : Nat → List Token → Prop} {p : Nat} {handles : Handles} {fuel : Nat}

section

variable (hP : IsCarried P)

include hP

theorem carries_readTagProperty (handles : Handles) : Carries P p p (readTagProperty handles) := by
  rw [readTagProperty]
  refine leads_peek fun t ↦ ?_
  split
  · refine (carriesAt_drop hP (by rintro ⟨⟩) (Nat.le_refl _)).bind fun _ ↦ ?_
    split
    · exact carries_pure _
    · exact leads_fail _
  · exact (carries_pure _).front

theorem carries_readAnchorProperty : Carries P p p readAnchorProperty := by
  rw [readAnchorProperty]
  refine leads_peek fun t ↦ ?_
  split
  · exact (carriesAt_drop hP (by rintro ⟨⟩) (Nat.le_refl _)).bind fun _ ↦ carries_pure _
  · exact (carries_pure _).front

theorem carries_readProperties (handles : Handles) : Carries P p p (readProperties handles) := by
  rw [readProperties]
  refine (carries_readTagProperty hP handles).bind fun early ↦ ?_
  refine (carries_readAnchorProperty hP).bind fun name ↦ ?_
  cases name with
  | none =>
    cases early with
    | none => exact (carries_pure _).bind fun _ ↦ carries_pure _
    | some uri => exact (carries_pure _).bind fun _ ↦ carries_pure _
  | some name =>
    have hlast (tag : Option Uri) :
        Carries P p p (do return (⟨some (← enter name), tag⟩ : Properties)) :=
      (carries_enter name).bind fun _ ↦ carries_pure _
    cases early with
    | none => exact (carries_readTagProperty hP handles).bind hlast
    | some uri => exact (carries_pure _).bind hlast

end

/-! ## Nodes -/

/-- What reading nodes with some fuel carries on. A reader of what is inside brackets ends outside
them. -/
structure CarriesNodes (P : Nat → List Token → Prop) (handles : Handles) (fuel : Nat) : Prop where
  node (inBlock bare : Bool) (p : Nat) : Carries P p p (readNode handles inBlock bare fuel)
  items (p : Nat) : Carries P p p (readItems handles fuel)
  bareItems (p : Nat) : Carries P p p (readBareItems handles fuel)
  entries (p : Nat) : Carries P p p (readEntries handles fuel)
  flowItems (isFirst : Bool) (p : Nat) : Carries P (p + 1) p (readFlowItems handles isFirst fuel)
  pair (p : Nat) : Carries P (p + 1) (p + 1) (readPair handles fuel)
  flowEntries (isFirst : Bool) (p : Nat) :
    Carries P (p + 1) p (readFlowEntries handles isFirst fuel)

section

variable (hP : IsCarried P) (h : CarriesNodes P handles fuel)

include hP h

theorem carries_readNode (inBlock bare : Bool) (p : Nat) :
    Carries P p p (readNode handles inBlock bare (fuel + 1)) := by
  rw [readNode]
  refine leads_peek fun t ↦ ?_
  split
  · refine (carriesAt_drop hP (by rintro ⟨⟩) (Nat.le_refl _)).bind fun _ ↦ ?_
    exact (carries_resolve _).bind fun _ ↦ carries_pure _
  refine Leads.front ((carries_readProperties hP handles).bind fun properties ↦ ?_)
  refine leads_peek fun t ↦ ?_
  split
  · exact (carriesAt_drop hP (by rintro ⟨⟩) (Nat.le_refl _)).bind fun _ ↦ carries_pure _
  · exact (carriesAt_drop hP (by rintro ⟨⟩) (Nat.le_refl _)).bind fun _ ↦
      (h.flowItems true p).bind fun _ ↦ carries_pure _
  · exact (carriesAt_drop hP (by rintro ⟨⟩) (Nat.le_refl _)).bind fun _ ↦
      (h.flowEntries true p).bind fun _ ↦ carries_pure _
  · split
    · exact ((h.bareItems p).bind fun _ ↦ carries_pure _).front
    split
    · rename_i hstart
      exact (carriesAt_drop_of_beq hP (Bool.and_eq_true_iff.1 hstart).2 (by decide)
        (Nat.le_refl _)).bind fun _ ↦ (h.items p).bind fun _ ↦ carries_pure _
    split
    · rename_i hstart
      exact (carriesAt_drop_of_beq hP (Bool.and_eq_true_iff.1 hstart).2 (by decide)
        (Nat.le_refl _)).bind fun _ ↦ (h.entries p).bind fun _ ↦ carries_pure _
    split
    · exact (carries_pure _).front
    · exact leads_fail _

theorem carries_readItems (p : Nat) : Carries P p p (readItems handles (fuel + 1)) := by
  rw [readItems]
  refine leads_peek fun t ↦ ?_
  split
  · refine (carriesAt_drop hP (by decide) (Nat.le_refl _)).bind fun _ ↦ leads_peek fun t ↦ ?_
    extract_lets goOn
    have hgoOn (item : Node) : Carries P p p (goOn item) := (h.items p).bind fun _ ↦ carries_pure _
    split
    · exact ((carries_pure _).bind hgoOn).front
    · exact ((h.node true false p).bind hgoOn).front
  · exact (carriesAt_drop hP (by decide) (Nat.le_refl _)).bind fun _ ↦ carries_pure _
  · exact leads_fail _

theorem carries_readBareItems (p : Nat) : Carries P p p (readBareItems handles (fuel + 1)) := by
  rw [readBareItems]
  refine leads_peek fun t ↦ ?_
  split
  · refine (carriesAt_drop hP (by decide) (Nat.le_refl _)).bind fun _ ↦ leads_peek fun t ↦ ?_
    extract_lets goOn
    have hgoOn (item : Node) : Carries P p p (goOn item) :=
      (h.bareItems p).bind fun _ ↦ carries_pure _
    split
    · exact ((carries_pure _).bind hgoOn).front
    · exact ((h.node true false p).bind hgoOn).front
  · exact (carries_pure _).front

theorem carries_readEntries (p : Nat) : Carries P p p (readEntries handles (fuel + 1)) := by
  rw [readEntries]
  refine leads_peek fun t ↦ ?_
  split
  · refine (carriesAt_drop hP (by decide) (Nat.le_refl _)).bind fun _ ↦ leads_peek fun t ↦ ?_
    extract_lets readValue
    have hreadValue (key : Node) : Carries P p p (readValue key) := by
      refine leads_peek fun t ↦ ?_
      extract_lets goOn
      have hgoOn (value : Node) : Carries P p p (goOn value) :=
        (h.entries p).bind fun _ ↦ carries_pure _
      split
      · refine (carriesAt_drop hP (by decide) (Nat.le_refl _)).bind fun _ ↦ leads_peek fun t ↦ ?_
        split
        · exact ((carries_pure _).bind hgoOn).front
        · exact ((h.node true true p).bind hgoOn).front
      · exact ((carries_pure _).bind hgoOn).front
    split
    · exact ((carries_pure _).bind hreadValue).front
    · exact ((h.node true true p).bind hreadValue).front
  · exact (carriesAt_drop hP (by decide) (Nat.le_refl _)).bind fun _ ↦ carries_pure _
  · exact leads_fail _

omit h in
/-- What comes in front of an entry in brackets that is not the first. -/
theorem carries_comma {α : Type} {q : Nat} (isFirst : Bool) {next : Unit → Read α}
    (hnext : ∀ u, Carries P (p + 1) q (next u)) :
    Carries P (p + 1) q (if (!isFirst) = true then do
        let t ← peek
        if (t == some .flowEntry) = true then do
          let u ← drop
          next u
        else do
          let u ← fail .entryExpected
          next u
      else next ()) := by
  split
  · refine leads_peek fun t ↦ ?_
    split
    · rename_i ht
      exact (carriesAt_drop_of_beq hP ht (by decide) (by simp [Token.depthAfter])).bind hnext
    · exact ((leads_fail _).bind hnext).front
  · exact hnext ()

theorem carries_readFlowItems (isFirst : Bool) (p : Nat) :
    Carries P (p + 1) p (readFlowItems handles isFirst (fuel + 1)) := by
  rw [readFlowItems]
  refine leads_peek fun t ↦ ?_
  split
  · rename_i ht
    exact (carriesAt_drop_of_beq hP ht (by decide) (Nat.le_refl _)).bind fun _ ↦ carries_pure _
  refine Leads.front (carries_comma hP isFirst fun _ ↦ ?_)
  refine leads_peek fun t ↦ ?_
  split
  · exact (carriesAt_drop hP (by decide) (Nat.le_refl _)).bind fun _ ↦ carries_pure _
  · exact (carriesAt_drop hP (by decide) (Nat.le_refl _)).bind fun _ ↦ (h.pair p).bind fun _ ↦
      (h.flowItems false p).bind fun _ ↦ carries_pure _
  · exact ((h.node false false (p + 1)).bind fun _ ↦
      (h.flowItems false p).bind fun _ ↦ carries_pure _).front

/-- A pair ends inside the brackets, even where the closing one is passed for a key. -/
theorem carries_readPair (p : Nat) : Carries P (p + 1) (p + 1) (readPair handles (fuel + 1)) := by
  rw [readPair]
  refine leads_peek fun t ↦ ?_
  extract_lets readValue
  have hreadValue (key : Node) : Carries P (p + 1) (p + 1) (readValue key) := by
    refine leads_peek fun t ↦ ?_
    split
    · refine (carriesAt_drop hP (by decide) (Nat.le_refl _)).bind fun _ ↦ leads_peek fun t ↦ ?_
      split
      · exact (carries_pure _).front
      · exact ((h.node false false (p + 1)).bind fun _ ↦ carries_pure _).front
    · exact (carries_pure _).front
  split
  · rename_i ht
    have hdrop : CarriesAt P t (p + 1) (p + 1) drop := by
      rcases Bool.or_eq_true_iff.1 ht with ht | ht
      · exact carriesAt_drop_of_beq hP ht (by decide) (Nat.le_refl _)
      rcases Bool.or_eq_true_iff.1 ht with ht | ht
      · exact carriesAt_drop_of_beq hP ht (by decide) (by simp [Token.depthAfter])
      · exact carriesAt_drop_of_beq hP ht (by decide) (Nat.le_succ _)
    exact hdrop.bind fun _ ↦ (carries_pure _).bind hreadValue
  · exact ((h.node false false (p + 1)).bind hreadValue).front

theorem carries_readFlowEntries (isFirst : Bool) (p : Nat) :
    Carries P (p + 1) p (readFlowEntries handles isFirst (fuel + 1)) := by
  rw [readFlowEntries]
  refine leads_peek fun t ↦ ?_
  split
  · rename_i ht
    exact (carriesAt_drop_of_beq hP ht (by decide) (Nat.le_refl _)).bind fun _ ↦ carries_pure _
  refine Leads.front (carries_comma hP isFirst fun _ ↦ ?_)
  refine leads_peek fun t ↦ ?_
  split
  · exact (carriesAt_drop hP (by decide) (Nat.le_refl _)).bind fun _ ↦ carries_pure _
  · refine (carriesAt_drop hP (by decide) (Nat.le_refl _)).bind fun _ ↦ leads_peek fun t ↦ ?_
    extract_lets readValue
    have hreadValue (key : Node) : Carries P (p + 1) p (readValue key) := by
      refine leads_peek fun t ↦ ?_
      extract_lets goOn
      have hgoOn (value : Node) : Carries P (p + 1) p (goOn value) :=
        (h.flowEntries false p).bind fun _ ↦ carries_pure _
      split
      · refine (carriesAt_drop hP (by decide) (Nat.le_refl _)).bind fun _ ↦ leads_peek fun t ↦ ?_
        split
        · exact ((carries_pure _).bind hgoOn).front
        · exact ((h.node false false (p + 1)).bind hgoOn).front
      · exact ((carries_pure _).bind hgoOn).front
    split
    · exact ((carries_pure _).bind hreadValue).front
    · exact ((h.node false false (p + 1)).bind hreadValue).front
  · exact ((h.node false false (p + 1)).bind fun _ ↦
      (h.flowEntries false p).bind fun _ ↦ carries_pure _).front

end

/-- Reading nodes carries on whatever passing a token does. -/
theorem carriesNodes (hP : IsCarried P) (handles : Handles) (fuel : Nat) :
    CarriesNodes P handles fuel := by
  induction fuel with
  | zero =>
    constructor <;> intros <;> first
      | rw [readNode] | rw [readItems] | rw [readBareItems] | rw [readEntries]
      | rw [readFlowItems] | rw [readPair] | rw [readFlowEntries]
    all_goals exact leads_fail _
  | succ fuel ih =>
    exact ⟨carries_readNode hP ih, carries_readItems hP ih, carries_readBareItems hP ih,
      carries_readEntries hP ih, carries_readFlowItems hP ih, carries_readPair hP ih,
      carries_readFlowEntries hP ih⟩

/-! ## Documents -/

/-- What comes after the marks of documents stays. -/
theorem isCarried_openings (suffixes : List (List Token)) :
    IsCarried fun _ ts ↦ openings ts = suffixes where
  tail ht h := by rwa [openings, if_neg ht] at h
  mono _ h := h

/-- The root of a document is read as one node. -/
theorem exists_of_readRoot {tokens rest : List Token} {node : Node}
    (h : readRoot handles tokens = .ok (node, rest)) :
    ∃ r, readNode (handles ++ defaultHandles) true false (4 * tokens.length + 4) ⟨tokens, []⟩ =
      .ok (node, r) ∧ r.tokens = rest := by
  simp only [readRoot] at h
  split at h
  · rename_i r hread
    cases h
    exact ⟨r, hread, rfl⟩
  · cases h

/-- Reading the root of a document leaves the marks of later documents. -/
theorem openings_of_readRoot {tokens rest : List Token} {node : Node}
    (h : readRoot handles tokens = .ok (node, rest)) : openings rest = openings tokens := by
  obtain ⟨r, hread, rfl⟩ := exists_of_readRoot h
  exact (carriesNodes (isCarried_openings (openings tokens)) _ _).node true false 0
    ⟨tokens, []⟩ _ r rfl hread

/-- Whether a document whose tokens start like that has that root. -/
def HasRoot (suffix : List Token) (node : Node) : Prop :=
  (endsDocument suffix = true ∧ node = Node.empty) ∨
    endsDocument suffix = false ∧
      ∃ handles rest, readRoot handles suffix = .ok (node, rest)

theorem readDirectives_openings {hasVersion : Bool} {handles : Handles} {tokens : List Token}
    {result : Handles × List Token} (h : readDirectives hasVersion handles tokens = .ok result) :
    openings result.2 = openings tokens := by
  fun_induction readDirectives hasVersion handles tokens with
  | case1 | case3 | case4 => cases h
  | case2 _ _ _ _ _ _ _ ih | case5 _ _ _ _ _ _ ih =>
    rw [ih h, openings, if_neg (by rintro ⟨⟩)]
  | case6 =>
    cases h
    rfl

/-- A marked document is what comes after the next mark. -/
theorem exists_of_readMarked {tokens rest : List Token} {node : Node}
    (h : readMarked tokens = .ok (node, rest)) :
    ∃ suffix, openings tokens = suffix :: openings rest ∧ HasRoot suffix node := by
  rw [readMarked] at h
  split at h
  · cases h
  · rename_i handles suffix hdirectives
    have hopenings : openings tokens = suffix :: openings suffix := by
      rw [← readDirectives_openings hdirectives, openings, if_pos rfl]
    refine ⟨suffix, ?_⟩
    split at h
    · rename_i hend
      cases h
      exact ⟨hopenings, .inl ⟨hend, rfl⟩⟩
    · rename_i hend
      rw [hopenings, openings_of_readRoot h]
      exact ⟨rfl, .inr ⟨by simpa using hend, handles, rest, h⟩⟩
  · cases h

theorem openings_dropWhile_documentEnd (tokens : List Token) :
    openings (tokens.dropWhile (· == .documentEnd)) = openings tokens := by
  induction tokens with
  | nil => rfl
  | cons t ts ih =>
    rw [List.dropWhile_cons]
    split
    · rename_i ht
      rw [ih, openings, if_neg]
      rintro rfl
      cases ht
    · rfl

theorem readFurther_openings {fuel : Nat} {tokens : List Token} {nodes : List Node}
    (h : readFurther fuel tokens = .ok nodes) : List.Forall₂ HasRoot (openings tokens) nodes := by
  induction fuel generalizing tokens nodes with
  | zero => cases h
  | succ fuel ih =>
    rw [readFurther] at h
    rw [← openings_dropWhile_documentEnd]
    split at h
    · rename_i hnil
      cases h
      rw [hnil]
      exact .nil
    · obtain ⟨⟨node, rest⟩, hmarked, hrest⟩ := exists_of_bind_ok h
      obtain ⟨nodes', hfurther, hlast⟩ := exists_of_bind_ok hrest
      cases hlast
      obtain ⟨suffix, hopenings, hroot⟩ := exists_of_readMarked hmarked
      rw [hopenings]
      exact .cons hroot (ih hfurther)

/-- Whether the first document lacks its mark. -/
def startsBare : List Token → Bool
  | [] => false
  | t :: _ => !(t == .documentStart || t.isDirective)

/-- Each mark has its document, and the first document may come without a mark. -/
theorem readDocuments_openings {tokens : List Token} {nodes : List Node}
    (h : readDocuments tokens = .ok nodes) :
    (startsBare tokens = true ∧ ∃ first rest nodes', nodes = first :: nodes' ∧
      readRoot [] tokens = .ok (first, rest) ∧ List.Forall₂ HasRoot (openings tokens) nodes') ∨
    startsBare tokens = false ∧ List.Forall₂ HasRoot (openings tokens) nodes := by
  cases tokens with
  | nil =>
    cases h
    exact .inr ⟨rfl, .nil⟩
  | cons t ts =>
    simp only [readDocuments] at h
    split at h
    · rename_i hmarked
      obtain ⟨⟨node, rest⟩, hread, hfurther⟩ := exists_of_bind_ok h
      obtain ⟨nodes', hnodes, hlast⟩ := exists_of_bind_ok hfurther
      cases hlast
      obtain ⟨suffix, hopenings, hroot⟩ := exists_of_readMarked hread
      refine .inr ⟨by rw [startsBare, hmarked]; rfl, ?_⟩
      rw [hopenings]
      exact .cons hroot (readFurther_openings hnodes)
    · rename_i hbare
      obtain ⟨⟨node, rest⟩, hread, hfurther⟩ := exists_of_bind_ok h
      obtain ⟨nodes', hnodes, hlast⟩ := exists_of_bind_ok hfurther
      cases hlast
      refine .inl ⟨by simpa [startsBare] using hbare, node, rest, nodes', rfl, hread, ?_⟩
      rw [← openings_of_readRoot hread]
      exact readFurther_openings hnodes

end FolderCommands.Yaml
