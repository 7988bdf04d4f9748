import FolderCommands.Proofs.Yaml.Roots
import FolderCommands.Proofs.Yaml.Keys

/-!
# The keys of documents

Reading a node leaves as many brackets open as there were before, so the keys of a mapping at the
root of a document are those outside brackets. Where the tokens can be followed, they are strings,
and the root behind a mark is no mapping in brackets. The first document may come without a mark,
and then nothing is said of its root.
-/

namespace FolderCommands.Yaml

open Read Stage

variable {handles : Handles} {fuel p : Nat} {t : Token} {ts rest : List Token} {node : Node}

/-! ## Tokens that are left -/

/-- Whether the tokens behind at most that many brackets can be followed. -/
def CanFollow (p : Nat) (ts : List Token) : Prop :=
  ∃ w : Stage, w.depth ≤ p ∧ (w.walk ts).isSome = true

theorem Token.depthAfter_mono {p q : Nat} (h : p ≤ q) (t : Token) :
    t.depthAfter p ≤ t.depthAfter q := by
  cases t <;> simp only [Token.depthAfter] <;> omega

theorem Stage.depth_enter_le (depth : Nat) (t : Token) :
    (enter depth t).depth ≤ t.depthAfter depth := by
  rw [enter]
  split
  · exact Nat.zero_le _
  split
  · exact Nat.zero_le _
  · exact Nat.le_refl _

theorem Stage.depth_le_of_next {w w' : Stage} (h : w.next t = some w') :
    w'.depth ≤ t.depthAfter w.depth := by
  cases w with
  | inside depth =>
    cases h
    exact depth_enter_le depth t
  | atKey =>
    rw [next] at h
    split at h <;> cases h
    exact Nat.zero_le _
  | atDocument =>
    rw [next] at h
    split at h <;> cases h
    exact depth_enter_le 0 t

theorem Stage.exists_of_walk_cons {w : Stage} (h : (w.walk (t :: ts)).isSome = true) :
    ∃ w', w.next t = some w' ∧ (w'.walk ts).isSome = true := by
  rw [walk] at h
  cases hnext : w.next t with
  | none =>
    rw [hnext] at h
    cases h
  | some w' =>
    rw [hnext] at h
    exact ⟨w', rfl, h⟩

theorem CanFollow.tail (h : CanFollow p (t :: ts)) : CanFollow (t.depthAfter p) ts := by
  obtain ⟨w, hdepth, hwalk⟩ := h
  obtain ⟨w', hnext, hwalk'⟩ := exists_of_walk_cons hwalk
  exact ⟨w', (depth_le_of_next hnext).trans (Token.depthAfter_mono hdepth t), hwalk'⟩

theorem isCarried_canFollow : IsCarried CanFollow where
  tail _ h := h.tail
  mono := fun hle ⟨w, hdepth, hwalk⟩ ↦ ⟨w, hdepth.trans hle, hwalk⟩

/-- Outside brackets the mark of a key or of a document leads behind it. -/
theorem CanFollow.exists_next (h : CanFollow 0 (t :: ts)) (ht : t.isString = false)
    (hother : t.opensOther = false) : ((enter 0 t).walk ts).isSome = true := by
  obtain ⟨w, hdepth, hwalk⟩ := h
  obtain ⟨w', hnext, hwalk'⟩ := exists_of_walk_cons hwalk
  cases w with
  | inside depth =>
    obtain rfl := Nat.le_zero.1 hdepth
    cases hnext
    exact hwalk'
  | atKey =>
    rw [next, if_neg (Bool.eq_false_iff.1 ht)] at hnext
    cases hnext
  | atDocument =>
    rw [next, if_neg (Bool.eq_false_iff.1 hother)] at hnext
    cases hnext
    exact hwalk'

/-! ## Entries -/

/-- Whether the node of a key is a scalar that is a string. -/
def IsStringKey (key : Node) : Prop :=
  ∃ text s, key = .scalar {} text true ∧ Scalar.resolvePlain text = .ok (.string s)

/-- Whether all keys of a mapping are strings. -/
def HasStringKeys : Node → Prop
  | .mapping properties entries => properties = {} ∧ ∀ entry ∈ entries, IsStringKey entry.1
  | _ => True

theorem readNode_nil (handles : Handles) (inBlock bare : Bool) (fuel : Nat)
    (anchors : List (String × Nat)) (result : Node × TokenReader) :
    readNode handles inBlock bare fuel ⟨[], anchors⟩ ≠ .ok result := by
  intro h
  cases fuel with
  | zero =>
    rw [readNode] at h
    cases h
  | succ fuel =>
    rw [readNode] at h
    cases inBlock <;> cases bare <;> cases h

/-- Behind the mark of a key outside brackets there is a string, or nothing. -/
theorem exists_of_atKey (h : (atKey.walk ts).isSome = true) :
    ts = [] ∨ ∃ text more, ts = .scalar text true :: more ∧ IsStringKey (.scalar {} text true) ∧
      CanFollow 0 more := by
  cases ts with
  | nil => exact .inl rfl
  | cons t more =>
    obtain ⟨w, hnext, hwalk⟩ := exists_of_walk_cons h
    rw [next] at hnext
    split at hnext
    · rename_i hstring
      obtain ⟨text, s, rfl, hs⟩ := exists_of_isString hstring
      cases hnext
      exact .inr ⟨text, more, rfl, ⟨text, s, rfl, hs⟩, inside 0, Nat.le_refl _, hwalk⟩
    · cases hnext

/-- Behind the mark of a key outside brackets a node is a string. -/
theorem leads_key (handles : Handles) (fuel : Nat) :
    Leads (fun ts ↦ (atKey.walk ts).isSome = true) (readNode handles true true fuel)
      fun key ts ↦ IsStringKey key ∧ CanFollow 0 ts := by
  rintro ⟨ts, anchors⟩ key r' h hread
  rcases exists_of_atKey h with rfl | ⟨text, more, rfl, hkey, hmore⟩
  · exact absurd hread (readNode_nil handles true true fuel anchors _)
  · cases fuel with
    | zero =>
      rw [readNode] at hread
      cases hread
    | succ fuel =>
      rw [readNode_scalar] at hread
      cases hread
      exact ⟨hkey, hmore⟩

/-- The keys of a block mapping outside brackets are strings. -/
theorem leads_readEntries (handles : Handles) (fuel : Nat) :
    Leads (CanFollow 0) (readEntries handles fuel)
      fun entries _ ↦ ∀ entry ∈ entries, IsStringKey entry.1 := by
  induction fuel with
  | zero =>
    rw [readEntries]
    exact leads_fail _
  | succ fuel ih =>
    rw [readEntries]
    refine leads_peek fun t ↦ ?_
    split
    · refine (leads_drop (Q := fun _ ts ↦ (atKey.walk ts).isSome = true) ?_).bind fun _ ↦
        leads_peek fun t ↦ ?_
      · rintro ts ⟨h, ht⟩
        obtain ⟨ts, rfl⟩ := List.head?_eq_some_iff.1 ht
        exact h.exists_next rfl rfl
      extract_lets readValue
      have hreadValue {key : Node} (hkey : IsStringKey key) : Leads (CanFollow 0) (readValue key)
          fun entries _ ↦ ∀ entry ∈ entries, IsStringKey entry.1 := by
        refine leads_peek fun t ↦ ?_
        extract_lets goOn
        have hgoOn (value : Node) : Leads (CanFollow 0) (goOn value)
            fun entries _ ↦ ∀ entry ∈ entries, IsStringKey entry.1 :=
          ih.bind fun _ ↦ leads_pure fun _ hentries ↦ List.forall_mem_cons.2 ⟨hkey, hentries⟩
        split
        · refine (carriesAt_drop isCarried_canFollow (by decide) (Nat.le_refl _)).bind fun _ ↦
            leads_peek fun t ↦ ?_
          split
          · exact ((carries_pure _).bind hgoOn).front
          · exact (((carriesNodes isCarried_canFollow handles fuel).node true true 0).bind
              hgoOn).front
        · exact ((carries_pure _).bind hgoOn).front
      split
      · rename_i hends
        rintro ⟨ts, anchors⟩ entries r' ⟨h, rfl⟩
        rcases exists_of_atKey h with rfl | ⟨text, more, rfl, -⟩ <;> cases hends
      · exact (leads_key handles fuel).front.bind fun key r entries r' h ↦
          hreadValue h.1 r entries r' h.2
    · exact (leads_drop (Q := fun _ _ ↦ True) fun _ _ ↦ trivial).bind fun _ ↦
        leads_pure fun _ _ ↦ List.forall_mem_nil _
    · exact leads_fail _

/-! ## Roots -/

/-- What starts with neither a bracket nor a property is no mapping but a block. -/
theorem exists_of_readNode_mapping {properties : Properties} {entries : List (Node × Node)}
    {anchors : List (String × Nat)} {r' : TokenReader} (ht : t.opensOther = false)
    (h : readNode handles true false (fuel + 1) ⟨t :: ts, anchors⟩ =
      .ok (.mapping properties entries, r')) :
    t = .blockMappingStart ∧ properties = {} ∧
      readEntries handles fuel ⟨ts, anchors⟩ = .ok (entries, r') := by
  cases t with
  | blockMappingStart =>
    rw [readNode_blockMapping] at h
    obtain ⟨⟨entries', r⟩, hentries, hnode⟩ := exists_of_map_ok h
    cases hnode
    exact ⟨rfl, rfl, hentries⟩
  | flowSequenceStart =>
    rw [readNode] at h
    change (readFlowItems handles true fuel >>= fun items ↦ pure (Node.sequence {} items))
      ⟨ts, anchors⟩ = _ at h
    obtain ⟨items, r, -, hlast⟩ := bind_eq_ok h
    cases hlast
  | blockSequenceStart =>
    rw [readNode] at h
    change (readItems handles fuel >>= fun items ↦ pure (Node.sequence {} items))
      ⟨ts, anchors⟩ = _ at h
    obtain ⟨items, r, -, hlast⟩ := bind_eq_ok h
    cases hlast
  | «alias» name =>
    rw [readNode] at h
    change (resolve name >>= fun number ↦ pure (Node.alias number)) ⟨ts, anchors⟩ = _ at h
    obtain ⟨number, r, -, hlast⟩ := bind_eq_ok h
    cases hlast
  | flowMappingStart | anchor | tag => cases ht
  | _ =>
    rw [readNode] at h
    cases h

/-- The root behind a mark has strings for keys if it is a mapping. -/
theorem hasStringKeys_of_readRoot (h : readRoot handles ts = .ok (node, rest))
    (hts : (atDocument.walk ts).isSome = true) : HasStringKeys node := by
  obtain ⟨r, hr, -⟩ := exists_of_readRoot h
  cases node with
  | mapping properties entries =>
    cases ts with
    | nil => exact absurd hr (readNode_nil _ _ _ _ _ _)
    | cons t ts =>
      obtain ⟨w, hnext, hwalk⟩ := exists_of_walk_cons hts
      rw [next] at hnext
      split at hnext
      · cases hnext
      rename_i hother
      obtain ⟨rfl, rfl, hentries⟩ :=
        exists_of_readNode_mapping (Bool.eq_false_iff.2 hother) hr
      cases hnext
      exact ⟨rfl, leads_readEntries _ _ _ _ _ ⟨_, Nat.le_refl _, hwalk⟩ hentries⟩
  | _ => trivial

/-- Reading a root leaves tokens that can be followed. -/
theorem canFollow_of_readRoot (h : readRoot handles ts = .ok (node, rest)) (hts : CanFollow 0 ts) :
    CanFollow 0 rest := by
  obtain ⟨r, hread, rfl⟩ := exists_of_readRoot h
  exact (carriesNodes isCarried_canFollow _ _).node true false 0 _ _ _ hts hread

/-! ## Documents -/

theorem canFollow_of_readDirectives {hasVersion : Bool} {result : Handles × List Token}
    (h : readDirectives hasVersion handles ts = .ok result) (hts : CanFollow 0 ts) :
    CanFollow 0 result.2 := by
  fun_induction readDirectives hasVersion handles ts with
  | case1 | case3 | case4 => cases h
  | case2 _ _ _ _ _ _ _ ih | case5 _ _ _ _ _ _ ih => exact ih h hts.tail
  | case6 =>
    cases h
    exact hts

theorem of_readMarked (h : readMarked ts = .ok (node, rest)) (hts : CanFollow 0 ts) :
    HasStringKeys node ∧ CanFollow 0 rest := by
  rw [readMarked] at h
  split at h
  · cases h
  · rename_i handles suffix hdirectives
    have hmark := canFollow_of_readDirectives hdirectives hts
    have hsuffix : (atDocument.walk suffix).isSome = true := hmark.exists_next rfl rfl
    split at h
    · cases h
      exact ⟨trivial, hmark.tail⟩
    · exact ⟨hasStringKeys_of_readRoot h hsuffix, canFollow_of_readRoot h hmark.tail⟩
  · cases h

theorem canFollow_dropWhile (h : CanFollow 0 ts) :
    CanFollow 0 (ts.dropWhile (· == .documentEnd)) := by
  induction ts with
  | nil => exact h
  | cons t ts ih =>
    rw [List.dropWhile_cons]
    split
    · rename_i ht
      obtain rfl := eq_of_beq ht
      exact ih h.tail
    · exact h

theorem hasStringKeys_of_readFurther {nodes : List Node} (h : readFurther fuel ts = .ok nodes)
    (hts : CanFollow 0 ts) : ∀ node ∈ nodes, HasStringKeys node := by
  induction fuel generalizing ts nodes with
  | zero => cases h
  | succ fuel ih =>
    have hrest := canFollow_dropWhile hts
    rw [readFurther] at h
    split at h
    · cases h
      exact List.forall_mem_nil _
    · obtain ⟨⟨node, rest⟩, hmarked, hfurther⟩ := exists_of_bind_ok h
      obtain ⟨nodes', hnodes, hlast⟩ := exists_of_bind_ok hfurther
      cases hlast
      obtain ⟨hnode, hleft⟩ := of_readMarked hmarked hrest
      exact List.forall_mem_cons.2 ⟨hnode, ih hnodes hleft⟩

/-- Every root but the first has strings for keys if it is a mapping. -/
theorem hasStringKeys_of_readDocuments {nodes : List Node} (h : readDocuments ts = .ok nodes)
    (hts : CanFollow 0 ts) : ∀ node ∈ nodes.tail, HasStringKeys node := by
  cases ts with
  | nil =>
    cases h
    exact List.forall_mem_nil _
  | cons t ts =>
    simp only [readDocuments] at h
    split at h
    · obtain ⟨⟨node, rest⟩, hread, hfurther⟩ := exists_of_bind_ok h
      obtain ⟨nodes', hnodes, hlast⟩ := exists_of_bind_ok hfurther
      cases hlast
      exact hasStringKeys_of_readFurther hnodes (of_readMarked hread hts).2
    · obtain ⟨⟨node, rest⟩, hread, hfurther⟩ := exists_of_bind_ok h
      obtain ⟨nodes', hnodes, hlast⟩ := exists_of_bind_ok hfurther
      cases hlast
      exact hasStringKeys_of_readFurther hnodes (canFollow_of_readRoot hread hts)

/-! ## Values -/

theorem scalarValue_ne_mapping (tag : Option Uri) (text : String) (isPlain : Bool)
    (entries : List (Value × Value)) : scalarValue tag text isPlain ≠ .ok (.mapping entries) := by
  rw [scalarValue]
  split
  · intro h
    obtain ⟨value, -, hvalue⟩ := exists_of_map_ok h
    cases hvalue
  · exact fun h ↦ nomatch Scalar.isScalar_of_resolve h

/-- What stands for a mapping is one. -/
theorem exists_of_valueOf_eq_mapping {built : List (Value × Value)}
    (h : valueOf node = .ok (.mapping built)) :
    ∃ properties entries, node = .mapping properties entries := by
  obtain ⟨⟨value, n⟩, hbuild, hvalue⟩ := exists_of_map_ok h
  cases hvalue
  cases node with
  | «alias» anchor => cases hbuild
  | scalar properties text isPlain =>
    change (scalarValue properties.tag text isPlain).map (fun value ↦ (value, 0)) = _ at hbuild
    obtain ⟨value, hscalar, hpair⟩ := exists_of_map_ok hbuild
    cases hpair
    exact absurd hscalar (scalarValue_ne_mapping _ _ _ _)
  | sequence properties items =>
    change (items.mapM (build (Aliases.ofRoot (.sequence properties items)) 127) >>= fun items' ↦
      pure (withTag properties.tag (.sequence items'))) 0 = _ at hbuild
    obtain ⟨items', k, -, hlast⟩ := Build.exists_of_bind_ok hbuild
    rw [withTag] at hlast
    split at hlast <;> cases hlast
  | mapping properties entries => exact ⟨properties, entries, rfl⟩

/-- What is known of the values of the keys is known of the keys of the value. -/
theorem forall_key_of_buildEntries {inner : Node → Build Value} {P : Value → Prop}
    {built result : List (Value × Value)} {entries : List (Node × Node)} {n m : Nat}
    (h : buildEntries inner built entries n = .ok (result, m))
    (hinner : ∀ entry ∈ entries, ∀ k v k', inner entry.1 k = .ok (v, k') → P v)
    (hbuilt : ∀ entry ∈ built, P entry.1) : ∀ entry ∈ result, P entry.1 := by
  induction entries generalizing built n with
  | nil =>
    cases h
    exact hbuilt
  | cons entry entries ih =>
    obtain ⟨key, value⟩ := entry
    obtain ⟨hkey, hrest⟩ := List.forall_mem_cons.1 hinner
    obtain ⟨key', k, hkey', h⟩ := Build.exists_of_bind_ok h
    dsimp only at h
    split at h
    · cases h
    · obtain ⟨value', k', -, hlast⟩ := Build.exists_of_bind_ok h
      exact ih hlast hrest (List.forall_mem_append.2
        ⟨hbuilt, List.forall_mem_singleton.2 (hkey _ _ _ hkey')⟩)

/-- Whether all keys of a mapping are strings. -/
def Value.HasStringKeys : Value → Prop
  | .mapping entries => ∀ entry ∈ entries, ∃ s, entry.1 = .string s
  | _ => True

theorem hasStringKeys_of_valueOf {value : Value} (h : valueOf node = .ok value)
    (hnode : HasStringKeys node) : value.HasStringKeys := by
  cases value with
  | mapping built =>
    obtain ⟨properties, entries, rfl⟩ := exists_of_valueOf_eq_mapping h
    obtain ⟨rfl, hkeys⟩ := hnode
    obtain ⟨aliases, built', n, hbuild, hvalue⟩ := exists_of_valueOf_mapping h
    obtain rfl := Value.mapping.inj hvalue
    refine forall_key_of_buildEntries (P := fun key ↦ ∃ s, key = .string s) hbuild ?_
      (List.forall_mem_nil _)
    intro entry hentry k v k' hv
    obtain ⟨text, s, hkey, hs⟩ := hkeys entry hentry
    rw [hkey] at hv
    change (Scalar.resolvePlain text).map (fun value ↦ (value, k)) = _ at hv
    rw [hs] at hv
    cases hv
    exact ⟨s, rfl⟩
  | _ => trivial

/-- Where the lines of a text start like lines of a manifest, the mappings of all documents but the
first have strings for keys. -/
theorem hasStringKeys_of_documents {source : String} {values : List Value}
    (h : documents source = .ok values)
    (hlines : areTame true (unifyBreaks source.toList) = true) :
    ∀ value ∈ values.tail, value.HasStringKeys := by
  obtain ⟨ts, hts, hrest⟩ := exists_of_bind_ok h
  obtain ⟨nodes, hnodes, hvalues⟩ := exists_of_bind_ok hrest
  obtain ⟨w, hwalk⟩ := walk_of_tokens hts hlines
  have hkeys := hasStringKeys_of_readDocuments hnodes
    ⟨inside 0, Nat.le_refl _, Option.isSome_of_eq_some hwalk⟩
  cases nodes with
  | nil =>
    cases hvalues
    exact List.forall_mem_nil _
  | cons first nodes =>
    cases forall₂_of_mapM hvalues with
    | cons _ hall =>
      intro value hvalue
      obtain ⟨node, hnode, hvalueOf⟩ := exists_of_forall₂ hall hvalue
      exact hasStringKeys_of_valueOf hvalueOf (hkeys node hnode)

end FolderCommands.Yaml
