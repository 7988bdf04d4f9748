import FolderCommands.Proofs.Yaml.Documents

/-!
# What the first tokens of a document say about its value

A document that starts with a plain word, with the start of a mapping or with the first entry of
one has a value of that kind, and the first entry of a mapping stays the first.
-/

namespace FolderCommands.Yaml

variable {handles : Handles} {tokens : List Token} {node : Node}

/-! ## Roots -/

theorem readNode_scalar (handles : Handles) (inBlock bare : Bool) (fuel : Nat) (text : String)
    (isPlain : Bool) (tokens : List Token) (anchors : List (String × Nat)) :
    readNode handles inBlock bare (fuel + 1) ⟨.scalar text isPlain :: tokens, anchors⟩ =
      .ok (.scalar {} text isPlain, ⟨tokens, anchors⟩) := by
  rw [readNode]
  rfl

theorem Read.bind_apply {α β : Type} {x : Read α} {next : α → Read β} {r r' : TokenReader} {a : α}
    (h : x r = .ok (a, r')) : (x >>= next) r = next a r' := by
  change x r >>= (fun result ↦ next result.1 result.2) = _
  rw [h]
  rfl

theorem Read.bind_pure_apply {α β : Type} (x : Read α) (f : α → β) (r : TokenReader) :
    (x >>= fun a ↦ pure (f a)) r = (x r).map fun (a, r') ↦ (f a, r') := by
  change x r >>= (fun result ↦ .ok (f result.1, result.2)) = _
  cases x r <;> rfl

theorem Read.peek_bind {β : Type} {next : Option Token → Read β} {r : TokenReader}
    {t : Option Token} (h : r.tokens.head? = t) : (peek >>= next) r = next t r := by
  rw [← h]
  rfl

theorem Read.drop_bind {β : Type} (next : Unit → Read β) (r : TokenReader) :
    (drop >>= next) r = next () { r with tokens := r.tokens.tail } :=
  rfl

/-- A block mapping is read entry by entry. -/
theorem readNode_blockMapping (handles : Handles) (fuel : Nat) (anchors : List (String × Nat)) :
    readNode handles true false (fuel + 1) ⟨.blockMappingStart :: tokens, anchors⟩ =
      (readEntries handles fuel ⟨tokens, anchors⟩).map fun (entries, r) ↦
        (.mapping {} entries, r) := by
  rw [readNode, ← Read.bind_pure_apply]
  rfl

/-- An entry with a key and a value that are scalars. -/
theorem readEntries_scalars (handles : Handles) (fuel : Nat) (key value : String)
    (keyPlain valuePlain : Bool) (anchors : List (String × Nat)) :
    readEntries handles (fuel + 2) ⟨.key :: .scalar key keyPlain :: .value ::
        .scalar value valuePlain :: tokens, anchors⟩ =
      (readEntries handles (fuel + 1) ⟨tokens, anchors⟩).map fun (entries, r) ↦
        ((.scalar {} key keyPlain, .scalar {} value valuePlain) :: entries, r) := by
  have hends (text : String) (isPlain : Bool) :
      ¬ endsEntry (some (.scalar text isPlain)) = true := Bool.false_ne_true
  rw [readEntries, ← Read.bind_pure_apply, Read.peek_bind (t := some .key) rfl]
  dsimp only
  rw [Read.drop_bind, Read.peek_bind (t := some (.scalar key keyPlain)) rfl,
    if_neg (hends key keyPlain)]
  dsimp only [List.tail_cons]
  rw [Read.bind_apply (readNode_scalar handles true true fuel key keyPlain _ anchors),
    Read.peek_bind (t := some .value) rfl]
  dsimp only
  rw [Read.drop_bind, Read.peek_bind (t := some (.scalar value valuePlain)) rfl,
    if_neg (hends value valuePlain)]
  dsimp only [List.tail_cons]
  rw [Read.bind_apply (readNode_scalar handles true true fuel value valuePlain _ anchors)]

namespace HasRoot

theorem exists_of_not (h : HasRoot tokens node) (hends : endsDocument tokens = false) :
    ∃ handles r, readNode handles true false (4 * tokens.length + 4) ⟨tokens, []⟩ =
      .ok (node, r) := by
  rcases h with ⟨htrue, -⟩ | ⟨-, handles, rest, hread⟩
  · rw [hends] at htrue
    cases htrue
  · obtain ⟨r, hr, -⟩ := exists_of_readRoot hread
    exact ⟨_, r, hr⟩

theorem eq_empty (h : HasRoot tokens node) (hends : endsDocument tokens = true) :
    node = Node.empty := by
  rcases h with ⟨-, hnode⟩ | ⟨hfalse, -⟩
  · exact hnode
  · rw [hends] at hfalse
    cases hfalse

theorem eq_scalar {text : String} {isPlain : Bool}
    (h : HasRoot (.scalar text isPlain :: tokens) node) : node = .scalar {} text isPlain := by
  obtain ⟨handles, r, hr⟩ := h.exists_of_not rfl
  rw [readNode_scalar] at hr
  cases hr
  rfl

/-- No node starts with the start of a key. -/
theorem not_key : ¬ HasRoot (.key :: tokens) node := by
  intro h
  obtain ⟨handles, r, hr⟩ := h.exists_of_not rfl
  rw [readNode] at hr
  cases hr

theorem exists_mapping (h : HasRoot (.blockMappingStart :: tokens) node) :
    ∃ entries, node = .mapping {} entries := by
  obtain ⟨handles, r, hr⟩ := h.exists_of_not rfl
  rw [readNode_blockMapping] at hr
  obtain ⟨⟨entries, r'⟩, -, hnode⟩ := exists_of_map_ok hr
  cases hnode
  exact ⟨entries, rfl⟩

theorem exists_entry {key value : String} {keyPlain valuePlain : Bool}
    (h : HasRoot (.blockMappingStart :: .key :: .scalar key keyPlain :: .value ::
      .scalar value valuePlain :: tokens) node) :
    ∃ entries, node =
      .mapping {} ((.scalar {} key keyPlain, .scalar {} value valuePlain) :: entries) := by
  obtain ⟨handles, r, hr⟩ := h.exists_of_not rfl
  rw [readNode_blockMapping] at hr
  obtain ⟨⟨entries, r'⟩, hentries, hnode⟩ := exists_of_map_ok hr
  simp only [List.length_cons, Nat.mul_add, readEntries_scalars] at hentries
  obtain ⟨⟨entries', r''⟩, -, hcons⟩ := exists_of_map_ok hentries
  cases hcons
  cases hnode
  exact ⟨entries', rfl⟩

end HasRoot

/-! ## Values -/

theorem valueOf_scalar (text : String) (isPlain : Bool) :
    valueOf (.scalar {} text isPlain) = Scalar.resolve none text isPlain := by
  change ((Scalar.resolve none text isPlain).map fun value ↦ (value, 0)).map (·.1) = _
  cases Scalar.resolve none text isPlain <;> rfl

theorem valueOf_empty : valueOf Node.empty = .ok .null :=
  valueOf_scalar "" true

theorem Build.exists_of_bind_ok {α β : Type} {x : Build α} {next : α → Build β} {n m : Nat}
    {b : β} (h : (x >>= next) n = .ok (b, m)) :
    ∃ a k, x n = .ok (a, k) ∧ next a k = .ok (b, m) := by
  obtain ⟨⟨a, k⟩, hx, hnext⟩ := Yaml.exists_of_bind_ok h
  exact ⟨a, k, hx, hnext⟩

/-- Entries are added at the end. -/
theorem isPrefix_of_buildEntries {inner : Node → Build Value} {built result : List (Value × Value)}
    {entries : List (Node × Node)} {n m : Nat}
    (h : buildEntries inner built entries n = .ok (result, m)) : built <+: result := by
  induction entries generalizing built n with
  | nil =>
    cases h
    exact List.prefix_refl _
  | cons entry entries ih =>
    obtain ⟨key, value⟩ := entry
    obtain ⟨key', k, -, hrest⟩ := Build.exists_of_bind_ok h
    dsimp only at hrest
    split at hrest
    · cases hrest
    · obtain ⟨value', k', -, hlast⟩ := Build.exists_of_bind_ok hrest
      exact (List.prefix_append _ _).trans (ih hlast)

theorem exists_of_valueOf_mapping {entries : List (Node × Node)} {value : Value}
    (h : valueOf (.mapping {} entries) = .ok value) :
    ∃ aliases built n, buildEntries (build aliases 127) [] entries 0 = .ok (built, n) ∧
      value = .mapping built := by
  obtain ⟨⟨value', n⟩, hbuild, rfl⟩ := exists_of_map_ok h
  change (buildEntries (build (Aliases.ofRoot (.mapping {} entries)) 127) [] entries >>=
    fun built ↦ pure (Value.mapping built)) 0 = _ at hbuild
  obtain ⟨built, k, hentries, hlast⟩ := Build.exists_of_bind_ok hbuild
  cases hlast
  exact ⟨_, built, _, hentries, rfl⟩

/-- The first entry of a mapping of scalars stays the first. -/
theorem exists_of_valueOf_entry {key text : String} {keyPlain isPlain : Bool}
    {entries : List (Node × Node)} {value k v : Value}
    (h : valueOf (.mapping {} ((.scalar {} key keyPlain, .scalar {} text isPlain) :: entries)) =
      .ok value)
    (hk : Scalar.resolve none key keyPlain = .ok k)
    (hv : Scalar.resolve none text isPlain = .ok v) :
    ∃ built, value = .mapping ((k, v) :: built) := by
  obtain ⟨aliases, built, n, hbuild, rfl⟩ := exists_of_valueOf_mapping h
  obtain ⟨key', n', hkey, hrest⟩ := Build.exists_of_bind_ok hbuild
  obtain ⟨value', n'', hvalue, hlast⟩ := Build.exists_of_bind_ok hrest
  change (Scalar.resolve none key keyPlain).map (fun value ↦ (value, 0)) = _ at hkey
  rw [hk] at hkey
  cases hkey
  change (Scalar.resolve none text isPlain).map (fun value ↦ (value, 0)) = _ at hvalue
  rw [hv] at hvalue
  cases hvalue
  obtain ⟨more, rfl⟩ := isPrefix_of_buildEntries hlast
  exact ⟨more, rfl⟩

/-! ## Documents -/

/-- Whether a value is that of the document with those tokens behind its mark. -/
def HasValue (suffix : List Token) (value : Value) : Prop :=
  ∃ node, HasRoot suffix node ∧ valueOf node = .ok value

/-- The tokens from the start of each document on. -/
def documentTokens (ts : List Token) : List (List Token) :=
  if startsBare ts then ts :: openings ts else openings ts

theorem forall₂_of_mapM {α β ε : Type} {f : α → Except ε β} {as : List α} {bs : List β}
    (h : as.mapM f = .ok bs) : List.Forall₂ (fun a b ↦ f a = .ok b) as bs := by
  induction as generalizing bs with
  | nil =>
    cases h
    exact .nil
  | cons a as ih =>
    rw [List.mapM_cons] at h
    obtain ⟨b, hb, hrest⟩ := exists_of_bind_ok h
    obtain ⟨bs', hbs, hlast⟩ := exists_of_bind_ok hrest
    cases hlast
    exact .cons hb (ih hbs)

theorem forall₂_comp {α β γ : Type} {R : α → β → Prop} {S : β → γ → Prop} {as : List α}
    {bs : List β} {cs : List γ} (h : List.Forall₂ R as bs) (h' : List.Forall₂ S bs cs) :
    List.Forall₂ (fun a c ↦ ∃ b, R a b ∧ S b c) as cs := by
  induction h generalizing cs with
  | nil =>
    cases h'
    exact .nil
  | cons hab _ ih =>
    cases h' with
    | cons hbc hrest => exact .cons ⟨_, hab, hbc⟩ (ih hrest)

theorem exists_of_forall₂ {α β : Type} {R : α → β → Prop} {as : List α} {bs : List β}
    (h : List.Forall₂ R as bs) {b : β} (hb : b ∈ bs) : ∃ a ∈ as, R a b := by
  induction h with
  | nil => cases hb
  | @cons a b' as bs hab _ ih =>
    rcases List.mem_cons.1 hb with rfl | hb
    · exact ⟨a, List.mem_cons_self, hab⟩
    · obtain ⟨a', ha', hab'⟩ := ih hb
      exact ⟨a', List.mem_cons_of_mem a ha', hab'⟩

theorem hasRoot_of_startsBare {first : Node} {rest : List Token} (h : startsBare tokens = true)
    (hread : readRoot [] tokens = .ok (first, rest)) : HasRoot tokens first := by
  cases hends : endsDocument tokens with
  | false => exact .inr ⟨hends, [], rest, hread⟩
  | true =>
    -- What ends a document and is no mark is an end of a document, and no root starts with it.
    cases tokens with
    | nil => cases h
    | cons t ts =>
      rw [startsBare, Bool.not_eq_true', Bool.or_eq_false_iff] at h
      rw [endsDocument, h.1, h.2, Bool.false_or, Bool.or_false] at hends
      rw [eq_of_beq hends] at hread
      obtain ⟨r, hr, -⟩ := exists_of_readRoot hread
      rw [readNode] at hr
      cases hr

/-- The documents of a text have their values in the order of the tokens. -/
theorem forall₂_of_documents {source : String} {values : List Value}
    (h : documents source = .ok values) :
    ∃ ts, Yaml.tokens source = .ok ts ∧
      (documentTokens ts ≠ [] → List.Forall₂ HasValue (documentTokens ts) values) := by
  obtain ⟨ts, hts, hrest⟩ := exists_of_bind_ok h
  obtain ⟨nodes, hnodes, hvalues⟩ := exists_of_bind_ok hrest
  refine ⟨ts, hts, fun hne ↦ ?_⟩
  have hroots : List.Forall₂ HasRoot (documentTokens ts) nodes := by
    rw [documentTokens]
    rcases readDocuments_openings hnodes with
      ⟨hbare, first, rest, nodes', rfl, hread, hfurther⟩ | ⟨hbare, hall⟩
    · rw [if_pos hbare]
      exact .cons (hasRoot_of_startsBare hbare hread) hfurther
    · rw [if_neg (by rw [hbare]; exact Bool.false_ne_true)]
      exact hall
  have hmap : nodes.mapM valueOf = .ok values := by
    cases nodes with
    | nil => exact absurd (List.forall₂_nil_right_iff.1 hroots) hne
    | cons => exact hvalues
  exact forall₂_comp hroots (forall₂_of_mapM hmap)

end FolderCommands.Yaml
