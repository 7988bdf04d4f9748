import FolderCommands.Proofs.Yaml.Fields
import FolderCommands.Proofs.Yaml.Roots

/-!
# The documents of rows and pages

The tokens of rows form one mapping whose entries are what the rows stand for, in their order; if a
scalar stands for nothing, the text has no documents. The pages of a text are its documents.
-/

namespace FolderCommands.Yaml

/-! ## Nodes -/

/-- The nodes of a row. -/
def Row.nodes (r : Row) : Node × Node :=
  (.scalar {} r.key true, .scalar {} r.text r.isPlain)

/-- The root of a document of rows. -/
def rowsRoot (rows : List Row) : Node :=
  .mapping {} (rows.map Row.nodes)

variable {handles : Handles} {ts : List Token}

theorem readEntries_rows (rows : List Row) (anchors : List (String × Nat)) {fuel : Nat}
    (h : rows.length < fuel) :
    readEntries handles fuel ⟨rows.flatMap Row.tokens ++ .blockEnd :: ts, anchors⟩ =
      .ok (rows.map Row.nodes, ⟨ts, anchors⟩) := by
  induction rows generalizing fuel with
  | nil =>
    obtain ⟨fuel, rfl⟩ := Nat.exists_eq_add_of_lt h
    rw [readEntries]
    rfl
  | cons r rows ih =>
    rw [List.length_cons] at h
    obtain ⟨fuel, rfl⟩ : ∃ n, fuel = n + 2 := ⟨fuel - 2, by omega⟩
    rw [List.flatMap_cons, Row.tokens]
    simp only [List.cons_append, List.nil_append]
    rw [readEntries_scalars, ih (by omega)]
    rfl

theorem length_le_flatMap {α β : Type} {g : α → List β} (h : ∀ a, g a ≠ []) (as : List α) :
    as.length ≤ (as.flatMap g).length := by
  induction as with
  | nil => exact Nat.le_refl _
  | cons a as ih =>
    have hpos := List.length_pos_of_ne_nil (h a)
    rw [List.flatMap_cons, List.length_append, List.length_cons]
    omega

theorem readRoot_rows (rows : List Row) :
    readRoot handles (rowsTokens rows ++ ts) = .ok (rowsRoot rows, ts) := by
  have hlength : rows.length < (rowsTokens rows ++ ts).length := by
    have hrows := length_le_flatMap (g := Row.tokens) (fun r ↦ List.cons_ne_nil _ _) rows
    simp only [rowsTokens, List.length_append, List.length_cons, List.length_nil]
    omega
  have hread : readNode (handles ++ defaultHandles) true false
      (4 * (rowsTokens rows ++ ts).length + 4) ⟨rowsTokens rows ++ ts, []⟩ =
      .ok (rowsRoot rows, ⟨ts, []⟩) := by
    generalize (rowsTokens rows ++ ts).length = n at hlength
    rw [rowsTokens, List.cons_append, List.append_assoc, List.singleton_append,
      readNode_blockMapping, readEntries_rows rows [] (by omega)]
    rfl
  simp only [readRoot, StateT.run, hread]

/-! ## Documents -/

theorem readMarked_rows (rows : List Row) :
    readMarked (.documentStart :: (rowsTokens rows ++ ts)) = .ok (rowsRoot rows, ts) := by
  have hdirectives : readDirectives false [] (.documentStart :: (rowsTokens rows ++ ts)) =
      .ok ([], .documentStart :: (rowsTokens rows ++ ts)) := rfl
  have hends : endsDocument (rowsTokens rows ++ ts) = false := rfl
  rw [readMarked, hdirectives]
  dsimp only
  rw [hends, if_neg Bool.false_ne_true, readRoot_rows]

theorem readFurther_rows (pages : List (List Row)) {fuel : Nat} (h : pages.length < fuel) :
    readFurther fuel (markedTokens pages) = .ok (pages.map rowsRoot) := by
  induction pages generalizing fuel with
  | nil =>
    obtain ⟨fuel, rfl⟩ := Nat.exists_eq_add_of_lt h
    rfl
  | cons rows pages ih =>
    rw [List.length_cons] at h
    obtain ⟨fuel, rfl⟩ : ∃ n, fuel = n + 1 := ⟨fuel - 1, by omega⟩
    change (readMarked (.documentStart :: (rowsTokens rows ++ markedTokens pages)) >>= _) = _
    rw [readMarked_rows]
    simp only [bind, Except.bind, ih (Nat.lt_of_succ_lt_succ h)]
    rfl

theorem readDocuments_rows (header : List Row) (pages : List (List Row)) :
    readDocuments (rowsTokens header ++ markedTokens pages) =
      .ok ((header :: pages).map rowsRoot) := by
  have hlength : pages.length < (rowsTokens header ++ markedTokens pages).length + 1 := by
    have hpages : pages.length ≤ (markedTokens pages).length :=
      length_le_flatMap (fun rows ↦ List.cons_ne_nil _ _) pages
    rw [List.length_append]
    omega
  change (readRoot [] (rowsTokens header ++ markedTokens pages) >>= _) = _
  rw [readRoot_rows]
  change (readFurther ((rowsTokens header ++ markedTokens pages).length + 1)
    (markedTokens pages) >>= _) = _
  rw [readFurther_rows pages hlength]
  rfl

/-! ## Values -/

/-- The entry that a row is read as. -/
def Row.entry? (r : Row) : Except Fault (Value × Value) :=
  (Scalar.resolve none r.text r.isPlain).map fun value ↦ (.string r.key, value)

/-- The value of rows. -/
def rowsValue (rows : List Row) : Except Fault Value :=
  (rows.mapM Row.entry?).map .mapping

theorem build_scalar (aliases : Aliases) (depth : Nat) (text : String) (isPlain : Bool) (n : Nat) :
    build aliases (depth + 1) (.scalar {} text isPlain) n =
      (Scalar.resolve none text isPlain).map fun value ↦ (value, n) :=
  rfl

theorem Build.bind_apply {α β : Type} {x : Build α} {next : α → Build β} {n m : Nat} {a : α}
    (h : x n = .ok (a, m)) : (x >>= next) n = next a m := by
  change x n >>= (fun result ↦ next result.1 result.2) = _
  rw [h]
  rfl

theorem Build.bind_error {α β : Type} {x : Build α} {next : α → Build β} {n : Nat} {fault : Fault}
    (h : x n = .error fault) : (x >>= next) n = .error fault := by
  change x n >>= (fun result ↦ next result.1 result.2) = _
  rw [h]
  rfl

/-- Rows with different keys are added one after the other, up to a scalar that stands for
nothing. -/
theorem buildEntries_rows (aliases : Aliases) (depth : Nat) {rows : List Row}
    (hrows : ∀ r ∈ rows, r.isProper = true) (hnodup : (rows.map (·.key)).Nodup)
    {built : List (Value × Value)}
    (hbuilt : ∀ e ∈ built, ∀ r ∈ rows, e.1.same (.string r.key) = false) (n : Nat) :
    buildEntries (build aliases (depth + 1)) built (rows.map Row.nodes) n =
      (rows.mapM Row.entry?).map fun entries ↦ (built ++ entries, n) := by
  induction rows generalizing built with
  | nil =>
    rw [List.mapM_nil]
    change Except.ok (built, n) = .ok (built ++ [], n)
    rw [List.append_nil]
  | cons r rows ih =>
    obtain ⟨hr, hrest⟩ := List.forall_mem_cons.1 hrows
    obtain ⟨hfresh, hnodup⟩ := List.nodup_cons.1 hnodup
    have hkeyNode : build aliases (depth + 1) (.scalar {} r.key true) n =
        .ok (.string r.key, n) := by
      rw [build_scalar, Scalar.resolve, if_pos rfl, resolvePlain_of_isName (Row.isName_key hr)]
      rfl
    rw [List.map_cons, Row.nodes, buildEntries, Build.bind_apply hkeyNode, if_neg ?fresh,
      List.mapM_cons, Row.entry?]
    case fresh =>
      rw [Bool.not_eq_true, List.any_eq_false]
      exact fun e he ↦ by simp [hbuilt e he r List.mem_cons_self]
    have hvalueNode := build_scalar aliases depth r.text r.isPlain n
    cases hvalue : Scalar.resolve none r.text r.isPlain with
    | error fault =>
      rw [hvalue] at hvalueNode
      rw [Build.bind_error hvalueNode]
      rfl
    | ok value =>
      rw [hvalue] at hvalueNode
      have hadded : ∀ e ∈ built ++ [(.string r.key, value)], ∀ r' ∈ rows,
          e.1.same (.string r'.key) = false := by
        intro e he r' hr'
        rcases List.mem_append.1 he with he | he
        · exact hbuilt e he r' (List.mem_cons_of_mem _ hr')
        · obtain rfl := List.mem_singleton.1 he
          have hne : r.key ≠ r'.key :=
            fun heq ↦ hfresh (List.mem_map.2 ⟨r', hr', heq.symm⟩)
          simpa [Value.same] using hne
      rw [Build.bind_apply hvalueNode, ih hrest hnodup hadded]
      cases rows.mapM Row.entry? with
      | error fault => rfl
      | ok entries =>
        change Except.ok (built ++ [(.string r.key, value)] ++ entries, n) =
          .ok (built ++ (.string r.key, value) :: entries, n)
        rw [List.append_assoc, List.singleton_append]

theorem valueOf_rowsRoot {rows : List Row} (h : AreRows rows) :
    valueOf (rowsRoot rows) = rowsValue rows := by
  have hbuild : buildEntries (build (Aliases.ofRoot (rowsRoot rows)) 127) []
      (rows.map Row.nodes) 0 = (rows.mapM Row.entry?).map fun entries ↦ ([] ++ entries, 0) :=
    buildEntries_rows _ 126 h.isProper h.nodup (by simp) 0
  change (((buildEntries (build (Aliases.ofRoot (rowsRoot rows)) 127) [] (rows.map Row.nodes) >>=
    fun built ↦ pure (Value.mapping built)) : Build Value) 0).map (·.1) = _
  rw [rowsValue]
  cases hentries : rows.mapM Row.entry? with
  | error fault =>
    rw [hentries] at hbuild
    rw [Build.bind_error hbuild]
    rfl
  | ok entries =>
    rw [hentries] at hbuild
    rw [Build.bind_apply hbuild]
    rfl

/-- The documents of a text of rows are the values of the rows. -/
theorem documents_rows {header : List Row} {pages : List (List Row)} (hheader : AreRows header)
    (hpages : ∀ rows ∈ pages, AreRows rows) :
    documents (String.ofList (rowsText header ++ markedRows pages)) =
      (header :: pages).mapM rowsValue := by
  have hvalues {all : List (List Row)} (hall : ∀ rows ∈ all, AreRows rows) :
      (all.map rowsRoot).mapM valueOf = all.mapM rowsValue := by
    induction all with
    | nil => rfl
    | cons rows all ih =>
      obtain ⟨hrows, hrest⟩ := List.forall_mem_cons.1 hall
      rw [List.map_cons, List.mapM_cons, List.mapM_cons, valueOf_rowsRoot hrows, ih hrest]
  rw [documents, tokens_rows hheader hpages]
  change (readDocuments (rowsTokens header ++ markedTokens pages) >>= _) = _
  rw [readDocuments_rows]
  exact hvalues (List.forall_mem_cons.2 ⟨hheader, hpages⟩)

/-! ## Entries -/

section

variable {rows : List Row} {entries : List (Value × Value)}
  (h : rows.mapM Row.entry? = .ok entries)

include h

theorem map_fst_of_mapM : entries.map (·.1) = rows.map fun r ↦ .string r.key := by
  have hentries := forall₂_of_mapM h
  clear h
  induction hentries with
  | nil => rfl
  | cons hentry _ ih =>
    obtain ⟨value, -, rfl⟩ := exists_of_map_ok hentry
    rw [List.map_cons, List.map_cons, ih]

theorem find?_eq_none_of_mapM {key : String} (hkey : key ∉ rows.map (·.key)) :
    Value.find? key entries = none := by
  rw [Value.find?, Option.map_eq_none_iff, List.find?_eq_none]
  rintro ⟨first, value⟩ hentry
  have hmem : first ∈ entries.map (·.1) := List.mem_map_of_mem hentry
  rw [map_fst_of_mapM h] at hmem
  obtain ⟨r, hr, rfl⟩ := List.mem_map.1 hmem
  intro hsame
  exact hkey (List.mem_map.2 ⟨r, hr, beq_iff_eq.1 hsame⟩)

theorem exists_find?_of_mapM (hnodup : (rows.map (·.key)).Nodup) {r : Row} (hr : r ∈ rows) :
    ∃ value, Scalar.resolve none r.text r.isPlain = .ok value ∧
      Value.find? r.key entries = some value := by
  have hentries := forall₂_of_mapM h
  clear h
  induction hentries with
  | nil => cases hr
  | @cons first entry rows entries hentry _ ih =>
    obtain ⟨value, hvalue, rfl⟩ := exists_of_map_ok hentry
    obtain ⟨hfresh, hnodup⟩ := List.nodup_cons.1 hnodup
    rcases List.mem_cons.1 hr with rfl | hr
    · refine ⟨value, hvalue, ?_⟩
      simp [Value.find?, Value.isString]
    · have hne : first.key ≠ r.key := fun heq ↦ hfresh (List.mem_map.2 ⟨r, hr, heq.symm⟩)
      obtain ⟨value', hvalue', hfind⟩ := ih hnodup hr
      refine ⟨value', hvalue', ?_⟩
      rw [← hfind]
      simp [Value.find?, Value.isString, hne]

end

/-! ## Pages -/

/-- The entries of a page. -/
def pageEntries (fields : List Field) : List (Value × Value) :=
  fields.map Field.entry

theorem mapM_entry?_page {fields : List Field} (h : ∀ f ∈ fields, f.isProper = true) :
    (fields.map Field.row).mapM Row.entry? = .ok (pageEntries fields) := by
  induction fields with
  | nil => rfl
  | cons f fields ih =>
    obtain ⟨hf, hrest⟩ := List.forall_mem_cons.1 h
    have hentry : f.row.entry? = .ok f.entry := by
      rw [Row.entry?, Field.row, FieldValue.resolve_eq (Bool.and_eq_true_iff.1 hf).2]
      rfl
    rw [List.map_cons, List.mapM_cons, hentry, ih hrest]
    rfl

end FolderCommands.Yaml
