import FolderCommands.Proofs.Manifest.Writing
import FolderCommands.Proofs.Yaml.Verbatim

/-!
# Manifests without quotes

Texts of letters, digits and a few signs may stand in a manifest without quotes. An attribute is then
the text of what the scalar stands for: it is the text that was written exactly where that text is
verbatim. Other texts are respelled, such as folders named for the tenth month of a year, and whole
numbers of more than 64 bits keep the manifest from being read.
-/

namespace FolderCommands

open Grammar Yaml

theorem Yaml.exists_mapM_iff {α β ε : Type} {f : α → Except ε β} {as : List α} :
    (∃ bs, as.mapM f = .ok bs) ↔ ∀ a ∈ as, ∃ b, f a = .ok b := by
  induction as with
  | nil => exact iff_of_true ⟨[], rfl⟩ (List.forall_mem_nil _)
  | cons a as ih =>
    rw [List.mapM_cons, List.forall_mem_cons, ← ih]
    constructor
    · rintro ⟨bs, h⟩
      obtain ⟨b, hb, hrest⟩ := exists_of_bind_ok h
      obtain ⟨bs', hbs, -⟩ := exists_of_bind_ok hrest
      exact ⟨⟨b, hb⟩, bs', hbs⟩
    · rintro ⟨⟨b, hb⟩, bs, hbs⟩
      refine ⟨b :: bs, ?_⟩
      rw [hb, hbs]
      rfl

namespace Command

variable {c : Command} {bare : Field → Bool} {entries : List (Value × Value)}

theorem ne_name_of_mem_fields {f : Field} (hf : f ∈ c.fields) (s : String) : f.value ≠ .name s := by
  cases c with
  | identity person sendLog =>
    cases person <;> simp only [fields, Option.map_none, Option.map_some, Option.toList_none,
      Option.toList_some, List.nil_append, List.cons_append, List.mem_cons, List.not_mem_nil,
      or_false] at hf
    · rw [hf]
      rintro ⟨⟩
    · rcases hf with rfl | rfl <;> rintro ⟨⟩
  | changeFolder folder | moveFiles target | moveSupportFiles target =>
    rw [List.mem_singleton.1 hf]
    rintro ⟨⟩
  | singleFolder folder folderType =>
    rcases List.mem_cons.1 hf with rfl | hf
    · rintro ⟨⟩
    · rw [List.mem_singleton.1 hf]
      rintro ⟨⟩
  | all | processStory | updatePages => cases hf

variable (hrows : ∀ r ∈ c.rows bare, r.isProper = true)

include hrows

theorem isBare_of_mem_fields {key s : String} (hf : ⟨key, .quoted s⟩ ∈ c.fields)
    (hbare : bare ⟨key, .quoted s⟩ = true) : isBare s = true := by
  have hmem : (⟨key, s, true⟩ : Row) ∈ c.rows bare :=
    List.mem_map.2 ⟨⟨key, .quoted s⟩, List.mem_cons_of_mem _ hf, by rw [hbare]; rfl⟩
  exact Row.isBare_text (hrows _ hmem) rfl

/-- The rows of a command can be read where no text without quotes is too large a number. -/
theorem exists_entries?_iff : (∃ entries, c.entries? bare = .ok entries) ↔
    ∀ key s, ⟨key, .quoted s⟩ ∈ c.fields → bare ⟨key, .quoted s⟩ = true →
      Scalar.isOversized s = false := by
  constructor
  · rintro ⟨entries, h⟩ key s hf hbare
    obtain ⟨value, hvalue, -⟩ := find?_of_rows h (List.mem_cons_of_mem _ hf)
    rw [hbare] at hvalue
    exact (Scalar.exists_resolvePlain_iff (isBare_of_mem_fields hrows hf hbare)).1 ⟨value, hvalue⟩
  · intro h
    refine exists_mapM_iff.2 (List.forall_mem_map.2 fun f hf ↦ ?_)
    suffices hresolve : ∃ value,
        Scalar.resolve none f.value.text (f.value.isPlain || bare f) = .ok value by
      obtain ⟨value, hvalue⟩ := hresolve
      refine ⟨(.string f.key, value), ?_⟩
      rw [Row.entry?, hvalue]
      rfl
    rcases List.mem_cons.1 hf with rfl | hf
    · exact ⟨_, resolvePlain_of_isName (isName_name c)⟩
    obtain ⟨key, value⟩ := f
    cases value with
    | name s => exact absurd rfl (ne_name_of_mem_fields hf s)
    | flag b => exact ⟨_, FieldValue.resolve_eq (v := .flag b) rfl⟩
    | quoted s =>
      cases hbare : bare ⟨key, .quoted s⟩ with
      | true =>
        exact (Scalar.exists_resolvePlain_iff (isBare_of_mem_fields hrows hf hbare)).2
          (h key s hf hbare)
      | false => exact ⟨.string s, rfl⟩

/-- An attribute is the text that was written where it stands between quotes or is verbatim. -/
theorem text?_eq_some_iff (h : c.entries? bare = .ok entries) {key s : String}
    (hf : ⟨key, .quoted s⟩ ∈ c.fields) : (⟨entries⟩ : CommandRecord).text? key = some s ↔
      (bare ⟨key, .quoted s⟩ = true → Scalar.isVerbatim s = true) := by
  have htext := text?_of_rows h (List.mem_cons_of_mem _ hf)
  cases hbare : bare ⟨key, .quoted s⟩ with
  | true =>
    rw [hbare] at htext
    have hverbatim := Scalar.textOf?_eq_some_iff (isBare_of_mem_fields hrows hf hbare)
    rw [← hverbatim]
    exact (Eq.congr_left htext).trans (imp_iff_right rfl).symm
  | false =>
    rw [hbare] at htext
    exact iff_of_true htext fun hfalse ↦ nomatch hfalse

end Command

namespace Manifest

open Command

variable {set : CommandSet} {commands : List Command} {bare : Field → Bool}

/-- A manifest is read with texts without quotes unless one is too large a number. Its attributes
are the texts that were written exactly where those without quotes are verbatim, and if all are, the
plan is the commands. -/
theorem parse_without_quotes (folder : String) (hallowed : ∀ c ∈ commands, set.allows c = true)
    (hrows : ∀ c ∈ commands, ∀ r ∈ c.rows bare, r.isProper = true) :
    (validate (writeWith bare set commands)).diagnostics = [] ∧
      ((∃ m, parse (writeWith bare set commands) folder = .ok m) ↔
        ∀ c ∈ commands, ∀ key s, ⟨key, .quoted s⟩ ∈ c.fields → bare ⟨key, .quoted s⟩ = true →
          Scalar.isOversized s = false) ∧
      ∀ m, parse (writeWith bare set commands) folder = .ok m → m.commandSet = set ∧
        List.Forall₂ (fun c record ↦ ∀ key s, ⟨key, .quoted s⟩ ∈ c.fields →
          (record.text? key = some s ↔
            (bare ⟨key, .quoted s⟩ = true → Scalar.isVerbatim s = true))) commands m.records ∧
        ((∀ c ∈ commands, c.isWritable = true) →
          (∀ c ∈ commands, ∀ key s, ⟨key, .quoted s⟩ ∈ c.fields → bare ⟨key, .quoted s⟩ = true →
            Scalar.isVerbatim s = true) →
          Plan.ofRecords m.commandSet m.records = .ok commands) := by
  have hread : (∃ entries, commands.mapM (entries? bare) = .ok entries) ↔
      ∀ c ∈ commands, ∀ key s, ⟨key, .quoted s⟩ ∈ c.fields → bare ⟨key, .quoted s⟩ = true →
        Scalar.isOversized s = false :=
    exists_mapM_iff.trans (forall₂_congr fun c hc ↦ exists_entries?_iff (hrows c hc))
  refine ⟨by rw [validate_writeWith hallowed hrows], ?_, ?_⟩
  · rw [← hread, parse_writeWith hallowed hrows folder]
    cases commands.mapM (entries? bare) with
    | error fault => exact iff_of_false (fun h ↦ nomatch h) fun h ↦ nomatch h
    | ok entries => exact iff_of_true ⟨_, rfl⟩ ⟨_, rfl⟩
  intro m hm
  rw [parse_writeWith hallowed hrows folder] at hm
  cases hentries : commands.mapM (entries? bare) with
  | error fault =>
    rw [hentries] at hm
    cases hm
  | ok entries =>
    rw [hentries] at hm
    cases hm
    have hread := forall₂_of_mapM hentries
    refine ⟨rfl, ?_, fun hwritable hverbatim ↦ ?_⟩
    · rw [List.forall₂_map_right_iff]
      refine List.Forall₂.imp ?_ ((List.forall₂_and_left _ _).2 ⟨hrows, hread⟩)
      exact fun c es h key s hf ↦ text?_eq_some_iff h.1 h.2 hf
    · refine ofRecords_of_isAskedBy ?_ hallowed hwritable
      rw [List.forall₂_map_right_iff]
      have hboth : ∀ c ∈ commands, (∀ r ∈ c.rows bare, r.isProper = true) ∧
          ∀ key s, ⟨key, .quoted s⟩ ∈ c.fields → bare ⟨key, .quoted s⟩ = true →
            Scalar.isVerbatim s = true := fun c hc ↦ ⟨hrows c hc, hverbatim c hc⟩
      refine List.Forall₂.imp ?_ ((List.forall₂_and_left _ _).2 ⟨hboth, hread⟩)
      rintro c es ⟨⟨hproper, htexts⟩, hes⟩
      exact isAskedBy_of_rows hes fun {key s} hf ↦
        (text?_eq_some_iff hproper hes hf).2 (htexts key s hf)

/-- Commands whose texts are verbatim, though some look like dates, numbers and words. -/
def plainCommands : List Command :=
  [.identity (some "O.Hara_2") true, .changeFolder "2024.1", .singleFolder "archive/2024.10" .story]

theorem parse_without_quotes_plainCommands :
    (∀ c ∈ plainCommands, CommandSet.top.allows c = true) ∧
      (∀ c ∈ plainCommands, ∀ r ∈ c.rows (fun _ ↦ true), r.isProper = true) ∧
        ∃ m, parse (writeWith (fun _ ↦ true) .top plainCommands) "t" = .ok m ∧
          Plan.ofRecords m.commandSet m.records = .ok plainCommands := by
  have hallowed : ∀ c ∈ plainCommands, CommandSet.top.allows c = true := by decide
  have hrows : ∀ c ∈ plainCommands, ∀ r ∈ c.rows (fun _ ↦ true), r.isProper = true := by
    decide +kernel
  have htexts : ∀ c ∈ plainCommands, ∀ f ∈ c.fields,
      Scalar.isVerbatim f.value.text = true ∧ Scalar.isOversized f.value.text = false := by
    decide +kernel
  obtain ⟨-, hread, hrecords⟩ := parse_without_quotes "t" hallowed hrows
  obtain ⟨m, hm⟩ := hread.2 fun c hc key s hf _ ↦ (htexts c hc _ hf).2
  exact ⟨hallowed, hrows, m, hm, (hrecords m hm).2.2 (by decide +kernel)
    fun c hc key s hf _ ↦ (htexts c hc _ hf).1⟩

/-- The folder of the tenth month of a year is respelled as that of the first. -/
theorem exists_respelled_folder : isBare "2024.10" = true ∧
    ∃ m, parse "command_set: top\n---\ncommand: change_folder\nfolder: 2024.10\n" "t" = .ok m ∧
      m.records.map (·.text? "folder") = [some "2024.1"] ∧
        Plan.ofRecords m.commandSet m.records = .ok [.changeFolder "2024.1"] := by
  have hrun : (parse "command_set: top\n---\ncommand: change_folder\nfolder: 2024.10\n"
      "t").toOption.map (fun m ↦ (m.records.map (·.text? "folder"),
        (Plan.ofRecords m.commandSet m.records).toOption)) =
      some ([some "2024.1"], some [.changeFolder "2024.1"]) := by
    decide +kernel
  refine ⟨by decide, ?_⟩
  cases hparse : parse "command_set: top\n---\ncommand: change_folder\nfolder: 2024.10\n" "t" with
  | error error =>
    rw [hparse] at hrun
    cases hrun
  | ok m =>
    rw [hparse] at hrun
    obtain ⟨htexts, hplan⟩ := Prod.mk.inj (Option.some.inj hrun)
    refine ⟨m, rfl, htexts, ?_⟩
    cases hcommands : Plan.ofRecords m.commandSet m.records with
    | error error =>
      rw [hcommands] at hplan
      cases hplan
    | ok commands =>
      rw [hcommands] at hplan
      rw [Option.some.inj hplan]

end Manifest

end FolderCommands
