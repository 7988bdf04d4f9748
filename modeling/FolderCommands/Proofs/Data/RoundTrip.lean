import FolderCommands.Proofs.Data.Records
import FolderCommands.Proofs.Data.Texts
import FolderCommands.Proofs.Time.Timestamps
import FolderCommands.Run.Report
import FolderCommands.Run.Request

/-!
# Documents that are read back

Every value that is written as a JSON document is read from it again: commands and what belongs to
them, users, the records of a session, requests and reports. A location is read from any text, so
it is the text that settles: written once, it is written in the same way ever after.
-/

namespace FolderCommands

open Decode

/-! ## Single texts -/

theorem RemotePath.decode_encode (p : RemotePath) : RemotePath.decode p.encode = .ok p :=
  congrArg Except.ok (ofText_text p)

theorem CommandSet.decode_encode (f : Format) (set : CommandSet) :
    CommandSet.decode f set.encode = .ok set :=
  variant_name f (by decide) (by cases set <;> decide)

theorem FolderType.decode_encode (f : Format) (t : FolderType) :
    FolderType.decode f t.encode = .ok t :=
  variant_name f (by decide) (by cases t <;> decide)

theorem RunStatus.variant_name (f : Format) (s : RunStatus) :
    variant f RunStatus.name RunStatus.every (.string s.name) = .ok s :=
  Decode.variant_name f (by decide) (by cases s <;> decide)

theorem Report.decodeInstant_render {t : Instant} (h : t.IsOrdinary) :
    decodeInstant (.string (Rfc3339.render t)) = .ok t := by
  simp only [decodeInstant, textAs, bind, Except.bind, Rfc3339.parse_render h]

theorem Report.decodeUuid_text (u : Uuid) : decodeUuid (.string u.text) = .ok u := by
  simp only [decodeUuid, textAs, bind, Except.bind, Uuid.parse_text]

/-! ## Records -/

theorem User.decode_encode (f : Format) (u : User) : User.decode f u.encode = .ok u := by
  have hreads : Reads User.fields
      [("name", .string u.name), ("emailAddress", .string u.emailAddress),
        ("mailLogs", .bool u.mailLogs), ("isAdmin", .bool u.isAdmin)] {}
      ⟨some u.name, some u.emailAddress, some u.mailLogs, some u.isAdmin⟩ :=
    .of rfl rfl (.of rfl rfl (.of rfl rfl (.of rfl rfl (.nil _))))
  rw [decode, encode, draft_object f _ hreads (by decide)]
  rfl

theorem Identity.decode_encode (f : Format) (i : Identity) : Identity.decode f i.encode = .ok i := by
  have husers : items (User.decode f) (.sequence (i.users.map User.encode)) = .ok i.users :=
    items_map fun u _ ↦ User.decode_encode f u
  have hreads : Reads (Identity.fields f)
      [("folder", i.folder.encode), ("person", .ofOption i.person), ("send_log", .bool i.sendLog),
        ("users", .sequence (i.users.map User.encode))] {}
      ⟨some i.folder, some i.person, some i.sendLog, some i.users⟩ :=
    .of rfl (RemotePath.decode_encode _) (.of rfl (optional_ofOption _) (.of rfl rfl
      (.of rfl husers (.nil _))))
  have hnames : ["folder", "person", "send_log", "users"].Nodup := by decide
  rw [decode, encode, draft_object f _ hreads hnames]
  rfl

theorem FolderFailure.decode_encode (f : Format) (failure : FolderFailure) :
    FolderFailure.decode f failure.encode = .ok failure := by
  have hreads : Reads FolderFailure.fields
      [("folder", .string failure.folder), ("error", .string failure.error)] {}
      ⟨some failure.folder, some failure.error⟩ :=
    .of rfl rfl (.of rfl rfl (.nil _))
  rw [decode, encode, draft_object f _ hreads (by decide)]
  rfl

theorem OutputPaths.decode_encode (f : Format) (p : OutputPaths) :
    OutputPaths.decode f p.encode = .ok p := by
  have hreads : Reads OutputPaths.fields
      [("docx", .string p.docx), ("site", .string p.site), ("image", .string p.image),
        ("gallery", .string p.gallery)] {}
      ⟨some p.docx, some p.site, some p.image, some p.gallery⟩ :=
    .of rfl rfl (.of rfl rfl (.of rfl rfl (.of rfl rfl (.nil _))))
  rw [decode, encode, draft_object f _ hreads (by decide)]
  rfl

theorem ContentRequest.decode_encode (f : Format) (r : ContentRequest) :
    ContentRequest.decode f r.encode = .ok r := by
  have hreads : Reads (ContentRequest.fields f)
      [("folder", r.folder.encode), ("scratch_root", .string r.scratchRoot),
        ("outputs", r.outputs.encode)] {}
      ⟨some r.folder, some r.scratchRoot, some r.outputs⟩ :=
    .of rfl (RemotePath.decode_encode _) (.of rfl rfl
      (.of rfl (OutputPaths.decode_encode f _) (.nil _)))
  have hnames : ["folder", "scratch_root", "outputs"].Nodup := by decide
  rw [decode, encode, draft_object f _ hreads hnames]
  rfl

theorem Report.decode_encode (f : Format) {r : Report} (hstarted : r.startedAt.IsOrdinary)
    (hfinished : r.finishedAt.IsOrdinary) : Report.decode f r.encode = .ok r := by
  have hfailures : items (FolderFailure.decode f) (.sequence (r.failures.map FolderFailure.encode)) =
      .ok r.failures := items_map fun failure _ ↦ FolderFailure.decode_encode f failure
  have hreads : Reads (Report.fields f)
      [("run_id", .string r.runId.text), ("started_at", .string (Rfc3339.render r.startedAt)),
        ("finished_at", .string (Rfc3339.render r.finishedAt)), ("status", .string r.status.name),
        ("top_folder", .string r.topFolder), ("visited", .ofStrings r.visited),
        ("failures", .sequence (r.failures.map FolderFailure.encode)),
        ("error", .ofOption r.error), ("failed_folder", .ofOption r.failedFolder),
        ("log_requests", .ofStrings r.logRequests)] {}
      ⟨some r.runId, some r.startedAt, some r.finishedAt, some r.status, some r.topFolder,
        some r.visited, some r.failures, some r.error, some r.failedFolder, some r.logRequests⟩ :=
    .of rfl (decodeUuid_text _) (.of rfl (decodeInstant_render hstarted)
      (.of rfl (decodeInstant_render hfinished) (.of rfl (RunStatus.variant_name f _)
        (.of rfl rfl (.of rfl (items_ofStrings _) (.of rfl hfailures
          (.of rfl (optional_ofOption _) (.of rfl (optional_ofOption _)
            (.of rfl (items_ofStrings _) (.nil _))))))))))
  have hnames : ["run_id", "started_at", "finished_at", "status", "top_folder", "visited",
      "failures", "error", "failed_folder", "log_requests"].Nodup := by decide
  rw [decode, encode, draft_object f _ hreads hnames]
  rfl

/-! ## Commands -/

namespace Command

theorem decodeKind_kind (h : Handler) : decodeKind (.string h.kind) = .ok h := by
  have hnodup : (Handler.every.map Handler.kind).Nodup := by decide
  have hmem : h ∈ Handler.every := by cases h <;> decide
  exact Decode.variant_name .json hnodup hmem

/-- What stands behind the kind of a command are its fields. -/
theorem decode_object (h : Handler) {entries : List (String × Datum)}
    (hnames : ∀ e ∈ entries, e.1 ≠ "command") :
    decode (.object (("command", .string h.kind) :: entries)) =
      decodeFields h (.object entries) := by
  have hfields : (entries.map fun e ↦ (Datum.string e.1, e.2)).filter (!isKindEntry ·) =
      entries.map fun e ↦ (Datum.string e.1, e.2) := by
    rw [List.filter_eq_self]
    intro e he
    obtain ⟨entry, hentry, rfl⟩ := List.mem_map.1 he
    simpa [isKindEntry] using hnames entry hentry
  have hkind : isKindEntry (.string "command", .string h.kind) = true := beq_self_eq_true _
  rw [Datum.object, List.map_cons]
  unfold decode
  dsimp only
  rw [List.find?_cons_of_pos hkind, List.filter_cons_of_neg (by rw [hkind]; decide), hfields]
  dsimp only
  rw [decodeKind_kind]
  rfl

theorem reads_target (target : String) : Reads [Draft.targetField]
    [("target_directory", .string target)] {} { targetDirectory := some target } :=
  .of rfl rfl (.nil _)

theorem decode_encode (c : Command) : decode c.encode = .ok c := by
  cases c with
  | identity person sendLog =>
    have hreads : Reads [Draft.personField, Draft.sendLogField]
        [("person", .ofOption person), ("send_log", .bool sendLog)] {}
        { person := some person, sendLog := some sendLog } :=
      .of rfl (optional_ofOption _) (.of rfl rfl (.nil _))
    refine (decode_object .identity ?_).trans ?_
    · simp
    dsimp only [decodeFields]
    rw [draft_object .jsonVariant _ hreads (by decide)]
    rfl
  | changeFolder folder =>
    have hreads : Reads [Draft.folderField] [("folder", .string folder)] {}
        { folder := some folder } :=
      .of rfl rfl (.nil _)
    refine (decode_object .changeFolder ?_).trans ?_
    · simp
    dsimp only [decodeFields]
    rw [draft_object .jsonVariant _ hreads (by decide)]
    rfl
  | singleFolder folder folderType =>
    have hreads : Reads [Draft.folderField, Draft.folderTypeField]
        [("folder", .string folder), ("folder_type", folderType.encode)] {}
        { folder := some folder, folderType := some folderType } :=
      .of rfl rfl (.of rfl (FolderType.decode_encode _ _) (.nil _))
    refine (decode_object .singleFolder ?_).trans ?_
    · simp
    dsimp only [decodeFields]
    rw [draft_object .jsonVariant _ hreads (by decide)]
    rfl
  | all => exact decode_object .all (by simp)
  | processStory => exact decode_object .processStory (by simp)
  | moveFiles target =>
    refine (decode_object .moveFiles ?_).trans ?_
    · simp
    dsimp only [decodeFields]
    rw [draft_object .jsonVariant _ (reads_target target) (by decide)]
    rfl
  | moveSupportFiles target =>
    refine (decode_object .moveSupportFiles ?_).trans ?_
    · simp
    dsimp only [decodeFields]
    rw [draft_object .jsonVariant _ (reads_target target) (by decide)]
    rfl
  | updatePages => exact decode_object .updatePages (by simp)

end Command

/-! ## Plain data -/

section Plain

variable {depth : Nat}

theorem RemotePath.isPlain_encode (p : RemotePath) : p.encode.IsPlain depth :=
  Datum.isPlain_string _

theorem FolderType.isPlain_encode (t : FolderType) : t.encode.IsPlain depth :=
  Datum.isPlain_string _

theorem Command.isPlain_encode (c : Command) : c.encode.IsPlain (depth + 1) := by
  cases c <;> exact Datum.isPlain_object (by simp [FolderType.isPlain_encode])

theorem User.isPlain_encode (u : User) : u.encode.IsPlain (depth + 1) :=
  Datum.isPlain_object (by simp)

theorem Identity.isPlain_encode (i : Identity) : i.encode.IsPlain (depth + 3) := by
  have husers : (Datum.sequence (i.users.map User.encode)).IsPlain (depth + 2) :=
    Datum.isPlain_sequence _ User.isPlain_encode
  exact Datum.isPlain_object (by simp [RemotePath.isPlain_encode, husers])

theorem FolderFailure.isPlain_encode (failure : FolderFailure) :
    failure.encode.IsPlain (depth + 1) :=
  Datum.isPlain_object (by simp)

theorem OutputPaths.isPlain_encode (p : OutputPaths) : p.encode.IsPlain (depth + 1) :=
  Datum.isPlain_object (by simp)

theorem ContentRequest.isPlain_encode (r : ContentRequest) : r.encode.IsPlain (depth + 2) :=
  Datum.isPlain_object (by simp [RemotePath.isPlain_encode, OutputPaths.isPlain_encode])

theorem Report.isPlain_encode (r : Report) : r.encode.IsPlain (depth + 3) := by
  have hfailures : (Datum.sequence (r.failures.map FolderFailure.encode)).IsPlain (depth + 2) :=
    Datum.isPlain_sequence _ FolderFailure.isPlain_encode
  exact Datum.isPlain_object (by simp [hfailures])

end Plain

/-! ## Documents -/

namespace Json

/-- Whether a reader of documents follows the grammar of the format: what it does beyond, with
numbers or with deeper brackets, does not matter. -/
def IsReader (read : String → Option Datum) : Prop :=
  ∀ text d, read? text = some d → read text = some d

/-- Reads a value from the text of a document. -/
def parse? {α : Type} (read : String → Option Datum) (decode : Datum → Result α) (text : String) :
    Option α :=
  (read text).bind fun d ↦ (decode d).toOption

theorem parse?_render {read : String → Option Datum} (hread : IsReader read) {α : Type}
    {decode : Datum → Result α} {d : Datum} {a : α} (hplain : d.IsPlain 127)
    (hdecode : decode d = .ok a) : parse? read decode (render d) = some a := by
  rw [parse?, hread _ _ (read?_render hplain), Option.bind_some, hdecode]
  rfl

end Json

/-- The document of the location that a document holds. -/
def RemotePath.rewrite? (read : String → Option Datum) (text : String) : Option String :=
  (Json.parse? read RemotePath.decode text).map fun p ↦ Json.render p.encode

/-- A document of a location is written in one way. -/
theorem RemotePath.exists_rewrite? {read : String → Option Datum} (hread : Json.IsReader read)
    {text s : String} (h : read text = some (.string s)) :
    ∃ text', rewrite? read text = some text' ∧ rewrite? read text' = some text' := by
  refine ⟨Json.render (ofText s).encode, ?_, ?_⟩
  · rw [rewrite?, Json.parse?, h]
    rfl
  · rw [rewrite?, Json.parse?_render hread (isPlain_encode _) (decode_encode _), Option.map_some]

/-- Every record is read from the document that is written for it, and a text that stands for a
location settles once it is written. -/
theorem Json.documents_read_back {read : String → Option Datum} (hread : IsReader read) :
    (∀ c : Command, parse? read Command.decode (render c.encode) = some c) ∧
    (∀ t : FolderType, parse? read (FolderType.decode .json) (render t.encode) = some t) ∧
    (∀ u : User, parse? read (User.decode .json) (render u.encode) = some u) ∧
    (∀ i : Identity, parse? read (Identity.decode .json) (render i.encode) = some i) ∧
    (∀ failure : FolderFailure,
      parse? read (FolderFailure.decode .json) (render failure.encode) = some failure) ∧
    (∀ p : OutputPaths, parse? read (OutputPaths.decode .json) (render p.encode) = some p) ∧
    (∀ r : ContentRequest,
      parse? read (ContentRequest.decode .json) (render r.encode) = some r) ∧
    (∀ s : RunStatus, parse? read (variant .json RunStatus.name RunStatus.every)
      (render (.string s.name)) = some s) ∧
    (∀ set : CommandSet, parse? read (CommandSet.decode .json) (render set.encode) = some set) ∧
    (∀ r : Report, r.startedAt.IsOrdinary → r.finishedAt.IsOrdinary →
      parse? read (Report.decode .json) (render r.encode) = some r) ∧
    ∀ text s, read text = some (.string s) → ∃ text',
      RemotePath.rewrite? read text = some text' ∧ RemotePath.rewrite? read text' = some text' := by
  refine ⟨fun c ↦ ?_, fun t ↦ ?_, fun u ↦ ?_, fun i ↦ ?_, fun failure ↦ ?_, fun p ↦ ?_, fun r ↦ ?_,
    fun s ↦ ?_, fun set ↦ ?_, fun r hstarted hfinished ↦ ?_, fun text s h ↦ ?_⟩
  · exact parse?_render hread c.isPlain_encode c.decode_encode
  · exact parse?_render hread t.isPlain_encode (t.decode_encode .json)
  · exact parse?_render hread u.isPlain_encode (u.decode_encode .json)
  · exact parse?_render hread i.isPlain_encode (i.decode_encode .json)
  · exact parse?_render hread failure.isPlain_encode (failure.decode_encode .json)
  · exact parse?_render hread p.isPlain_encode (p.decode_encode .json)
  · exact parse?_render hread r.isPlain_encode (r.decode_encode .json)
  · exact parse?_render hread (Datum.isPlain_string _) (s.variant_name .json)
  · exact parse?_render hread (Datum.isPlain_string _) (set.decode_encode .json)
  · exact parse?_render hread r.isPlain_encode (Report.decode_encode .json hstarted hfinished)
  · exact RemotePath.exists_rewrite? hread h

/-- A run from the end of a leap day into the next, with a failure whose message has to be
escaped. -/
def Report.overnight : Report where
  runId := .ofNat 0xdeadbeef
  startedAt := ⟨19782, 86399, 120000000⟩
  finishedAt := ⟨19783, 7, 1⟩
  status := .completedWithErrors
  topFolder := "/news"
  visited := ["/news", "/news/märz"]
  failures := [⟨"/news/märz", "no \"text\"\n\x1b"⟩]
  error := none
  failedFolder := some ""
  logRequests := []

theorem Json.documents_read_back_overnight :
    IsReader read? ∧ Report.overnight.startedAt.IsOrdinary ∧
      Report.overnight.finishedAt.IsOrdinary ∧
      parse? read? (Report.decode .json) (render Report.overnight.encode) =
        some Report.overnight ∧
      read? "\" a//b \"" = some (.string " a//b ") ∧ ∃ text',
        RemotePath.rewrite? read? "\" a//b \"" = some text' ∧
          RemotePath.rewrite? read? text' = some text' := by
  have hread : IsReader read? := fun _ _ h ↦ h
  have hstarted : Report.overnight.startedAt.IsOrdinary :=
    ⟨by decide, by decide, by decide, by decide⟩
  have hfinished : Report.overnight.finishedAt.IsOrdinary :=
    ⟨by decide, by decide, by decide, by decide⟩
  have htext : read? "\" a//b \"" = some (.string " a//b ") := rfl
  obtain ⟨-, -, -, -, -, -, -, -, -, hreport, hlocation⟩ := documents_read_back hread
  exact ⟨hread, hstarted, hfinished, hreport _ hstarted hfinished, htext, hlocation _ _ htext⟩

end FolderCommands
