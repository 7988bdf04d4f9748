import FolderCommands.Text.Trimming

/-!
# Locations in the content store

A location is a list of segments, possibly rooted. Segments are never empty, never padded with
blanks and never hold a slash, so the text of a location determines it. A location that has a
segment `.` or `..` is not normal and counts as being below nothing.
-/

namespace FolderCommands

/-- What may stand between two slashes: text that is neither empty nor padded. -/
def IsSegment (s : String) : Prop :=
  s ≠ "" ∧ Text.trimmed s = s ∧ '/' ∉ s.toList

/-- The segments that a text names: its trimmed pieces between slashes, without the empty ones. -/
def segmentsOf (s : String) : List String :=
  ((Text.split '/' s).map Text.trimmed).filter (· ≠ "")

theorem isSegment_of_mem_segmentsOf {text s : String} (h : s ∈ segmentsOf text) :
    IsSegment s := by
  simp only [segmentsOf, List.mem_filter, List.mem_map, Text.split] at h
  obtain ⟨⟨_, ⟨piece, hp, rfl⟩, rfl⟩, hne⟩ := h
  refine ⟨by simpa using hne, Text.trimmed_idem _, ?_⟩
  intro hmem
  rw [Text.trimmed, String.toList_ofList] at hmem
  have := Text.mem_of_mem_trim hmem
  rw [String.toList_ofList] at this
  exact Text.sep_not_mem_of_mem_pieces hp this

/-- A location in the content store. -/
structure RemotePath where
  /-- Whether the text starts with a slash. -/
  rooted : Bool
  /-- The names between the slashes, outermost first. -/
  segments : List String
  isSegment : ∀ s ∈ segments, IsSegment s
deriving DecidableEq

namespace RemotePath

@[ext]
theorem ext {p q : RemotePath} (rooted : p.rooted = q.rooted) (segments : p.segments = q.segments) :
    p = q := by
  cases p
  cases q
  rw [mk.injEq]
  exact ⟨rooted, segments⟩

/-- Reads a location; blanks around segments and repeated slashes are of no account. -/
def ofText (text : String) : RemotePath where
  rooted := (Text.trim text.toList).head? == some '/'
  segments := segmentsOf (Text.trimmed text)
  isSegment := fun _ ↦ isSegment_of_mem_segmentsOf

/-- The written form of a location. -/
def text (p : RemotePath) : String :=
  (if p.rooted then "/" else "") ++ Text.joinWith "/" p.segments

/-- The location below `p` that `child` names; `child` may hold slashes. -/
def join (p : RemotePath) (child : String) : RemotePath where
  rooted := p.rooted
  segments := p.segments ++ segmentsOf child
  isSegment := fun s hs ↦ by
    rcases List.mem_append.1 hs with h | h
    · exact p.isSegment s h
    · exact isSegment_of_mem_segmentsOf h

/-- The last segment; empty for a location without segments. -/
def leaf (p : RemotePath) : String :=
  p.segments.getLast?.getD ""

/-- Whether no segment is `.` or `..`. -/
def isNormal (p : RemotePath) : Bool :=
  p.segments.all fun s ↦ s != "." && s != ".."

/-- Whether `p` is `ancestor` or lies below it; both must be normal. -/
def isDescendantOf (p ancestor : RemotePath) : Bool :=
  p.isNormal && ancestor.isNormal && p.rooted == ancestor.rooted &&
    ancestor.segments.isPrefixOf p.segments

instance : Inhabited RemotePath :=
  ⟨false, [], by simp⟩

theorem rooted_ofText (text : String) :
    (ofText text).rooted = ((Text.trim text.toList).head? == some '/') := by
  rw [ofText]

theorem segments_ofText (text : String) :
    (ofText text).segments = segmentsOf (Text.trimmed text) := by
  rw [ofText]

@[simp] theorem segments_join (p : RemotePath) (child : String) :
    (p.join child).segments = p.segments ++ segmentsOf child :=
  rfl

@[simp] theorem rooted_join (p : RemotePath) (child : String) :
    (p.join child).rooted = p.rooted :=
  rfl

end RemotePath

end FolderCommands
