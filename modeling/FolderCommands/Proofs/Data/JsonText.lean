import FolderCommands.Data.Json
import FolderCommands.Yaml.Scalar
import Mathlib.Data.List.TakeWhile

/-!
# Reading JSON back

A reader of JSON documents, which gives back the data that a document was written for. It follows
the grammar of the format: white space may stand between the parts, a character may be escaped in
each of the ways there are, and controls must be. Documents with numbers are left to other readers,
because no record that is read from a document has any. A document may be nested 127 levels deep.
-/

namespace FolderCommands.Json

/-! ## The reader -/

/-- White space between the parts of a document. -/
def isSpace (c : Char) : Bool :=
  c = ' ' || c = '\t' || c = '\n' || c = '\r'

def skipSpace (cs : List Char) : List Char :=
  cs.dropWhile isSpace

/-- Reads four hexadecimal digits. -/
def readUnit (cs : List Char) : Option (Nat × List Char) :=
  if cs.length < 4 then none
  else (Yaml.Scalar.digits? 16 (cs.take 4)).map fun n ↦ (n, cs.drop 4)

/-- Reads the character behind `\u`. One outside the basic plane has a second unit. -/
def readUnicode (cs : List Char) : Option (Char × List Char) := do
  let (high, cs) ← readUnit cs
  if high < 0xD800 ∨ 0xE000 ≤ high then some (Char.ofNat high, cs)
  else match cs with
    | '\\' :: 'u' :: cs => do
      let (low, cs) ← readUnit cs
      if high < 0xDC00 ∧ 0xDC00 ≤ low ∧ low < 0xE000 then
        some (Char.ofNat (0x10000 + (high - 0xD800) * 0x400 + (low - 0xDC00)), cs)
      else none
    | _ => none

/-- The character that a letter or sign behind a backslash stands for. -/
def escaped? (c : Char) : Option Char :=
  match c with
  | '"' => some '"'
  | '\\' => some '\\'
  | '/' => some '/'
  | 'b' => some '\x08'
  | 'f' => some '\x0c'
  | 'n' => some '\n'
  | 'r' => some '\r'
  | 't' => some '\t'
  | _ => none

/-- Reads one character of a string. -/
def readChar : List Char → Option (Char × List Char)
  | [] => none
  | c :: cs =>
    if c = '\\' then
      match cs with
      | [] => none
      | 'u' :: cs => readUnicode cs
      | c :: cs => (escaped? c).map (·, cs)
    else if c = '"' ∨ c.toNat < 0x20 then none
    else some (c, cs)

/-- Reads the characters of a string and the closing quote. -/
def readChars : Nat → List Char → Option (List Char × List Char)
  | 0, _ => none
  | fuel + 1, cs =>
    if cs.head? = some '"' then some ([], cs.tail)
    else do
      let (c, cs) ← readChar cs
      let (chars, cs) ← readChars fuel cs
      some (c :: chars, cs)

/-- Reads a string. -/
def readString (cs : List Char) : Option (String × List Char) :=
  match skipSpace cs with
  | '"' :: cs => (readChars cs.length cs).map (Prod.map String.ofList id)
  | _ => none

section Brackets

variable {α : Type} (closing : Char) (read : List Char → Option (α × List Char))

/-- Reads what stands between commas, and the closing bracket. -/
def readMany : Nat → List Char → Option (List α × List Char)
  | 0, _ => none
  | fuel + 1, cs => do
    let (a, cs) ← read cs
    match skipSpace cs with
    | [] => none
    | c :: cs =>
      if c = closing then some ([a], cs)
      else if c = ',' then (readMany fuel cs).map (Prod.map (a :: ·) id)
      else none

/-- Reads what stands behind an opening bracket, and the closing one. -/
def readBracket (cs : List Char) : Option (List α × List Char) :=
  if (skipSpace cs).head? = some closing then some ([], (skipSpace cs).tail)
  else readMany closing read cs.length cs

end Brackets

/-- Reads an entry of a map. -/
def readEntry (read : List Char → Option (Datum × List Char)) (cs : List Char) :
    Option ((Datum × Datum) × List Char) := do
  let (key, cs) ← readString cs
  match skipSpace cs with
  | ':' :: cs => (read cs).map (Prod.map (.string key, ·) id)
  | _ => none

/-- Reads a value in which brackets are nested at most so deep. -/
def readValue (depth : Nat) (cs : List Char) : Option (Datum × List Char) :=
  match skipSpace cs with
  | 'n' :: 'u' :: 'l' :: 'l' :: cs => some (.null, cs)
  | 't' :: 'r' :: 'u' :: 'e' :: cs => some (.bool true, cs)
  | 'f' :: 'a' :: 'l' :: 's' :: 'e' :: cs => some (.bool false, cs)
  | '[' :: cs => match depth with
    | 0 => none
    | depth + 1 => (readBracket ']' (fun cs ↦ readValue depth cs) cs).map
        (Prod.map .sequence id)
  | '\x7b' :: cs => match depth with
    | 0 => none
    | depth + 1 => (readBracket '\x7d' (readEntry fun cs ↦ readValue depth cs) cs).map
        (Prod.map .map id)
  | cs => (readString cs).map (Prod.map .string id)

/-- The data of a document. -/
def read? (text : String) : Option Datum :=
  match readValue 127 text.toList with
  | some (d, rest) => if (skipSpace rest).isEmpty then some d else none
  | none => none

/-! ## White space -/

theorem skipSpace_append {gap : List Char} (h : ∀ c ∈ gap, isSpace c = true) (cs : List Char) :
    skipSpace (gap ++ cs) = skipSpace cs :=
  List.dropWhile_append_of_pos h

theorem skipSpace_cons {c : Char} (h : isSpace c = false) (cs : List Char) :
    skipSpace (c :: cs) = c :: cs :=
  List.dropWhile_cons_of_neg (by simp [h])

theorem isSpace_lineStart (level : Nat) : ∀ c ∈ (lineStart level).toList, isSpace c = true := by
  intro c hc
  simp only [lineStart, String.toList_append, String.toList_ofList, List.mem_append] at hc
  rcases hc with hc | hc
  · obtain rfl := List.mem_singleton.1 hc
    decide
  · obtain rfl := List.eq_of_mem_replicate hc
    decide

/-! ## Strings -/

theorem readUnit_fourDigits {n : Nat} (h : n < 0x20) (cs : List Char) :
    readUnit (fourDigits n ++ cs) = some (n, cs) := by
  have hall : ∀ n < 0x20, (fourDigits n).length = 4 ∧
      Yaml.Scalar.digits? 16 (fourDigits n) = some n := by
    decide +kernel
  obtain ⟨hlength, hvalue⟩ := hall n h
  rw [readUnit, if_neg (by rw [List.length_append]; omega), List.take_left' hlength,
    List.drop_left' hlength, hvalue]
  rfl

theorem readChar_escape (c : Char) (cs : List Char) : readChar (escape c ++ cs) = some (c, cs) := by
  unfold escape
  split
  · rfl
  · rfl
  · rfl
  · rfl
  · rfl
  · rfl
  · rfl
  · rename_i hquote hbackslash _ _ _ _ _
    split
    · rename_i hcontrol
      change readUnicode (fourDigits c.toNat ++ cs) = _
      have hsmall : c.toNat < 0xD800 := by omega
      rw [readUnicode, readUnit_fourDigits hcontrol]
      change (if _ then some (Char.ofNat c.toNat, cs) else _) = _
      rw [if_pos (.inl hsmall), Char.ofNat_toNat]
    · rename_i hcontrol
      change (if c = '\\' then _ else if c = '"' ∨ c.toNat < 0x20 then none else some (c, cs)) = _
      rw [if_neg hbackslash, if_neg (not_or_intro hquote hcontrol)]

theorem exists_escape (c : Char) : ∃ d ds, escape c = d :: ds ∧ d ≠ '"' := by
  unfold escape
  split
  · exact ⟨_, _, rfl, by decide⟩
  · exact ⟨_, _, rfl, by decide⟩
  · exact ⟨_, _, rfl, by decide⟩
  · exact ⟨_, _, rfl, by decide⟩
  · exact ⟨_, _, rfl, by decide⟩
  · exact ⟨_, _, rfl, by decide⟩
  · exact ⟨_, _, rfl, by decide⟩
  · rename_i hquote _ _ _ _ _ _
    split
    · exact ⟨_, _, rfl, by decide⟩
    · exact ⟨c, [], rfl, hquote⟩

theorem readChars_escape (s rest : List Char) {fuel : Nat}
    (h : (s.flatMap escape).length < fuel) :
    readChars fuel (s.flatMap escape ++ '"' :: rest) = some (s, rest) := by
  induction s generalizing fuel with
  | nil =>
    obtain ⟨fuel, rfl⟩ := Nat.exists_eq_add_of_lt h
    rfl
  | cons c s ih =>
    cases fuel with
    | zero => cases h
    | succ fuel =>
      obtain ⟨d, ds, hescape, hd⟩ := exists_escape c
      have hrest : (s.flatMap escape).length < fuel := by
        rw [List.flatMap_cons, hescape, List.length_append, List.length_cons] at h
        omega
      have hhead : (escape c ++ (s.flatMap escape ++ '"' :: rest)).head? ≠ some '"' := by
        rw [hescape]
        exact fun heq ↦ hd (Option.some.inj heq)
      rw [List.flatMap_cons, List.append_assoc, readChars, if_neg hhead, readChar_escape]
      change (readChars fuel (s.flatMap escape ++ '"' :: rest) >>= _) = _
      rw [ih hrest]
      rfl

theorem toList_quote (s : String) :
    (quote s).toList = '"' :: (s.toList.flatMap escape ++ ['"']) := by
  rw [quote, String.toList_ofList, List.cons_append]

theorem readString_quote (gap : List Char) (hgap : ∀ c ∈ gap, isSpace c = true) (s : String)
    (rest : List Char) : readString (gap ++ ((quote s).toList ++ rest)) = some (s, rest) := by
  have hread : readChars (s.toList.flatMap escape ++ '"' :: rest).length
      (s.toList.flatMap escape ++ '"' :: rest) = some (s.toList, rest) :=
    readChars_escape s.toList rest (by simp)
  rw [readString, skipSpace_append hgap, toList_quote, List.cons_append,
    skipSpace_cons (by decide), List.append_assoc, List.singleton_append]
  change (readChars _ _).map _ = _
  rw [hread, Option.map_some, Prod.map_apply, String.ofList_toList, id_eq]

/-! ## Brackets -/

section Brackets

variable {α : Type} {write : α → String} {closing : Char}
  {read : List Char → Option (α × List Char)} {as : List α}

theorem joinWith_cons (sep s : String) {rest : List String} (h : rest ≠ []) :
    Text.joinWith sep (s :: rest) = s ++ sep ++ Text.joinWith sep rest := by
  cases rest with
  | nil => exact absurd rfl h
  | cons next rest => rfl

theorem length_le_joinWith (sep : String) (h : ∀ a ∈ as, write a ≠ "") :
    as.length ≤ (Text.joinWith sep (as.map write)).toList.length := by
  induction as with
  | nil => exact Nat.zero_le _
  | cons a as ih =>
    obtain ⟨ha, hrest⟩ := List.forall_mem_cons.1 h
    have hpos : 0 < (write a).toList.length :=
      List.length_pos_iff.2 fun hnil ↦ ha (String.toList_eq_nil_iff.1 hnil)
    have hlength := ih hrest
    cases as with
    | nil => exact hpos
    | cons b as =>
      rw [List.map_cons, joinWith_cons _ _ (by simp), String.toList_append, String.toList_append,
        List.length_append, List.length_append, List.length_cons]
      omega

/-- What was written one after the other with commas between is read in that order. -/
theorem readMany_joinWith (hclosing : isSpace closing = false) (hcomma : closing ≠ ',')
    (level : Nat) {behind : List Char} (hbehind : ∀ c ∈ behind, isSpace c = true)
    (hread : ∀ a ∈ as, ∀ rest,
      read ((lineStart level).toList ++ ((write a).toList ++ rest)) = some (a, rest))
    (hne : as ≠ []) (rest : List Char) {fuel : Nat} (hfuel : as.length ≤ fuel) :
    readMany closing read fuel ((lineStart level).toList ++
      ((Text.joinWith ("," ++ lineStart level) (as.map write)).toList ++
        (behind ++ closing :: rest))) = some (as, rest) := by
  induction as generalizing fuel with
  | nil => exact absurd rfl hne
  | cons a as ih =>
    obtain ⟨ha, hmore⟩ := List.forall_mem_cons.1 hread
    cases fuel with
    | zero => cases hfuel
    | succ fuel =>
      cases as with
      | nil =>
        rw [List.map_cons, List.map_nil, Text.joinWith, readMany, ha, Option.bind_eq_bind,
          Option.bind_some]
        dsimp only
        rw [skipSpace_append hbehind, skipSpace_cons hclosing]
        exact if_pos rfl
      | cons b as =>
        have hstep := ih hmore (List.cons_ne_nil _ _) (Nat.le_of_succ_le_succ hfuel)
        rw [List.map_cons, joinWith_cons _ _ (by simp), String.toList_append, String.toList_append,
          String.toList_append, List.append_assoc, List.append_assoc, List.append_assoc, readMany,
          ha, Option.bind_eq_bind, Option.bind_some]
        dsimp only
        rw [show (",").toList = [','] from rfl, List.singleton_append,
          skipSpace_cons (by decide)]
        dsimp only
        rw [if_neg (Ne.symm hcomma), if_pos rfl, hstep]
        rfl

/-- The lines between brackets are read as what they were written for. -/
theorem exists_readBracket (write : α → String) (read : List Char → Option (α × List Char))
    (closing : Char) (hclosing : isSpace closing = false) (hcomma : closing ≠ ',')
    (opening mark : String) (hmark : mark.toList = [closing]) (level : Nat)
    (hopens : ∀ a ∈ as, ∃ c cs, (write a).toList = c :: cs ∧ isSpace c = false ∧ c ≠ closing)
    (hread : ∀ a ∈ as, ∀ rest,
      read ((lineStart (level + 1)).toList ++ ((write a).toList ++ rest)) = some (a, rest))
    (rest : List Char) :
    ∃ text, (bracketed opening mark level (as.map write)).toList = opening.toList ++ text ∧
      readBracket closing read (text ++ rest) = some (as, rest) := by
  cases as with
  | nil =>
    refine ⟨[closing], ?_, ?_⟩
    · rw [List.map_nil, bracketed, List.isEmpty_nil, if_pos rfl, String.toList_append, hmark]
    · rw [readBracket, List.singleton_append, skipSpace_cons hclosing]
      exact if_pos rfl
  | cons a as =>
    obtain ⟨c, cs, ha, hc, hne⟩ := hopens a List.mem_cons_self
    have hwritten : ∀ b ∈ a :: as, write b ≠ "" := by
      intro b hb hempty
      obtain ⟨c, cs, hb, -⟩ := hopens b hb
      rw [hempty] at hb
      cases hb
    have hlength := length_le_joinWith ("," ++ lineStart (level + 1)) hwritten
    refine ⟨(lineStart (level + 1)).toList ++
      ((Text.joinWith ("," ++ lineStart (level + 1)) ((a :: as).map write)).toList ++
        ((lineStart level).toList ++ [closing])), ?_, ?_⟩
    · rw [bracketed, List.map_cons, List.isEmpty_cons, if_neg Bool.false_ne_true]
      simp only [String.toList_append, hmark, List.append_assoc]
    · have hhead : ∃ ds, (Text.joinWith ("," ++ lineStart (level + 1))
          ((a :: as).map write)).toList = c :: ds := by
        cases as with
        | nil => exact ⟨cs, ha⟩
        | cons b as =>
          rw [List.map_cons, joinWith_cons _ _ (by simp), String.toList_append,
            String.toList_append, ha]
          exact ⟨_, rfl⟩
      obtain ⟨ds, hds⟩ := hhead
      rw [readBracket, if_neg, List.append_assoc, List.append_assoc, List.append_assoc,
        List.singleton_append]
      · refine readMany_joinWith hclosing hcomma _ (isSpace_lineStart level) hread
          (List.cons_ne_nil _ _) rest ?_
        rw [List.length_append, List.length_append]
        omega
      · rw [List.append_assoc, skipSpace_append (isSpace_lineStart _), hds, List.cons_append,
          List.cons_append, skipSpace_cons hc]
        exact fun heq ↦ hne (Option.some.inj heq)

end Brackets

/-! ## Values -/

theorem renderItems_eq_map (level : Nat) (items : List Datum) :
    renderItems level items = items.map (renderAt level) := by
  induction items with
  | nil => rfl
  | cons d items ih => rw [renderItems, ih, List.map_cons]

/-- The line of an entry. -/
def renderEntry (level : Nat) (entry : Datum × Datum) : String :=
  (match entry.1 with
    | .string s => quote s
    | key => quote (renderAt level key)) ++ ": " ++ renderAt level entry.2

theorem renderEntries_eq_map (level : Nat) (entries : List (Datum × Datum)) :
    renderEntries level entries = entries.map (renderEntry level) := by
  induction entries with
  | nil => rfl
  | cons entry entries ih =>
    obtain ⟨key, value⟩ := entry
    cases key <;> simp only [renderEntries, renderEntry, ih, List.map_cons]

end FolderCommands.Json

namespace FolderCommands.Datum

/-- Data without numbers in which every key is a string and brackets are nested at most so
deep. -/
def IsPlain : Nat → Datum → Prop
  | _, null | _, bool _ | _, string _ => True
  | depth + 1, sequence items => ∀ d ∈ items, IsPlain depth d
  | depth + 1, map entries => ∀ e ∈ entries, (∃ s, e.1 = string s) ∧ IsPlain depth e.2
  | _, _ => False

end FolderCommands.Datum

namespace FolderCommands.Json

/-- The characters that plain data may start with. -/
def openings : List Char :=
  ['n', 't', 'f', '"', '[', '\x7b']

theorem isSpace_of_mem_openings {c : Char} (h : c ∈ openings) : isSpace c = false ∧ c ≠ ']' := by
  have hall : openings.all (fun c ↦ isSpace c == false && c != ']') = true := by decide
  simpa using List.all_eq_true.1 hall c h

theorem exists_renderAt {depth : Nat} {d : Datum} (h : d.IsPlain depth) (level : Nat) :
    ∃ c cs, (renderAt level d).toList = c :: cs ∧ c ∈ openings := by
  cases d with
  | null =>
    rw [renderAt]
    exact ⟨'n', ['u', 'l', 'l'], rfl, by decide⟩
  | bool b =>
    rw [renderAt]
    cases b with
    | false => exact ⟨'f', ['a', 'l', 's', 'e'], rfl, by decide⟩
    | true => exact ⟨'t', ['r', 'u', 'e'], rfl, by decide⟩
  | int n => cases depth <;> exact h.elim
  | float x => cases depth <;> exact h.elim
  | string s =>
    rw [renderAt]
    exact ⟨_, _, toList_quote s, by decide⟩
  | sequence items =>
    rw [renderAt, bracketed]
    split
    · exact ⟨'[', [']'], rfl, by decide⟩
    · simp only [String.toList_append, List.append_assoc]
      exact ⟨'[', _, rfl, by decide⟩
  | map entries =>
    rw [renderAt, bracketed]
    split
    · exact ⟨'\x7b', ['\x7d'], rfl, by decide⟩
    · simp only [String.toList_append, List.append_assoc]
      exact ⟨'\x7b', _, rfl, by decide⟩

theorem toList_renderEntry (level : Nat) (key : String) (value : Datum) :
    (renderEntry level (.string key, value)).toList =
      (quote key).toList ++ (':' :: ([' '] ++ (renderAt level value).toList)) := by
  rw [renderEntry, String.toList_append, String.toList_append, List.append_assoc]
  rfl

theorem readEntry_renderEntry {depth level : Nat} {value : Datum} {rest : List Char}
    (hvalue : readValue depth ([' '] ++ ((renderAt level value).toList ++ rest)) =
      some (value, rest)) (key : String) :
    readEntry (readValue depth) ((lineStart level).toList ++
      ((renderEntry level (.string key, value)).toList ++ rest)) =
        some ((.string key, value), rest) := by
  rw [toList_renderEntry, List.append_assoc, readEntry, readString_quote _ (isSpace_lineStart _)]
  exact congrArg (Option.map (Prod.map (Datum.string key, ·) id)) hvalue

/-- Plain data is read back, whatever stands behind it. -/
theorem readValue_renderAt {depth : Nat} {d : Datum} (h : d.IsPlain depth) (level : Nat)
    (gap : List Char) (hgap : ∀ c ∈ gap, isSpace c = true) (rest : List Char) :
    readValue depth (gap ++ ((renderAt level d).toList ++ rest)) = some (d, rest) := by
  induction depth using Nat.strong_induction_on generalizing d level gap rest with
  | _ depth ih =>
  cases d with
  | null =>
    rw [readValue.eq_def, skipSpace_append hgap, renderAt]
    rfl
  | bool b =>
    rw [readValue.eq_def, skipSpace_append hgap, renderAt]
    cases b <;> rfl
  | int n => cases depth <;> exact h.elim
  | float x => cases depth <;> exact h.elim
  | string s =>
    have hstring := readString_quote [] (List.forall_mem_nil _) s rest
    rw [toList_quote] at hstring
    rw [renderAt, readValue.eq_def, skipSpace_append hgap, toList_quote, List.cons_append,
      skipSpace_cons (by decide)]
    exact congrArg (Option.map (Prod.map Datum.string id)) hstring
  | sequence items =>
    cases depth with
    | zero => exact h.elim
    | succ depth =>
      have hopens : ∀ d ∈ items, ∃ c cs, (renderAt (level + 1) d).toList = c :: cs ∧
          isSpace c = false ∧ c ≠ ']' := by
        intro d hd
        obtain ⟨c, cs, hd, hc⟩ := exists_renderAt (h d hd) (level + 1)
        exact ⟨c, cs, hd, isSpace_of_mem_openings hc⟩
      have hread : ∀ d ∈ items, ∀ rest, readValue depth ((lineStart (level + 1)).toList ++
          ((renderAt (level + 1) d).toList ++ rest)) = some (d, rest) := fun d hd ↦
        ih depth (Nat.lt_succ_self _) (h d hd) (level + 1) _ (isSpace_lineStart _)
      obtain ⟨text, htext, hitems⟩ := exists_readBracket (renderAt (level + 1))
        (readValue depth) ']' (by decide) (by decide) "[" "]" rfl level hopens hread rest
      rw [renderAt, renderItems_eq_map, htext, readValue.eq_def, skipSpace_append hgap,
        List.append_assoc]
      change (readBracket ']' (fun cs ↦ readValue depth cs) (text ++ rest)).map _ = _
      rw [hitems]
      rfl
  | map entries =>
    cases depth with
    | zero => exact h.elim
    | succ depth =>
      have hopens : ∀ e ∈ entries, ∃ c cs, (renderEntry (level + 1) e).toList = c :: cs ∧
          isSpace c = false ∧ c ≠ '\x7d' := by
        rintro ⟨key, value⟩ he
        obtain ⟨⟨s, rfl⟩, -⟩ := h _ he
        rw [toList_renderEntry, toList_quote]
        exact ⟨'"', _, rfl, by decide, by decide⟩
      have hread : ∀ e ∈ entries, ∀ rest, readEntry (readValue depth)
          ((lineStart (level + 1)).toList ++ ((renderEntry (level + 1) e).toList ++ rest)) =
            some (e, rest) := by
        rintro ⟨key, value⟩ he rest
        obtain ⟨⟨s, rfl⟩, hplain⟩ := h _ he
        exact readEntry_renderEntry (ih depth (Nat.lt_succ_self _) hplain (level + 1) [' ']
          (List.forall_mem_singleton.2 (by decide)) rest) s
      obtain ⟨text, htext, hentries⟩ := exists_readBracket (renderEntry (level + 1))
        (readEntry (readValue depth)) '\x7d' (by decide) (by decide) "\x7b" "\x7d" rfl level hopens
        hread rest
      rw [renderAt, renderEntries_eq_map, htext, readValue.eq_def, skipSpace_append hgap,
        List.append_assoc]
      change (readBracket '\x7d' (readEntry fun cs ↦ readValue depth cs) (text ++ rest)).map _ = _
      rw [hentries]
      rfl

/-- Plain data is read from the document that was written for it. -/
theorem read?_render {d : Datum} (h : d.IsPlain 127) : read? (render d) = some d := by
  have hread := readValue_renderAt h 0 [] (List.forall_mem_nil _) []
  rw [List.nil_append, List.append_nil] at hread
  rw [read?, render, hread]
  rfl

example : read? "[ \"\\u00e9\\uD83D\\ude00\",null ]" = some (.sequence [.string "é😀", .null]) := by
  rfl

end FolderCommands.Json
