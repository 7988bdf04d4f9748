/-!
# Text and bytes

UTF-8 in both directions over lists of bytes. Decoding reads one character or one maximal
malformed group at a time; strict decoding refuses malformed groups, lossy decoding puts one
replacement character for each.
-/

namespace FolderCommands.Text

/-- The bytes of a text. -/
def encode (s : String) : List UInt8 :=
  s.toList.flatMap String.utf8EncodeChar

/-- The number of bytes of some characters. -/
def byteLength (cs : List Char) : Nat :=
  cs.foldr (fun c n ↦ c.utf8Size + n) 0

/-- Whether a byte continues a character. -/
def isContinuation (b : UInt8) : Bool :=
  0x80 ≤ b && b ≤ 0xBF

/-- The second bytes that may follow a first byte of a three-byte character. -/
def secondOfThree (a b : UInt8) : Bool :=
  if a == 0xE0 then 0xA0 ≤ b && b ≤ 0xBF
  else if a == 0xED then 0x80 ≤ b && b ≤ 0x9F
  else isContinuation b

/-- The second bytes that may follow a first byte of a four-byte character. -/
def secondOfFour (a b : UInt8) : Bool :=
  if a == 0xF0 then 0x90 ≤ b && b ≤ 0xBF
  else if a == 0xF4 then 0x80 ≤ b && b ≤ 0x8F
  else isContinuation b

/-- The value bits of a continuation byte. -/
def low6 (b : UInt8) : Nat :=
  b.toNat % 64

/-- One entry per character; `none` stands for a malformed group of bytes. -/
def decodeUnits : List UInt8 → List (Option Char)
  | [] => []
  | a :: r₁ =>
    if a < 0x80 then some (Char.ofNat a.toNat) :: decodeUnits r₁
    else if 0xC2 ≤ a && a ≤ 0xDF then
      match r₁ with
      | [] => [none]
      | b :: r₂ =>
        if isContinuation b then
          some (Char.ofNat ((a.toNat - 0xC0) * 64 + low6 b)) :: decodeUnits r₂
        else none :: decodeUnits (b :: r₂)
    else if 0xE0 ≤ a && a ≤ 0xEF then
      match r₁ with
      | [] => [none]
      | b :: r₂ =>
        if secondOfThree a b then
          match r₂ with
          | [] => [none]
          | c :: r₃ =>
            if isContinuation c then
              some (Char.ofNat (((a.toNat - 0xE0) * 64 + low6 b) * 64 + low6 c)) :: decodeUnits r₃
            else none :: decodeUnits (c :: r₃)
        else none :: decodeUnits (b :: r₂)
    else if 0xF0 ≤ a && a ≤ 0xF4 then
      match r₁ with
      | [] => [none]
      | b :: r₂ =>
        if secondOfFour a b then
          match r₂ with
          | [] => [none]
          | c :: r₃ =>
            if isContinuation c then
              match r₃ with
              | [] => [none]
              | d :: r₄ =>
                if isContinuation d then
                  some (Char.ofNat
                    ((((a.toNat - 0xF0) * 64 + low6 b) * 64 + low6 c) * 64 + low6 d)) ::
                    decodeUnits r₄
                else none :: decodeUnits (d :: r₄)
            else none :: decodeUnits (c :: r₃)
        else none :: decodeUnits (b :: r₂)
    else none :: decodeUnits r₁

/-- The text that the bytes spell, if they are well formed. -/
def decode? (bytes : List UInt8) : Option String :=
  ((decodeUnits bytes).mapM id).map String.ofList

/-- The text that the bytes spell, with a replacement character for each malformed group. -/
def decodeLossy (bytes : List UInt8) : String :=
  String.ofList ((decodeUnits bytes).map fun unit ↦ unit.getD '\uFFFD')

end FolderCommands.Text
