import TextTemplate.Text.Quoted

/-! # Encodings

  How the bytes of a file are read as text.  In UTF-8 the first byte of a
  character tells how many follow and what the first of these may be; a fault
  covers the bytes up to the one that cannot stand where it does.

  After decoding, a line ends in one way only: the pair of a carriage return and
  a line feed, and a carriage return alone, are read as a line feed.
-/

namespace TextTemplate.Text

/-- An encoding of texts. -/
inductive Encoding where
  | utf8
  /-- UTF-8, perhaps with a signature of three bytes in front. -/
  | utf8Signed
  /-- One byte for each of the first 256 characters. -/
  | latin1
  /-- One byte for each of the first 128 characters. -/
  | ascii
  deriving Repr, DecidableEq

/-! ### Names -/

namespace Encoding

/-- Can the character stand inside a word of an encoding's name? -/
def isNamePart (c : Char) : Bool :=
  ('a' ≤ c && c ≤ 'z') || ('0' ≤ c && c ≤ '9') || c == '.'

/-- An encoding's name with small letters, and one underscore between its words. -/
def normalName (name : String) : String :=
  let marked := (name.toList.map Char.toLower).map fun c => if isNamePart c then c else '_'
  let words := marked.splitBy fun a b => (a == '_') == (b == '_')
  "_".intercalate ((words.filter (!·.contains '_')).map String.ofList)

/-- The normal names of an encoding. -/
def names : Encoding → List String
  | .utf8 => ["utf_8", "utf8", "u8", "utf", "utf8_ucs2", "utf8_ucs4", "cp65001"]
  | .utf8Signed => ["utf_8_sig"]
  | .latin1 =>
    ["latin_1", "latin1", "latin", "l1", "iso_8859_1", "iso8859_1", "iso8859", "8859", "cp819",
     "ibm819", "csisolatin1", "iso_ir_100", "iso_8859_1_1987"]
  | .ascii =>
    ["ascii", "us_ascii", "us", "646", "iso646_us", "iso_646.irv_1991", "iso_ir_6", "cp367",
     "ibm367", "csascii", "ansi_x3.4_1968", "ansi_x3.4_1986", "ansi_x3_4_1968"]

/-- The encoding of a name, which may be spelled in several ways. -/
def ofName? (name : String) : Option Encoding :=
  [utf8, utf8Signed, latin1, ascii].find? fun e => e.names.contains (normalName name)

end Encoding

/-! ### Faults -/

/-- Bytes that an encoding does not have. -/
structure DecodeFault where
  codec : String
  /-- The place of the first of them. -/
  position : Nat
  bytes : List UInt8
  reason : String
  deriving Repr, DecidableEq

/-- What the message about a fault says. -/
def DecodeFault.message (f : DecodeFault) : String :=
  "'" ++ f.codec ++ "' codec can't decode " ++ (match f.bytes with
    | [b] => "byte 0x" ++ String.ofList (hexDigits 2 b.toNat) ++ " in position " ++
        Nat.repr f.position
    | several => "bytes in position " ++ Nat.repr f.position ++ "-" ++
        Nat.repr (f.position + several.length - 1)) ++ ": " ++ f.reason

/-! ### UTF-8 -/

/-- How many bytes follow the first byte of a character, and the range of the first of them. -/
def following? (first : Nat) : Option (Nat × Nat × Nat) :=
  if first < 0x80 then some (0, 0x80, 0xBF)
  else if first < 0xC2 then none
  else if first < 0xE0 then some (1, 0x80, 0xBF)
  else if first < 0xF0 then
    some (2, if first = 0xE0 then 0xA0 else 0x80, if first = 0xED then 0x9F else 0xBF)
  else if first < 0xF5 then
    some (3, if first = 0xF0 then 0x90 else 0x80, if first = 0xF4 then 0x8F else 0xBF)
  else none

/-- The part of a character's code that its first byte holds. -/
def leadingBits (first : Nat) : Nat :=
  if first < 0x80 then first
  else if first < 0xE0 then first - 0xC0
  else if first < 0xF0 then first - 0xE0
  else first - 0xF0

/-- Why the bytes after a first byte do not complete a character. -/
inductive Tail.Fault where
  | missing
  /-- The byte at this distance from the first one cannot stand there. -/
  | wrong (distance : Nat)

/-- The code that a number of following bytes completes. -/
def readTail (distance : Nat) (low high value : Nat) :
    (count : Nat) → List UInt8 → Except Tail.Fault Nat
  | 0, _ => .ok value
  | _ + 1, [] => .error .missing
  | count + 1, b :: rest =>
    if low ≤ b.toNat ∧ b.toNat ≤ high then
      readTail (distance + 1) 0x80 0xBF (value * 64 + (b.toNat - 0x80)) count rest
    else .error (.wrong distance)

/-- The characters that bytes from a position on write in UTF-8. -/
def decodeUtf8 (position : Nat) : List UInt8 → Except DecodeFault (List Char)
  | [] => .ok []
  | b :: rest =>
    match following? b.toNat with
    | none => .error ⟨"utf-8", position, [b], "invalid start byte"⟩
    | some (count, low, high) =>
      match readTail 1 low high (leadingBits b.toNat) count rest with
      | .error .missing => .error ⟨"utf-8", position, b :: rest, "unexpected end of data"⟩
      | .error (.wrong distance) =>
        .error ⟨"utf-8", position, (b :: rest).take distance, "invalid continuation byte"⟩
      | .ok code => do
        return Char.ofNat code :: (← decodeUtf8 (position + 1 + count) (rest.drop count))
termination_by bytes => bytes.length
decreasing_by simp only [List.length_drop, List.length_cons]; omega

/-! ### Decoding -/

/-- The bytes without the signature in front of them.  A signature that is cut short by the end of
    the file counts as one. -/
def dropSignature : List UInt8 → List UInt8
  | 0xEF :: 0xBB :: 0xBF :: rest => rest
  | [0xEF, 0xBB] | [0xEF] => []
  | bytes => bytes

/-- The characters that bytes from a position on write in ASCII. -/
def decodeAscii (position : Nat) : List UInt8 → Except DecodeFault (List Char)
  | [] => .ok []
  | b :: rest =>
    if b.toNat < 0x80 then do
      return Char.ofNat b.toNat :: (← decodeAscii (position + 1) rest)
    else .error ⟨"ascii", position, [b], "ordinal not in range(128)"⟩

/-- The characters that bytes write. -/
def decode : Encoding → List UInt8 → Except DecodeFault (List Char)
  | .utf8, bytes => decodeUtf8 0 bytes
  | .utf8Signed, bytes => decodeUtf8 0 (dropSignature bytes)
  | .latin1, bytes => .ok (bytes.map fun b => Char.ofNat b.toNat)
  | .ascii, bytes => decodeAscii 0 bytes

/-- A text in which every line ends with a line feed. -/
def normalLines : List Char → List Char
  | '\r' :: '\n' :: rest => '\n' :: normalLines rest
  | '\r' :: rest => '\n' :: normalLines rest
  | c :: rest => c :: normalLines rest
  | [] => []

/-- The text of a file's bytes. -/
def ofBytes (encoding : Encoding) (bytes : List UInt8) : Except DecodeFault String := do
  return String.ofList (normalLines (← decode encoding bytes))

end TextTemplate.Text
