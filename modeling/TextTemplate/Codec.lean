import TextTemplate.Catalog.Fault
import TextTemplate.Text.Encoding

/-! # Codecs

  How the bytes of a template's file are read as text is told by the name of a
  codec, which is a setting.  Which codecs there are and what they make of bytes is a
  matter of the system that a program runs on, so a program is given them.
-/

namespace TextTemplate

/-- Why a codec gives no text. -/
inductive CodecFault where
  /-- The bytes are none of the codec's; its words about them. -/
  | undecodable (message : String)
  /-- Decoding raises an exception of another kind. -/
  | raised (u : Unforeseen)
  deriving Repr, DecidableEq

/-- A codec: the characters that bytes write. -/
abbrev Codec := List UInt8 → Except CodecFault (List Char)

/-- The codecs of a system by their names, or what it raises about a name that is none of one. -/
abbrev Codecs := String → Except Unforeseen Codec

namespace Codecs

/-- No codec has the name. -/
def unknown (name : String) : Unforeseen :=
  .ofMessage "LookupError" ("unknown encoding: " ++ name)

/-- The codecs of the encodings that are described here. -/
def basic : Codecs := fun name =>
  match Text.Encoding.ofName? name with
  | none => .error (unknown name)
  | some encoding => .ok fun bytes =>
    (Text.decode encoding bytes).mapError fun fault => .undecodable fault.message

end Codecs

end TextTemplate
