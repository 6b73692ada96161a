/-
  Text as bytes.

  * `encode?` fails exactly on text with an unpaired surrogate half.
  * `decode?` accepts exactly the well-formed UTF-8 byte sequences.
-/
import UberPackage.Text

namespace UberPackage

/-- The contents of a file. -/
abbrev Bytes := List UInt8

namespace Utf8

/-- The bytes of characters. -/
def encode (cs : List Char) : Bytes := cs.flatMap String.utf8EncodeChar

/-- The bytes of a text without unpaired halves. -/
def encode? (t : Text) : Option Bytes := t.chars?.map encode

/-- The characters of well-formed bytes. -/
def decode? (bytes : Bytes) : Option (List Char) :=
  (ByteArray.mk bytes.toArray).utf8Decode?.map Array.toList

/-- The text of well-formed bytes. -/
def text? (bytes : Bytes) : Option Text := (decode? bytes).map Text.ofChars

/-- The number of bytes of characters. -/
def size : List Char → Nat
  | [] => 0
  | c :: cs => c.utf8Size + size cs

theorem length_encode (cs : List Char) : (encode cs).length = size cs := by
  induction cs with
  | nil => rfl
  | cons c cs ih =>
    rw [encode] at ih
    rw [encode, size, List.flatMap_cons, List.length_append, ih, String.length_utf8EncodeChar]

theorem encode_append (cs ds : List Char) : encode (cs ++ ds) = encode cs ++ encode ds := by
  simp [encode]

end Utf8

end UberPackage
