import Shebang.Span
import Shebang.Text.Utf8

/-!
Encodings of texts as bytes, and the byte offsets of a span in an encoded text.
-/

namespace Shebang

inductive Encoding where
  | utf8
  /-- The low byte of a unit comes first. -/
  | utf16Little
  /-- As `utf16Little`, behind a byte order mark. -/
  | utf16
  | utf32Big
  | latin1
  | ascii
  deriving DecidableEq, Repr

inductive EncodingError where
  | unknownEncoding
  | unencodable
  deriving DecidableEq, Repr

namespace Encoding

def ofName? (name : Text) : Option Encoding :=
  match String.ofList (name.lower.map fun c => if c = '_' ∨ c = ' ' then '-' else c) with
  | "utf-8" | "utf8" => some .utf8
  | "utf-16-le" | "utf-16le" => some .utf16Little
  | "utf-16" | "utf16" => some .utf16
  | "utf-32-be" | "utf-32be" => some .utf32Big
  | "latin-1" | "latin1" | "iso-8859-1" | "iso8859-1" => some .latin1
  | "ascii" | "us-ascii" => some .ascii
  | _ => none

def units16 (c : Char) : List Nat :=
  let n := c.toNat
  if n < 0x10000 then [n]
  else [0xD800 + (n - 0x10000) / 0x400, 0xDC00 + (n - 0x10000) % 0x400]

/-- The bytes of one character; `none` if the encoding has none for it. -/
def encodeChar? (e : Encoding) (c : Char) : Option Bytes :=
  let n := c.toNat
  match e with
  | .utf8 => some (Utf8.encodeChar c)
  | .utf16Little | .utf16 =>
    some ((units16 c).flatMap fun u => [(u % 0x100).toUInt8, (u / 0x100).toUInt8])
  | .utf32Big => some [0, (n / 0x10000).toUInt8, (n / 0x100 % 0x100).toUInt8, (n % 0x100).toUInt8]
  | .latin1 => if n < 0x100 then some [n.toUInt8] else none
  | .ascii => if n < 0x80 then some [n.toUInt8] else none

def byteOrderMark : Encoding → Bytes
  | .utf16 => [0xFF, 0xFE]
  | _ => []

def encode (e : Encoding) (t : Text) : Except EncodingError Bytes :=
  match t.mapM e.encodeChar? with
  | none => .error .unencodable
  | some bytes => .ok (e.byteOrderMark ++ bytes.flatten)

/-- The length of the text before the span and of the text in the span, each encoded by itself. -/
def byteRange (e : Encoding) (s : Span) (source : Text) : Except EncodingError (Nat × Nat) := do
  let before ← e.encode (source.take s.start)
  let within ← e.encode (s.text source)
  pure (before.length, before.length + within.length)

end Encoding

end Shebang
