import Shebang.Text

/-!
UTF-8. Decoding refuses overlong forms, surrogates and numbers above the last code point, and says
where the first bad sequence stands and what is wrong with it.
-/

namespace Shebang

abbrev Bytes := List UInt8

namespace Utf8

/-- Two-byte forms start at 0xC0, three-byte forms at 0xE0, four-byte forms at 0xF0; the bytes after
the first carry six bits each. -/
def encodeChar (c : Char) : Bytes :=
  let n := c.toNat
  if n < 0x80 then [n.toUInt8]
  else if n < 0x800 then [(0xC0 + n / 0x40).toUInt8, (0x80 + n % 0x40).toUInt8]
  else if n < 0x10000 then
    [(0xE0 + n / 0x1000).toUInt8, (0x80 + n / 0x40 % 0x40).toUInt8, (0x80 + n % 0x40).toUInt8]
  else
    [(0xF0 + n / 0x40000).toUInt8, (0x80 + n / 0x1000 % 0x40).toUInt8,
      (0x80 + n / 0x40 % 0x40).toUInt8, (0x80 + n % 0x40).toUInt8]

def encode (t : Text) : Bytes := t.flatMap encodeChar

inductive Fault where
  | invalidStart
  | invalidContinuation
  | unexpectedEnd
  deriving DecidableEq, Repr

def Fault.message : Fault → Text
  | .invalidStart => "invalid start byte"
  | .invalidContinuation => "invalid continuation byte"
  | .unexpectedEnd => "unexpected end of data"

/-- The bytes of a sequence that is no character, and the offset of the first of them. -/
structure DecodeError where
  fault : Fault
  position : Nat
  sequence : Bytes
  deriving DecidableEq, Repr

def DecodeError.message (e : DecodeError) : Text :=
  let place : Text :=
    match e.sequence with
    | [b] => "byte 0x" ++ hexByte b ++ " in position " ++ Text.ofNat e.position
    | bs => "bytes in position " ++ Text.ofNat e.position ++ "-" ++
        Text.ofNat (e.position + bs.length - 1)
  "'utf-8' codec can't decode " ++ place ++ ": " ++ e.fault.message
where
  hexByte (b : UInt8) : Text := [Nat.digitChar (b.toNat / 16), Nat.digitChar (b.toNat % 16)]

def isTail (b : UInt8) : Bool := 0x80 ≤ b && b ≤ 0xBF

/-- The bytes that may follow the first byte `a` of a form of three or four bytes. -/
def isSecond (a b : UInt8) : Bool :=
  (if a = 0xE0 then 0xA0 else if a = 0xF0 then 0x90 else 0x80) ≤ b &&
  b ≤ (if a = 0xED then 0x9F else if a = 0xF4 then 0x8F else 0xBF)

def char2 (a b : UInt8) : Char := Char.ofNat ((a.toNat - 0xC0) * 0x40 + (b.toNat - 0x80))

def char3 (a b c : UInt8) : Char :=
  Char.ofNat ((a.toNat - 0xE0) * 0x1000 + (b.toNat - 0x80) * 0x40 + (c.toNat - 0x80))

def char4 (a b c d : UInt8) : Char :=
  Char.ofNat ((a.toNat - 0xF0) * 0x40000 + (b.toNat - 0x80) * 0x1000 + (c.toNat - 0x80) * 0x40 +
    (d.toNat - 0x80))

def decodeFrom (pos : Nat) : Bytes → Except DecodeError Text
  | [] => .ok []
  | a :: afterA =>
    if a < 0x80 then (Char.ofNat a.toNat :: ·) <$> decodeFrom (pos + 1) afterA
    else if a < 0xC2 || 0xF4 < a then .error ⟨.invalidStart, pos, [a]⟩
    else match afterA with
      | [] => .error ⟨.unexpectedEnd, pos, [a]⟩
      | b :: afterB =>
        if a < 0xE0 then
          if isTail b then (char2 a b :: ·) <$> decodeFrom (pos + 2) afterB
          else .error ⟨.invalidContinuation, pos, [a]⟩
        else if !isSecond a b then .error ⟨.invalidContinuation, pos, [a]⟩
        else match afterB with
          | [] => .error ⟨.unexpectedEnd, pos, [a, b]⟩
          | c :: afterC =>
            if !isTail c then .error ⟨.invalidContinuation, pos, [a, b]⟩
            else if a < 0xF0 then (char3 a b c :: ·) <$> decodeFrom (pos + 3) afterC
            else match afterC with
              | [] => .error ⟨.unexpectedEnd, pos, [a, b, c]⟩
              | d :: afterD =>
                if isTail d then (char4 a b c d :: ·) <$> decodeFrom (pos + 4) afterD
                else .error ⟨.invalidContinuation, pos, [a, b, c]⟩

def decode (bytes : Bytes) : Except DecodeError Text := decodeFrom 0 bytes

end Utf8

end Shebang
