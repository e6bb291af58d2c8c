/-!
# Reading bytes as text

UTF-8 is read strictly: overlong forms, surrogates and numbers above the last code point are
refused. The lead byte fixes how many bytes follow and the range of the first of them. A refused
text names the bytes of the sequence that were good so far and why it could not go on.

## Main definitions

* `decode` — the characters of a byte sequence, or where and why it is not UTF-8
* `DecodeFault.message` — the description of a refused sequence
* `unifyNewlines` — a text with every line end written as one line feed
-/

namespace Treewalk.Text

/-- Why a byte sequence is refused. -/
inductive DecodeReason where
  | badStart
  | badContinuation
  | truncated
deriving DecidableEq, Repr

/-- A refused sequence: the offsets it covers, its first byte and the reason. -/
structure DecodeFault where
  start : Nat
  stop : Nat
  firstByte : UInt8
  reason : DecodeReason
deriving DecidableEq, Repr

/-- What a lead byte announces: the number of bytes to follow, the range of the first of them and
the bits that the lead byte itself contributes. -/
structure Lead where
  follow : Nat
  low : Nat
  high : Nat
  bits : Nat

/-- The announcement of a lead byte, if it is one. -/
def lead? (byte : UInt8) : Option Lead :=
  let b := byte.toNat
  if b < 0x80 then some ⟨0, 0x80, 0xBF, b⟩
  else if b < 0xC2 then none
  else if b < 0xE0 then some ⟨1, 0x80, 0xBF, b - 0xC0⟩
  else if b = 0xE0 then some ⟨2, 0xA0, 0xBF, 0⟩
  else if b = 0xED then some ⟨2, 0x80, 0x9F, 0xD⟩
  else if b < 0xF0 then some ⟨2, 0x80, 0xBF, b - 0xE0⟩
  else if b = 0xF0 then some ⟨3, 0x90, 0xBF, 0⟩
  else if b < 0xF4 then some ⟨3, 0x80, 0xBF, b - 0xF0⟩
  else if b = 0xF4 then some ⟨3, 0x80, 0x8F, 4⟩
  else none

/-- Where the bytes after a lead byte end: the number read, and the code point or the reason. -/
def readFollowing : (follow low high bits : Nat) → List UInt8 → Nat × Except DecodeReason Nat
  | 0, _, _, bits, _ => (0, .ok bits)
  | _ + 1, _, _, _, [] => (0, .error .truncated)
  | follow + 1, low, high, bits, byte :: rest =>
    if low ≤ byte.toNat ∧ byte.toNat ≤ high then
      let (count, result) := readFollowing follow 0x80 0xBF (bits * 64 + (byte.toNat - 0x80)) rest
      (count + 1, result)
    else (0, .error .badContinuation)

/-- The characters of the bytes from an offset on. -/
def decodeFrom (offset : Nat) (bytes : List UInt8) : Except DecodeFault (List Char) :=
  match bytes with
  | [] => .ok []
  | byte :: rest =>
    match lead? byte with
    | none => .error ⟨offset, offset + 1, byte, .badStart⟩
    | some lead =>
      match readFollowing lead.follow lead.low lead.high lead.bits rest with
      | (count, .error reason) => .error ⟨offset, offset + 1 + count, byte, reason⟩
      | (count, .ok code) =>
        match decodeFrom (offset + 1 + count) (rest.drop count) with
        | .ok chars => .ok (Char.ofNat code :: chars)
        | .error fault => .error fault
termination_by bytes.length

/-- The characters of a byte sequence, or where and why it is not UTF-8. -/
def decode (bytes : List UInt8) : Except DecodeFault (List Char) :=
  decodeFrom 0 bytes

/-- The words for a reason. -/
def DecodeReason.message : DecodeReason → String
  | .badStart => "invalid start byte"
  | .badContinuation => "invalid continuation byte"
  | .truncated => "unexpected end of data"

/-- The description of a refused sequence; a single byte is named by its value. -/
def DecodeFault.message (fault : DecodeFault) : String :=
  let reason := fault.reason.message
  if fault.stop = fault.start + 1 then
    let b := fault.firstByte.toNat
    let byte := String.ofList [Nat.digitChar (b / 16), Nat.digitChar (b % 16)]
    s!"'utf-8' codec can't decode byte 0x{byte} in position {fault.start}: {reason}"
  else
    s!"'utf-8' codec can't decode bytes in position {fault.start}-{fault.stop - 1}: {reason}"

/-- A text with every line end written as one line feed. -/
def unifyNewlines : List Char → List Char
  | [] => []
  | '\r' :: '\n' :: rest => '\n' :: unifyNewlines rest
  | '\r' :: rest => '\n' :: unifyNewlines rest
  | c :: rest => c :: unifyNewlines rest

end Treewalk.Text
