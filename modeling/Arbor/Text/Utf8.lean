import Arbor.Fault

/-!
# UTF-8

Decoding of bytes, with the place and the cause of the first fault, and encoding of texts. A
sequence is a lead byte and up to three tails; the lead settles how many, and for some leads
narrows the range of the first tail so that every character has one encoding and no surrogate has
any.
-/

namespace Arbor.Utf8

/-- A sequence that a lead byte begins: the payload bits of the lead, the number of tails, and the
least and greatest first tail. -/
structure Lead where
  bits : Nat
  tails : Nat
  least : Nat
  greatest : Nat

/-- The sequence that `b` begins, if it is a lead byte. -/
def lead? (b : Nat) : Option Lead :=
  if b < 0x80 then some ⟨b, 0, 0, 0⟩
  else if b < 0xc2 then none
  else if b < 0xe0 then some ⟨b - 0xc0, 1, 0x80, 0xbf⟩
  else if b < 0xf0 then
    some ⟨b - 0xe0, 2, if b = 0xe0 then 0xa0 else 0x80, if b = 0xed then 0x9f else 0xbf⟩
  else if b < 0xf5 then
    some ⟨b - 0xf0, 3, if b = 0xf0 then 0x90 else 0x80, if b = 0xf4 then 0x8f else 0xbf⟩
  else none

/-- The code that `tails` more bytes complete, the first of them within the given range; or the
cause of the fault and the number of tails before it. -/
def readTails (code least greatest read : Nat) :
    Nat → List UInt8 → Except (DecodingFault × Nat) (Nat × List UInt8)
  | 0, bytes => .ok (code, bytes)
  | _ + 1, [] => .error (.unexpectedEnd, read)
  | tails + 1, b :: bytes =>
    if least ≤ b.toNat && b.toNat ≤ greatest then
      readTails (code * 64 + (b.toNat - 0x80)) 0x80 0xbf (read + 1) tails bytes
    else .error (.invalidContinuation, read)

theorem readTails_length_le {code least greatest read tails : Nat} {bytes rest : List UInt8}
    {out : Nat} (h : readTails code least greatest read tails bytes = .ok (out, rest)) :
    rest.length ≤ bytes.length := by
  induction tails generalizing code least greatest read bytes with
  | zero =>
    simp only [readTails, Except.ok.injEq, Prod.mk.injEq] at h
    simp [h.2]
  | succ tails ih =>
    cases bytes with
    | nil => simp [readTails] at h
    | cons b bytes =>
      simp only [readTails] at h
      split at h
      · exact Nat.le_succ_of_le (ih h)
      · simp at h

/-- The characters of `bytes`, which stand `offset` bytes into the text, after those of `read` in
reverse. -/
def decodeFrom (offset : Nat) (bytes : List UInt8) (read : List Char) : Except Fault String :=
  match bytes with
  | [] => .ok (String.ofList read.reverse)
  | first :: more =>
    match lead? first.toNat with
    | none => .error (.undecodable .invalidStart first offset (offset + 1))
    | some lead =>
      match h : readTails lead.bits lead.least lead.greatest 0 lead.tails more with
      | .error (cause, tails) => .error (.undecodable cause first offset (offset + 1 + tails))
      | .ok (code, rest) =>
        have := readTails_length_le h
        decodeFrom (offset + 1 + lead.tails) rest (Char.ofNat code :: read)
termination_by bytes.length

def decode (bytes : List UInt8) : Except Fault String := decodeFrom 0 bytes []

/-- The bytes that encode a text, which must not hold lone surrogates. -/
def encode (t : LooseText) : Except Fault (List UInt8) :=
  match t.dropWhile fun p => !p.isSurrogate with
  | .surrogate first :: rest =>
    let start := (t.takeWhile fun p => !p.isSurrogate).length
    let more := (rest.takeWhile CodePoint.isSurrogate).length
    .error (.unencodable first start (start + 1 + more))
  | _ => .ok (String.ofList (t.filterMap CodePoint.char?)).toUTF8.toList

end Arbor.Utf8
