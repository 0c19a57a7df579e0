set_option autoImplicit false

/-!
# UTF-8

Characters as bytes and back. Bytes that belong to no character are grouped as the standard
recommends: the longest start of a well-formed sequence makes one fault, and any other byte makes
one of its own.

## Main definitions

* `Utf8.encode` — the bytes of characters.
* `Utf8.decode` — the characters of bytes, with a mark for every fault.
* `Utf8.strict?` — the characters of bytes without faults.
* `Utf8.lossy` — the characters of bytes, a replacement character for every fault.
* `Utf8.upToFault` — the characters before the first fault.
-/

namespace PagedTopK.Utf8

/-- The bytes of characters. -/
def encode (cs : List Char) : List UInt8 := cs.flatMap String.utf8EncodeChar

/-- **A character of which some bytes have been read**: their bits, how many bytes are to come, and
the range of the next one. -/
structure Pending where
  /-- The bits read so far. -/
  bits : Nat
  /-- How many bytes are to come. -/
  missing : Nat
  /-- The least byte that may come next. -/
  low : Nat
  /-- The greatest byte that may come next. -/
  high : Nat
deriving DecidableEq

/-- What the first byte of a character says. -/
inductive Lead where
  /-- The byte is a character by itself. -/
  | single (c : Char)
  /-- More bytes must come. -/
  | more (pending : Pending)
  /-- No character begins so. -/
  | fault
deriving DecidableEq

/-- **What a first byte says.** The range of the second byte leaves out overlong forms, surrogates
and what lies above U+10FFFF. -/
def lead (b : Nat) : Lead :=
  if b < 0x80 then .single (Char.ofNat b)
  else if b < 0xC2 then .fault
  else if b < 0xE0 then .more ⟨b - 0xC0, 1, 0x80, 0xBF⟩
  else if b < 0xF0 then
    .more ⟨b - 0xE0, 2, if b = 0xE0 then 0xA0 else 0x80, if b = 0xED then 0x9F else 0xBF⟩
  else if b < 0xF5 then
    .more ⟨b - 0xF0, 3, if b = 0xF0 then 0x90 else 0x80, if b = 0xF4 then 0x8F else 0xBF⟩
  else .fault

/-- The characters and faults so far, in reverse, and the character being read. -/
structure Decoder where
  /-- What has been read; a fault is `none`. -/
  done : List (Option Char)
  /-- The character being read. -/
  pending : Option Pending
deriving DecidableEq

namespace Decoder

/-- The decoder after a byte at the start of a character. -/
def begin (done : List (Option Char)) (b : Nat) : Decoder :=
  match lead b with
  | .single c => ⟨some c :: done, none⟩
  | .more p => ⟨done, some p⟩
  | .fault => ⟨none :: done, none⟩

/-- **The decoder after one more byte.** -/
def step (d : Decoder) (byte : UInt8) : Decoder :=
  let b := byte.toNat
  match d.pending with
  | none => begin d.done b
  | some p =>
    if p.low ≤ b ∧ b ≤ p.high then
      let bits := p.bits * 64 + (b - 0x80)
      if p.missing ≤ 1 then ⟨some (Char.ofNat bits) :: d.done, none⟩
      else ⟨d.done, some ⟨bits, p.missing - 1, 0x80, 0xBF⟩⟩
    else begin (none :: d.done) b

/-- What has been read, in order; a character cut off at the end is a fault. -/
def finish (d : Decoder) : List (Option Char) :=
  (match d.pending with
    | none => d.done
    | some _ => none :: d.done).reverse

end Decoder

/-- **The characters of bytes**, a fault being `none`. -/
def decode (bytes : List UInt8) : List (Option Char) :=
  (bytes.foldl Decoder.step ⟨[], none⟩).finish

/-- The characters of bytes, if there is no fault. -/
def strict? (bytes : List UInt8) : Option (List Char) :=
  let items := decode bytes
  if items.all Option.isSome then some (items.filterMap id) else none

/-- The characters of bytes, with a replacement character for every fault. -/
def lossy (bytes : List UInt8) : List Char :=
  (decode bytes).map fun item => item.getD '\uFFFD'

/-- **The characters before the first fault**, with another character in the place of that fault. -/
def upToFault (mark : Char) (bytes : List UInt8) : List Char :=
  let items := decode bytes
  let valid := (items.takeWhile Option.isSome).filterMap id
  if valid.length < items.length then valid ++ [mark] else valid

end PagedTopK.Utf8
