set_option autoImplicit false

/-!
# Base64

Three bytes are written as four symbols of the standard alphabet. One or two bytes at the end are
written as two or three symbols and filled up with padding signs. A text is read only if it is what
writing produces: the padding must be there and the unused bits of the last symbol must be zero.

## Main definitions

* `Base64.encode` — the symbols of bytes.
* `Base64.decode` — the bytes of symbols, or the first fault.
* `Base64.Fault` — why a text is refused.
-/

namespace PagedTopK.Base64

/-! ## Symbols -/

/-- The symbol of six bits: capital letters, small letters, digits, plus and slash. -/
def symbol (n : Nat) : Char :=
  if n < 26 then Char.ofNat (n + 65)
  else if n < 52 then Char.ofNat (n + 71)
  else if n < 62 then Char.ofNat (n - 4)
  else if n = 62 then '+' else '/'

/-- The six bits of a symbol, given by its byte. -/
def value? (b : UInt8) : Option Nat :=
  let n := b.toNat
  if 65 ≤ n ∧ n ≤ 90 then some (n - 65)
  else if 97 ≤ n ∧ n ≤ 122 then some (n - 71)
  else if 48 ≤ n ∧ n ≤ 57 then some (n + 4)
  else if n = 43 then some 62
  else if n = 47 then some 63
  else none

/-- The byte of the padding sign. -/
def padding : UInt8 := 61

/-! ## Writing -/

/-- The symbols of bytes, in reverse, before symbols in reverse. -/
def encodeOnto (written : List Char) : List UInt8 → List Char
  | [] => written
  | [a] =>
    '=' :: '=' :: symbol (a.toNat % 4 * 16) :: symbol (a.toNat / 4) :: written
  | [a, b] =>
    '=' :: symbol (b.toNat % 16 * 4) :: symbol (a.toNat % 4 * 16 + b.toNat / 16) ::
      symbol (a.toNat / 4) :: written
  | a :: b :: c :: rest =>
    encodeOnto (symbol (c.toNat % 64) :: symbol (b.toNat % 16 * 4 + c.toNat / 64) ::
      symbol (a.toNat % 4 * 16 + b.toNat / 16) :: symbol (a.toNat / 4) :: written) rest

/-- **The symbols of bytes.** -/
def encode (bytes : List UInt8) : List Char := (encodeOnto [] bytes).reverse

/-! ## Reading -/

/-- **Why a text is not base64.** -/
inductive Fault where
  /-- A byte is not of the alphabet, or a padding sign stands where none may. -/
  | symbol (byte : UInt8) (offset : Nat)
  /-- One symbol is left over. -/
  | length (count : Nat)
  /-- Padding is missing. -/
  | padding
  /-- The last symbol has bits that belong to no byte. -/
  | lastSymbol (byte : UInt8) (offset : Nat)
deriving DecidableEq

/-- The bytes of symbols, in reverse, before bytes in reverse; symbols left over are dropped. -/
def joinOnto (read : List UInt8) : List Nat → List UInt8
  | a :: b :: c :: d :: rest =>
    joinOnto (UInt8.ofNat (c % 4 * 64 + d) :: UInt8.ofNat (b % 16 * 16 + c / 4) ::
      UInt8.ofNat (a * 4 + b / 16) :: read) rest
  | [a, b, c] => UInt8.ofNat (b % 16 * 16 + c / 4) :: UInt8.ofNat (a * 4 + b / 16) :: read
  | [a, b] => UInt8.ofNat (a * 4 + b / 16) :: read
  | _ => read

/-- **The last group of a text**: at most four bytes. -/
structure Ending where
  /-- The symbols, the last one first. -/
  values : List Nat
  /-- The byte of the last symbol. -/
  last : UInt8
  /-- How many padding signs there are. -/
  signs : Nat
deriving DecidableEq

/-- Read the last group from its byte number `index` on; it begins at `offset` in the text. Padding
may stand only after two symbols, and nothing after padding. -/
def readEnding (offset index : Nat) (soFar : Ending) : List UInt8 → Except Fault Ending
  | [] => .ok soFar
  | b :: rest =>
    if b = padding then
      if index < 2 then .error (.symbol b (offset + index))
      else readEnding offset (index + 1) { soFar with signs := soFar.signs + 1 } rest
    else if 0 < soFar.signs then .error (.symbol padding (offset + soFar.values.length))
    else
      match value? b with
      | none => .error (.symbol b (offset + index))
      | some v =>
        readEnding offset (index + 1) { soFar with values := v :: soFar.values, last := b } rest

/-- The bits of the last symbol that belong to no byte. -/
def unusedBits : List Nat → Nat
  | [last, _] => last % 16
  | [last, _, _] => last % 4
  | _ => 0

/-- The values of the symbols in a text, or the first byte that is none. -/
def readSymbols (bytes : List UInt8) : Except Fault (List Nat) :=
  match bytes.findIdx? fun b => (value? b).isNone with
  | some i => .error (.symbol (bytes.getD i 0) i)
  | none => .ok (bytes.filterMap value?)

/-- **The bytes of a text.** All groups but the last hold four symbols. A stray byte at the very end
is reported before all else. -/
def decode (bytes : List UInt8) : Except Fault (List UInt8) :=
  let n := bytes.length
  let stray := if n % 4 = 1 then
      bytes.getLast?.filter fun b => b ≠ padding ∧ (value? b).isNone
    else none
  match stray with
  | some b => .error (.symbol b (n - 1))
  | none => do
    let offset := (n - 1) / 4 * 4
    let values ← readSymbols (bytes.take offset)
    let ending ← readEnding offset 0 ⟨[], 0, 0⟩ (bytes.drop offset)
    let count := ending.values.length
    if n ≠ 0 ∧ count < 2 then throw (.length (offset + count))
    if (count + ending.signs) % 4 ≠ 0 then throw .padding
    if unusedBits ending.values ≠ 0 then throw (.lastSymbol ending.last (offset + count - 1))
    return (joinOnto (joinOnto [] values) ending.values.reverse).reverse

end PagedTopK.Base64
