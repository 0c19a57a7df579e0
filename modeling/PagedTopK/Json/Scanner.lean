import PagedTopK.Json.Token

set_option autoImplicit false

/-!
# From text to JSON tokens

The scanner goes through a text once, character by character. Between tokens white space is
skipped. A numeral ends before the first character that cannot continue it; a word or a quoted text
ends with its last character. The first character that fits nowhere makes an invalid token, and the
scanner looks at nothing after it.

## Main definitions

* `Json.Mode` — what the scanner is in the middle of.
* `Json.Scanner` — the tokens so far and the mode.
* `Json.Scanner.step` — the scanner after one more character.
* `Json.tokenize` — the tokens of a text.
-/

namespace PagedTopK.Json

/-- How far a numeral has come. -/
inductive NumeralPart where
  /-- After the minus sign: a digit must come. -/
  | sign
  /-- After a leading zero: no digit may come. -/
  | zero
  /-- In the whole digits. -/
  | whole
  /-- After the point: a digit must come. -/
  | point
  /-- In the fraction. -/
  | fraction
  /-- After the letter of the exponent: a sign or a digit must come. -/
  | exponentSign
  /-- After the sign of the exponent: a digit must come. -/
  | exponentStart
  /-- In the exponent. -/
  | exponent
deriving DecidableEq

/-- **What the scanner is in the middle of.** Texts, digits and code units are kept in reverse. -/
inductive Mode where
  /-- Nothing. -/
  | between
  /-- A word: the letters that must come, and the scalar. -/
  | word (rest : List Char) (value : Scalar)
  /-- A numeral. -/
  | numeral (part : NumeralPart) (soFar : Numeral)
  /-- A quoted text. -/
  | quoted (units : List Nat)
  /-- An escape in a quoted text. -/
  | escape (units : List Nat)
  /-- Hexadecimal digits in a quoted text: the value so far and how many must come. -/
  | hex (units : List Nat) (value : Nat) (missing : Nat)
  /-- An invalid token. -/
  | stopped
deriving DecidableEq

/-- **The tokens so far**, in reverse, and the mode. -/
structure Scanner where
  /-- The tokens so far, the last one first. -/
  tokens : List Token
  /-- What the scanner is in the middle of. -/
  mode : Mode
deriving DecidableEq

/-! ## Quoted texts -/

/-- Whether a code unit is the first half of a surrogate pair. -/
def isHighSurrogate (n : Nat) : Bool := 0xD800 ≤ n && n < 0xDC00

/-- Whether a code unit is the second half of a surrogate pair. -/
def isLowSurrogate (n : Nat) : Bool := 0xDC00 ≤ n && n < 0xE000

/-- Put a code unit before the characters that follow it; `low` is a second half that waits for its
first half. -/
def joinUnit : Option (List Char × Option Nat) → Nat → Option (List Char × Option Nat)
  | some (cs, none), n =>
    if isLowSurrogate n then some (cs, some n)
    else if isHighSurrogate n then none
    else some (Char.ofNat n :: cs, none)
  | some (cs, some low), n =>
    if isHighSurrogate n then
      some (Char.ofNat (0x10000 + (n - 0xD800) * 0x400 + (low - 0xDC00)) :: cs, none)
    else none
  | none, _ => none

/-- **The scalar of a quoted text**, from its code units in reverse. -/
def textOfUnits (units : List Nat) : Scalar :=
  match units.foldl joinUnit (some ([], none)) with
  | some (cs, none) => .text (String.ofList cs)
  | _ => .loneSurrogate

/-- The value of a hexadecimal digit. -/
def hexValue? (c : Char) : Option Nat :=
  if c.isDigit then some (c.toNat - '0'.toNat)
  else if 'a' ≤ c ∧ c ≤ 'f' then some (c.toNat - 'a'.toNat + 10)
  else if 'A' ≤ c ∧ c ≤ 'F' then some (c.toNat - 'A'.toNat + 10)
  else none

/-- The character that an escape of one letter stands for. -/
def simpleEscape? : Char → Option Char
  | '"' => some '"'
  | '\\' => some '\\'
  | '/' => some '/'
  | 'b' => some '\x08'
  | 'f' => some '\x0c'
  | 'n' => some '\n'
  | 'r' => some '\r'
  | 't' => some '\t'
  | _ => none

/-! ## Numerals -/

/-- **A numeral after one more character**, if the character continues it. -/
def continueNumeral? (part : NumeralPart) (n : Numeral) (c : Char) :
    Option (NumeralPart × Numeral) :=
  let whole := some (.whole, { n with whole := c :: n.whole })
  let point := some (.point, n)
  let scaled := some (.exponentSign, { n with scaled := true })
  let exponent := some (.exponent, { n with exponent := c :: n.exponent })
  match part with
  | .sign =>
    if c = '0' then some (.zero, { n with whole := [c] }) else if c.isDigit then whole else none
  | .zero => if c = '.' then point else if c = 'e' ∨ c = 'E' then scaled else none
  | .whole =>
    if c.isDigit then whole
    else if c = '.' then point else if c = 'e' ∨ c = 'E' then scaled else none
  | .point | .fraction =>
    if c.isDigit then some (.fraction, { n with fraction := c :: n.fraction })
    else if part = .fraction ∧ (c = 'e' ∨ c = 'E') then scaled else none
  | .exponentSign =>
    if c = '+' ∨ c = '-' then some (.exponentStart, { n with exponentNegative := c == '-' })
    else if c.isDigit then exponent else none
  | .exponentStart | .exponent => if c.isDigit then exponent else none

/-- Whether a numeral may end here. -/
def NumeralPart.mayEnd : NumeralPart → Bool
  | zero | whole | fraction | exponent => true
  | _ => false

/-- The token of a numeral whose digits are kept in reverse, if it may end here before the given
character: after a leading zero no digit may come. -/
def numeralToken (part : NumeralPart) (n : Numeral) (next : Option Char) : Token :=
  if part.mayEnd && !(part == .zero && next.any Char.isDigit) then
    let n := { n with
      whole := n.whole.reverse, fraction := n.fraction.reverse, exponent := n.exponent.reverse }
    match n.number? with
    | some (.integer i) => .scalar (.integer i)
    | some (.double x) => .scalar (.double x)
    | none => .scalar .tooGreat
  else .invalid

/-! ## The scanner -/

namespace Scanner

/-- The scanner before the first character. -/
def start : Scanner := ⟨[], .between⟩

/-- Add a token and change the mode. -/
def emit (s : Scanner) (t : Token) (mode : Mode) : Scanner := ⟨t :: s.tokens, mode⟩

/-- The scanner after a character between tokens. -/
def begin (s : Scanner) (c : Char) : Scanner :=
  match c with
  | ' ' | '\n' | '\t' | '\r' => { s with mode := .between }
  | '[' => s.emit .openArray .between
  | ']' => s.emit .closeArray .between
  | '{' => s.emit .openObject .between
  | '}' => s.emit .closeObject .between
  | ':' => s.emit .colon .between
  | ',' => s.emit .comma .between
  | '"' => { s with mode := .quoted [] }
  | 'n' => { s with mode := .word ['u', 'l', 'l'] .null }
  | 't' => { s with mode := .word ['r', 'u', 'e'] (.bool true) }
  | 'f' => { s with mode := .word ['a', 'l', 's', 'e'] (.bool false) }
  | '-' => { s with mode := .numeral .sign ⟨true, [], [], false, false, []⟩ }
  | _ =>
    match continueNumeral? .sign ⟨false, [], [], false, false, []⟩ c with
    | some (part, n) => { s with mode := .numeral part n }
    | none => s.emit .invalid .stopped

/-- The scanner after a token, stopped if the token is invalid. -/
def afterToken (s : Scanner) (t : Token) : Scanner :=
  s.emit t (if t = .invalid then .stopped else .between)

/-- **The scanner after one more character.** -/
def step (s : Scanner) (c : Char) : Scanner :=
  match s.mode with
  | .between => s.begin c
  | .word rest value =>
    match rest with
    | [last] =>
      if c = last then s.emit (.scalar value) .between else s.emit .invalid .stopped
    | r :: more =>
      if c = r then { s with mode := .word more value } else s.emit .invalid .stopped
    | [] => s.emit .invalid .stopped
  | .numeral part n =>
    match continueNumeral? part n c with
    | some (part, n) => { s with mode := .numeral part n }
    | none =>
      let ended := s.afterToken (numeralToken part n (some c))
      if ended.mode = .stopped then ended else ended.begin c
  | .quoted units =>
    if c = '"' then s.emit (.scalar (textOfUnits units)) .between
    else if c = '\\' then { s with mode := .escape units }
    else if c.toNat < 0x20 then s.emit .invalid .stopped
    else { s with mode := .quoted (c.toNat :: units) }
  | .escape units =>
    if c = 'u' then { s with mode := .hex units 0 4 }
    else match simpleEscape? c with
      | some d => { s with mode := .quoted (d.toNat :: units) }
      | none => s.emit .invalid .stopped
  | .hex units value missing =>
    match hexValue? c with
    | some d =>
      let value := 16 * value + d
      if missing ≤ 1 then { s with mode := .quoted (value :: units) }
      else { s with mode := .hex units value (missing - 1) }
    | none => s.emit .invalid .stopped
  | .stopped => s

/-- The tokens in order, once the text is at its end. -/
def finish (s : Scanner) : List Token :=
  match s.mode with
  | .between | .stopped => s.tokens.reverse
  | .numeral part n => (numeralToken part n none :: s.tokens).reverse
  | _ => (.invalid :: s.tokens).reverse

end Scanner

/-- **The tokens of a text.** -/
def tokenize (cs : List Char) : List Token := (cs.foldl Scanner.step Scanner.start).finish

end PagedTopK.Json
