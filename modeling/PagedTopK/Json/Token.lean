import PagedTopK.Binary64.Layout
import PagedTopK.Json.Numeral

set_option autoImplicit false

/-!
# JSON tokens

The text of a JSON value is a sequence of tokens. A token that is well formed but stands for no
value, such as a numeral beyond every double, is kept apart from text that is no token at all.

## Main definitions

* `Json.Scalar` — a token that writes a value by itself.
* `Json.Token` — scalars, brackets and separators.
* `Json.Token.text` — how a token is written.
* `Layout.json` — how doubles are written.
-/

namespace PagedTopK

/-- **The layout of doubles in JSON**: exponents below `1e-5` and from `1e16` on, with a plus
sign. -/
def Layout.json : Layout where
  positional e := -5 ≤ e && e < 16
  plusSign := true
  wholeFraction := true
  tie := .toEven

namespace Json

/-- **A token that writes a value by itself.** -/
inductive Scalar where
  /-- The word `null`. -/
  | null
  /-- The word `true` or `false`. -/
  | bool (value : Bool)
  /-- A numeral that writes an integer. -/
  | integer (value : Int)
  /-- A numeral that writes a double. -/
  | double (value : Binary64)
  /-- A numeral that exceeds every double. -/
  | tooGreat
  /-- A quoted text. -/
  | text (value : String)
  /-- A quoted text with half of a surrogate pair. -/
  | loneSurrogate
deriving DecidableEq

/-- **A token.** -/
inductive Token where
  /-- A scalar. -/
  | scalar (value : Scalar)
  /-- `[` -/
  | openArray
  /-- `]` -/
  | closeArray
  /-- An opening brace. -/
  | openObject
  /-- A closing brace. -/
  | closeObject
  /-- `:` -/
  | colon
  /-- `,` -/
  | comma
  /-- Text that is no token; what follows it is not looked at. -/
  | invalid
deriving DecidableEq

/-! ## Writing -/

/-- A hexadecimal digit in lower case. -/
def hexDigit (n : Nat) : Char := Nat.digitChar n

/-- **How a character of a text is written**: quotes, backslashes and control characters are
escaped. -/
def escaped (c : Char) : List Char :=
  if c = '"' then ['\\', '"']
  else if c = '\\' then ['\\', '\\']
  else if c = '\x08' then ['\\', 'b']
  else if c = '\x0c' then ['\\', 'f']
  else if c = '\n' then ['\\', 'n']
  else if c = '\r' then ['\\', 'r']
  else if c = '\t' then ['\\', 't']
  else if c.toNat < 0x20 then
    ['\\', 'u', '0', '0', hexDigit (c.toNat / 16), hexDigit (c.toNat % 16)]
  else [c]

/-- A text in quotes. -/
def quoted (s : String) : List Char :=
  '"' :: s.toList.flatMap escaped ++ ['"']

/-- **How a scalar is written.** What stands for no value is written as null, and so is a double
that is not finite. -/
def Scalar.chars : Scalar → List Char
  | null => "null".toList
  | bool true => "true".toList
  | bool false => "false".toList
  | integer i => (Digits.intText i).toList
  | double x => if x.isFinite then Layout.json.write x else "null".toList
  | text s => quoted s
  | tooGreat | loneSurrogate => "null".toList

/-- **How a token is written.** -/
def Token.chars : Token → List Char
  | scalar s => s.chars
  | openArray => ['[']
  | closeArray => [']']
  | openObject => ['{']
  | closeObject => ['}']
  | colon => [':']
  | comma => [',']
  | invalid => []

end Json

end PagedTopK
