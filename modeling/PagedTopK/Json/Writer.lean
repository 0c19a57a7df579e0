import PagedTopK.Json.Basic
import PagedTopK.Json.Token

set_option autoImplicit false

/-!
# Writing JSON

A value is written as a sequence of tokens. The compact text puts them one after the other; the
indented text puts every item and member on a line of its own.

## Main definitions

* `Json.tokens` — the tokens of a value.
* `Json.compact` — the text without any white space.
* `Json.indented` — the text with two spaces for every open bracket.
-/

namespace PagedTopK.Json

mutual

/-- Put the tokens of a value before others. -/
def emit : Json → List Token → List Token
  | null, rest => .scalar .null :: rest
  | bool b, rest => .scalar (.bool b) :: rest
  | integer i, rest => .scalar (.integer i) :: rest
  | double x, rest => .scalar (.double x) :: rest
  | text s, rest => .scalar (.text s) :: rest
  | array items, rest => .openArray :: emitItems items (.closeArray :: rest)
  | object members, rest => .openObject :: emitMembers members (.closeObject :: rest)

/-- Put the tokens of items, with commas between them, before others. -/
def emitItems : List Json → List Token → List Token
  | [], rest => rest
  | [v], rest => emit v rest
  | v :: w :: more, rest => emit v (.comma :: emitItems (w :: more) rest)

/-- Put the tokens of members, with commas between them, before others. -/
def emitMembers : List (String × Json) → List Token → List Token
  | [], rest => rest
  | [(name, v)], rest => .scalar (.text name) :: .colon :: emit v rest
  | (name, v) :: m :: more, rest =>
    .scalar (.text name) :: .colon :: emit v (.comma :: emitMembers (m :: more) rest)

end

/-- **The tokens of a value.** -/
def tokens (v : Json) : List Token := emit v []

/-- The characters of the compact text. -/
def compactChars (v : Json) : List Char := v.tokens.flatMap Token.chars

/-- **The text without white space.** -/
def compact (v : Json) : String := String.ofList v.compactChars

/-! ## Indented text -/

/-- Whether a token opens a bracket. -/
def Token.opens (t : Token) : Bool := t == .openArray || t == .openObject

/-- Whether a token closes a bracket. -/
def Token.closes (t : Token) : Bool := t == .closeArray || t == .closeObject

/-- A new line, indented by two spaces for every open bracket. -/
def newLine (depth : Nat) : List Char := '\n' :: List.replicate (2 * depth) ' '

/-- **What stands between two tokens** inside `depth` brackets, the second one counted only if it
stays open: a new line after an opening bracket, after a comma and before a closing bracket, but
nothing inside empty brackets. -/
def gap (depth : Nat) (before after : Token) : List Char :=
  if after.closes then (if before.opens then [] else newLine (depth - 1))
  else if before.opens || before == .comma then newLine depth
  else if before == .colon then [' ']
  else []

/-- The indented text of tokens that follow another one inside `depth` brackets. -/
def indentedAfter (depth : Nat) (before : Token) : List Token → List Char
  | [] => []
  | t :: rest =>
    gap depth before t ++ t.chars ++
      indentedAfter (if t.opens then depth + 1 else if t.closes then depth - 1 else depth) t rest

/-- **The indented text.** -/
def indented (v : Json) : String :=
  String.ofList <| match v.tokens with
    | [] => []
    | t :: rest => t.chars ++ indentedAfter (if t.opens then 1 else 0) t rest

end PagedTopK.Json
