import PagedTopK.Encoding.Base64
import PagedTopK.Encoding.Utf8
import PagedTopK.Json.Writer
import PagedTopK.Plan.Reader
import PagedTopK.Solution
import PagedTopK.Text.Blank

set_option autoImplicit false

/-!
# Continuation tokens

A token is the base64 form of the JSON text of a plan. It is read within bounds on its length and on
the depth of the plan, and written without any.

## Main definitions

* `TokenError` — why a token is refused.
* `Continuation.decode`, `Continuation.encode` — the plan in a token and the token of a plan.
* `Continuation.withThreshold` — a token whose plan has been given threshold values.
-/

namespace PagedTopK

/-- **Why a token is refused.** -/
inductive TokenError where
  /-- It holds nothing but white space. -/
  | empty
  /-- It is too long. -/
  | tooLong (length : Nat)
  /-- It is not base64. -/
  | base64 (fault : Base64.Fault)
  /-- What it holds is not the text of a plan. -/
  | malformed (cause : Json.ReadError)
  /-- The plan has another operator in the place of the ranking operator. -/
  | unexpectedNode (found : Operator)
deriving DecidableEq

/-- The wording of a fault in a base64 text. -/
def Base64.Fault.message : Base64.Fault → String
  | symbol byte offset =>
    "Invalid symbol " ++ Digits.text byte.toNat ++ ", offset " ++ Digits.text offset ++ "."
  | length count => "Invalid input length: " ++ Digits.text count
  | padding => "Invalid padding"
  | lastSymbol byte offset =>
    "Invalid last symbol " ++ Digits.text byte.toNat ++ ", offset " ++ Digits.text offset ++ "."

namespace Continuation

/-- The greatest length of a token, in bytes. -/
def maxLength : Nat := 1048576

end Continuation

/-- The wording of a cause. -/
def TokenError.message : TokenError → String
  | empty => "continuation token is empty"
  | tooLong length =>
    "continuation token exceeds max length: " ++ Digits.text length ++ " chars (max " ++
      Digits.text Continuation.maxLength ++ ")"
  | base64 fault => "continuation token is not valid base64: " ++ fault.message
  | malformed cause => "continuation token does not hold a plan tree: " ++ cause.message
  | unexpectedNode found =>
    "expected a ranking operator below the wrapper chain, found `" ++ found.name ++ "` node"

namespace Continuation

/-- The plan that a JSON text in bytes writes. Where the bytes are not UTF-8 the text has a
character that no JSON text may have. -/
def planOfBytes (bytes : List UInt8) : Except Json.ReadError Plan :=
  Json.readWith Plan.ofDocument (Utf8.upToFault '\x01' bytes)

/-- **The plan in a token.** White space around the token does not count. -/
def decode (token : String) : Except TokenError Plan :=
  let symbols := Utf8.encode (Text.trim token.toList)
  if symbols = [] then .error .empty
  else if maxLength < symbols.length then .error (.tooLong symbols.length)
  else
    match Base64.decode symbols with
    | .error fault => .error (.base64 fault)
    | .ok bytes =>
      match planOfBytes bytes with
      | .error cause => .error (.malformed cause)
      | .ok plan => .ok plan

/-- **The token of a plan.** -/
def encode (plan : Plan) : String :=
  String.ofList (Base64.encode (Utf8.encode plan.json.compactChars))

/-- A plan whose ranking operator has been given threshold values. -/
def setThreshold (plan : Plan) (threshold : Solution) : Except TokenError Plan :=
  match plan.root.setThreshold threshold.bindings with
  | .ok root => .ok { plan with root }
  | .error found => .error (.unexpectedNode found)

/-- **A token whose plan has been given threshold values.** -/
def withThreshold (token : String) (threshold : Solution) : Except TokenError String := do
  let plan ← decode token
  let changed ← setThreshold plan threshold
  return encode changed

end Continuation

end PagedTopK
