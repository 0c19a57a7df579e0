import PagedTopK.Continuation
import PagedTopK.Query.Error
import PagedTopK.Service.Response
import PagedTopK.Strategy.Selector

set_option autoImplicit false

/-!
# Failures of an execution

Everything that can end an execution without results.

## Main definitions

* `TransportError`, `ProtocolError` — what can go wrong on the way, and with what arrives.
* `Reply` — what comes back for a request.
* `Failure` — the four kinds of failure, each with its cause.
* `Failure.message` — the wording.
-/

namespace PagedTopK

/-- **Why no response arrives.** -/
inductive TransportError where
  /-- The service answers with a status of 400 or more. -/
  | status (endpoint : String) (code : Nat) (detail : String)
  /-- No connection can be made. -/
  | unreachable (endpoint : String) (reason : String)
  /-- The response cannot be read. -/
  | unread (reason : String)
  /-- All replies have been used up. -/
  | noReply
  /-- Anything else, in words. -/
  | other (text : String)
deriving DecidableEq

/-- The cause for a response that is not UTF-8. -/
def TransportError.notText : TransportError := unread "stream did not contain valid UTF-8"

/-- The wording of a cause. -/
def TransportError.message : TransportError → String
  | status endpoint code detail =>
    endpoint ++ " returned HTTP " ++ Digits.text code ++ ": " ++ detail
  | unreachable endpoint reason => endpoint ++ " unreachable: " ++ reason
  | unread reason => "failed to read response body: " ++ reason
  | noReply => "no scripted response left"
  | other text => text

/-- **What comes back for a request**: a body, or nothing. -/
abbrev Reply := Except TransportError String

/-- **Why what arrives is refused.** -/
inductive ProtocolError where
  /-- The response itself. -/
  | response (cause : ResponseError)
  /-- The token in it. -/
  | token (cause : TokenError)
deriving DecidableEq

/-- The wording of a cause. -/
def ProtocolError.message : ProtocolError → String
  | response cause => cause.message
  | token cause => cause.message

/-- **Why an execution ends without results.** -/
inductive Failure where
  /-- The strategy is misconfigured. -/
  | configuration (cause : ConfigurationError)
  /-- The query cannot be read. -/
  | malformedQuery (cause : QueryError)
  /-- The service breaks the protocol. -/
  | protocol (cause : ProtocolError)
  /-- The service cannot be reached or refuses. -/
  | transport (cause : TransportError)
deriving DecidableEq

/-- The wording of a failure: its kind and its cause. -/
def Failure.message : Failure → String
  | configuration cause => "configuration error: " ++ cause.message
  | malformedQuery cause => "malformed query: " ++ cause.message
  | protocol cause => "protocol error: " ++ cause.message
  | transport cause => "transport error: " ++ cause.message

end PagedTopK
