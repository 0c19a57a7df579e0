import PagedTopK.Binary64.Layout
import PagedTopK.Text.Blank

set_option autoImplicit false

/-!
# Ranking selectors

A request names the ranking operator that the service is to use. The selector of the shared ranking
carries a refresh rate, written with the fewest digits that read back.

## Main definitions

* `ConfigurationError` — why a strategy or a selector is refused.
* `Selector` — the ranking operators of the service.
* `Selector.text`, `Selector.parse` — their wire form.
-/

namespace PagedTopK

/-- **Why a configuration is refused.** -/
inductive ConfigurationError where
  /-- No strategy has the name. -/
  | unknownStrategy (name : String) (known : List String)
  /-- A refresh rate is negative or not finite. -/
  | badRefreshRate (rate : Binary64)
  /-- A strategy without refresh rate is given one. -/
  | needlessRefreshRate (name : String)
  /-- No selector has the text. -/
  | unknownSelector (text : String)
deriving DecidableEq

/-- The wording of a cause. -/
def ConfigurationError.message : ConfigurationError → String
  | unknownStrategy name known =>
    "unknown strategy `" ++ name ++ "`; expected one of: " ++ String.intercalate ", " known
  | badRefreshRate rate =>
    "refresh rate MUST be a finite non-negative number, got " ++
      String.ofList (Layout.message.write rate)
  | needlessRefreshRate name => "strategy `" ++ name ++ "` does not accept a refresh rate"
  | unknownSelector text => "unknown topkStrategy `" ++ text ++ "`"

/-- **Whether a number is a refresh rate**: finite, and not below zero. Negative zero is a rate. -/
def Binary64.isRate (x : Binary64) : Bool := x.isFinite && !x.isBelowZero

/-- **The ranking operator that a request asks for.** -/
inductive Selector where
  /-- The service ranks alone. -/
  | server
  /-- The service prunes by a threshold that it is sent. -/
  | partialRanking
  /-- Both sides rank, and the threshold is refreshed at a rate. -/
  | shared (rate : Binary64)
deriving DecidableEq

namespace Selector

/-- How the text of a shared ranking begins. -/
def sharedStart : String := "ClientServer-"

/-- **The text of a selector** in a request. -/
def text : Selector → String
  | server => "topk_server"
  | partialRanking => "partial_topk"
  | shared rate => sharedStart ++ String.ofList (Layout.selector.write rate)

/-- The refresh rate of a selector, if it has one. -/
def rate? : Selector → Option Binary64
  | shared rate => some rate
  | _ => none

/-- **The selector that a text writes.** -/
def parse (text : String) : Except ConfigurationError Selector :=
  if text = "topk_server" then .ok server
  else if text = "partial_topk" then .ok partialRanking
  else
    let rate? := (Text.stripStart? sharedStart.toList text.toList).bind Binary64.ofText?
    match rate?.filter Binary64.isRate with
    | some rate => .ok (shared rate)
    | none => .error (.unknownSelector text)

end Selector

end PagedTopK
