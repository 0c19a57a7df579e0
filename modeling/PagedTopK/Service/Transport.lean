import PagedTopK.Failure

set_option autoImplicit false

/-!
# Posts over HTTP

The client posts every request to one endpoint, and never posts one twice. How a post fares is
reported by the library that the client is built on, and depends on the network and on the service:
a connection may be refused, time out or break in the middle of a response, a redirection may lead
nowhere. Nothing is assumed of that. What a report means to the client is said here.

## Main definitions

* `HttpClient` — where posts go and how long they may take.
* `HttpReport` — how a post has fared; `HttpClient.reply` — what comes back for it.
* `Transport` — what comes back for posts, whatever the reason.
-/

namespace PagedTopK

/-- **Where posts go.** -/
structure HttpClient where
  /-- The address. -/
  endpoint : String
  /-- How many seconds to wait for a connection, and for every piece of an answer. -/
  timeout : Nat
deriving DecidableEq

/-- How many seconds to wait unless told otherwise. -/
def HttpClient.defaultTimeout : Nat := 60

/-- **How a post has fared.** -/
inductive HttpReport where
  /-- There is a response, and its body is a text. -/
  | response (body : String)
  /-- There is a response, but its body cannot be read to the end, or is no text. -/
  | broken (reason : String)
  /-- The status is that of an error. Its body is the detail, if it can be read at all. -/
  | status (code : Nat) (detail : Option String)
  /-- There is no response, for some reason. -/
  | failed (reason : String)
deriving DecidableEq

/-- **What comes back for a post** that has fared in some way. -/
def HttpClient.reply (client : HttpClient) : HttpReport → Reply
  | .response body => .ok body
  | .broken reason => .error (.unread reason)
  | .status code detail => .error (.status client.endpoint code (detail.getD ""))
  | .failed reason => .error (.unreachable client.endpoint reason)

/-- **A request as a service gets it.** -/
structure Received where
  /-- The path and the query of the endpoint. -/
  target : String
  /-- The body. -/
  body : String
deriving DecidableEq

/-- **A transport**: what comes back for the posts of a client, one after the other, and what the
services get of their bodies. Any replies may come. -/
structure Transport where
  /-- What comes back. -/
  replies : HttpClient → List Reply
  /-- What the services get of some bodies. -/
  received : HttpClient → List String → List Received

end PagedTopK
