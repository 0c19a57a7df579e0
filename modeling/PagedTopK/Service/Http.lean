import PagedTopK.Service.Endpoint
import PagedTopK.Service.Transport

set_option autoImplicit false

/-!
# Scripted services

A service that can be run without a network. What it does on each connection is given as a list;
after that it closes every execution with an empty last page. It makes for one transport among
others.

## Main definitions

* `HttpAnswer` — what the service does on a connection.
* `HttpAnswer.report` — how a post fares there.
* `HttpService` — where the service is and what it does.
* `HttpService.replies` — what comes back for posts of a client.
* `HttpService.received` — what the service gets of them.
* `HttpService.transport` — the transport that leads to the service.
-/

namespace PagedTopK

/-- **What the service does on a connection.** -/
inductive HttpAnswer where
  /-- It refuses the connection. -/
  | refuse
  /-- It answers with a status and a body. -/
  | respond (status : Nat) (body : List UInt8)
deriving DecidableEq

/-- **A service**: where it is, and what it does on one connection after the other. -/
structure HttpService where
  /-- The host and the port. -/
  authority : String
  /-- What it does on the first connections. -/
  answers : List HttpAnswer
deriving DecidableEq

namespace HttpAnswer

/-- The longest body of an error, in bytes, that is passed on. -/
def maxErrorBody : Nat := 10485760

/-- The body with which an execution is closed. -/
def closingBody : String := "\x7b\"bindings\":[],\"next\":null\x7d"

/-- The answer that closes an execution. -/
def closing : HttpAnswer := respond 200 (Utf8.encode closingBody.toList)

/-- Whether an answer with a status has a body at all. -/
def hasBody (status : Nat) : Bool := status != 204 && status != 304

/-- **How a post fares.** A status that does not have three digits is no answer. From status 400 on
the body is the detail of an error, its faults replaced; below that it must be UTF-8. -/
def report : HttpAnswer → HttpReport
  | refuse => .failed "connection refused"
  | respond status sent =>
    let body := if hasBody status then sent else []
    if status < 100 ∨ 999 < status then .failed "bad status"
    else if 400 ≤ status then
      .status status
        (if maxErrorBody < body.length then none else some (String.ofList (Utf8.lossy body)))
    else
      match Utf8.strict? body with
      | some cs => .response (String.ofList cs)
      | none => .broken "stream did not contain valid UTF-8"

end HttpAnswer

namespace HttpService

/-- What a client asks the service for, if the client's endpoint is an address of the service. A
client that does not wait at all gets no connection. -/
def target? (s : HttpService) (client : HttpClient) : Option String :=
  (Endpoint.parse? client.endpoint).bind fun e =>
    if e.authority = s.authority.toList ∧ 0 < client.timeout then some (String.ofList e.target)
    else none

/-- The answers to a number of posts. -/
def answersTo (s : HttpService) (count : Nat) : List HttpAnswer :=
  (s.answers ++ List.replicate count HttpAnswer.closing).take count

/-- **How a number of posts of a client fare.** -/
def reports (s : HttpService) (client : HttpClient) (count : Nat) : List HttpReport :=
  match s.target? client with
  | some _ => (s.answersTo count).map HttpAnswer.report
  | none => List.replicate count (.failed "no connection")

/-- **What comes back for posts of a client.** -/
def replies (s : HttpService) (client : HttpClient) (count : Nat) : List Reply :=
  (s.reports client count).map client.reply

/-- **What the service gets of posts of a client**: those whose connection it does not refuse. -/
def received (s : HttpService) (client : HttpClient) (bodies : List String) : List Received :=
  match s.target? client with
  | some target =>
    ((s.answersTo bodies.length).zip bodies).filterMap fun
      | (.refuse, _) => none
      | (.respond _ _, body) => some ⟨target, body⟩
  | none => []

/-- How many posts are answered as listed, and one more, which closes an execution. -/
def rounds (s : HttpService) : Nat := s.answers.length + 1

/-- **The transport that leads to a service.** -/
def transport (s : HttpService) : Transport where
  replies client := s.replies client s.rounds
  received := s.received

end HttpService

end PagedTopK
