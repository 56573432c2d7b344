import Playbook.Text.Utf8

/-!
# `Playbook.Http.Exchange` — requests and their replies

What the library sends to a service is a request, and what it gets back a reply. Who answers is a *peer*; the
library knows nothing else about the network.

## Contents
- **Messages.** `Http.Request`, `Http.Reply`.
- **Peers.** `Http.Peer`; `Http.Peer.nobody` never answers.
-/

namespace Playbook.Http

/-- A request with a text as its body. -/
structure Request where
  method : String
  /-- The address. -/
  url : String
  /-- Headers, their names in lower case. -/
  headers : List (String × String)
  body : String
  deriving DecidableEq, Repr

/-- What comes back for a request. -/
inductive Reply where
  /-- Nothing, for a reason. -/
  | unanswered (reason : String)
  /-- A status and a body in chunks; the body may break off early, for a reason. -/
  | answered (status : Nat) (chunks : List (List UInt8)) (broken : Option String)
  deriving Repr

namespace Reply

/-- Whether a status says that the request was taken well. -/
def isSuccess (status : Nat) : Bool :=
  200 ≤ status && status < 300

/-- The text of a body, empty if it broke off. -/
def bodyText (chunks : List (List UInt8)) (broken : Option String) : String :=
  match broken with
  | none => String.ofList (Text.Utf8.decodeLossy chunks.flatten)
  | some _ => ""

end Reply

/-- Who answers requests; `ρ` is the state of the peer. -/
structure Peer (ρ : Type) where
  /-- Answer a request. -/
  exchange : Request → ρ → Reply × ρ

/-- A peer that never answers. -/
def Peer.nobody : Peer Unit where
  exchange _ _ := (.unanswered "connection refused", ())

end Playbook.Http
