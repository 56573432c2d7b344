import Playbook.Http.Exchange
import Playbook.Outbox.Sink

/-!
# `Playbook.Outbox.Collector` — sending batches to a collector

A collector takes batches by HTTP, each under the address of its run. A batch that it does not take is a
failure, which the outbox does not try to mend.

## Contents
- **Requests.** `Collector.endpoint`, `Collector.request`.
- **Sink.** `Collector.deliver`, `Sink.collector`.
-/

namespace Playbook

namespace Collector

/-- The header with the token. -/
def tokenHeader : String := "x-procflow-token"

/-- The header with the signature. -/
def signatureHeader : String := "x-procflow-signature"

/-- The address for the batches of a run, given the collector's address. -/
def endpoint (url runId : String) : String :=
  String.ofList (Text.dropEndWhile (· == '/') url.toList) ++ "/runs/" ++ runId ++ "/events"

/-- A header that is left out when it would be empty. -/
def headerUnlessEmpty (name value : String) : List (String × String) :=
  if value = "" then [] else [(name, value)]

/-- The request that brings a batch. -/
def request (url : String) (b : SignedBatch) : Http.Request where
  method := "POST"
  url := endpoint url b.runId
  headers := [("content-type", "application/json")] ++ headerUnlessEmpty tokenHeader b.token ++
    headerUnlessEmpty signatureHeader b.signature
  body := b.body

/-- What a failure to deliver says of itself. -/
def operation : String := "buffer::deliver"

/-- What a reply means for the batch. -/
def verdict : Http.Reply → Except Failure Unit
  | .unanswered reason =>
    .error (((Failure.Cause.network ("collector unreachable: " ++ reason)).failure.withOperation
      operation).withSource reason)
  | .answered status chunks broken =>
    if Http.Reply.isSuccess status then .ok ()
    else
      let text := "collector rejected batch (" ++ toString status ++ "): " ++
        Http.Reply.bodyText chunks broken
      .error (((Failure.Cause.delivery text).failure.withOperation operation).withContext "status"
        (toString status))

/-- Send a batch to the collector. -/
def deliver {ρ : Type} (peer : Http.Peer ρ) (url : String) (b : SignedBatch) (s : ρ) :
    Except Failure Unit × ρ :=
  let (reply, s) := peer.exchange (request url b) s
  (verdict reply, s)

end Collector

/-- The sink that sends batches to a collector. -/
def Sink.collector {ρ : Type} (peer : Http.Peer ρ) (url : String) : Sink ρ where
  delay _ _ := 0
  deliver b s := Collector.deliver peer url b s

end Playbook
