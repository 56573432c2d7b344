import Playbook.Digest.Seal
import Playbook.Failure.Cause
import Playbook.Json.Basic
import Playbook.KeyMap
import Playbook.Text.Search

/-!
# `Playbook.Store.Basic` — stores for texts and records

A store keeps bytes under keys and answers each write with a receipt. A run knows a store only by its
operations, each of which may fail, may change the store's state, and may take time.

## Contents
- **Receipts.** `StoredContent`.
- **Stores.** `ContentStore`.
- **In memory.** `MemoryStore`, and `RefusingStore`, which refuses some of the calls to it.
-/

namespace Playbook

open Digest (Scheme)

/-- The receipt for a write. -/
structure StoredContent where
  /-- Where the bytes are kept. -/
  contentRef : String
  /-- Their digest. -/
  sha256 : String
  /-- Their number. -/
  size : Nat
  /-- Their media type. -/
  mime : String
  deriving DecidableEq, Repr

namespace StoredContent

/-- The receipt for bytes. -/
def of (scheme : Scheme) (contentRef : String) (bytes : List UInt8) (mime : String) :
    StoredContent :=
  ⟨contentRef, String.ofList (Text.Hex.encode (scheme.digest bytes)), bytes.length, mime⟩

/-- A receipt as an object. -/
def toJson (s : StoredContent) : Json :=
  .obj [("contentRef", .str s.contentRef), ("sha256", .str s.sha256), ("size", .nat s.size),
    ("mime", .str s.mime)]

end StoredContent

/-- A call to a store. -/
inductive StoreCall where
  | put (key : String)
  | get (key : String)

/-- The operations of a store whose state is a `κ`. -/
structure ContentStore (κ : Type) where
  /-- Write bytes of a media type under a key. -/
  put : String → List UInt8 → String → κ → Except Failure StoredContent × κ
  /-- Read the bytes under a key. -/
  get : String → κ → Except Failure (Option (List UInt8)) × κ
  /-- How many milliseconds a call takes. -/
  latency : StoreCall → κ → Nat := fun _ _ => 0

/-! ## In memory -/

/-- A store that keeps its bytes in memory: the bytes under each key. -/
abbrev MemoryStore := KeyMap (List UInt8)

namespace MemoryStore

/-- What references to the store begin with. -/
def refPrefix : String := "mem://"

/-- The key that a reference names. -/
def keyOfRef? (contentRef : String) : Option String :=
  (Text.stripPrefix refPrefix.toList contentRef.toList).map String.ofList

/-- The keys, sorted. -/
def keys (s : MemoryStore) : List String :=
  s.map (·.1)

/-- The operations. -/
def operations (scheme : Scheme) : ContentStore MemoryStore where
  put key bytes mime s := (.ok (.of scheme (refPrefix ++ key) bytes mime), s.insert key bytes)
  get key s := (.ok (s.get? key), s)

end MemoryStore

/-- A memory store that refuses some calls. -/
structure RefusingStore where
  /-- The bytes under each key. -/
  content : MemoryStore
  /-- How many writes were asked for. -/
  puts : Nat
  /-- The writes that are refused, by their numbers, counted from one. -/
  refusedPuts : List Nat
  /-- A write is refused if its key contains one of these. -/
  refusedKeys : List String
  /-- Whether all reads are refused. -/
  refusesGets : Bool

namespace RefusingStore

/-- Whether the next write, to a key, is refused. -/
def refusesPut (s : RefusingStore) (key : String) : Bool :=
  s.refusedPuts.contains (s.puts + 1) ||
    s.refusedKeys.any fun part => Text.contains key.toList part.toList

/-- The operations. -/
def operations (scheme : Scheme) : ContentStore RefusingStore where
  put key bytes mime s :=
    let counted := { s with puts := s.puts + 1 }
    if s.refusesPut key then (Failure.raise (.storage ("put refused: " ++ key)), counted)
    else
      let (receipt, content) := (MemoryStore.operations scheme).put key bytes mime s.content
      (receipt, { counted with content })
  get key s :=
    if s.refusesGets then (Failure.raise (.storage ("get refused: " ++ key)), s)
    else (.ok (s.content.get? key), s)

end RefusingStore

end Playbook
