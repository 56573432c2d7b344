/-!
# `Playbook.Failure.Kind` — what can go wrong

## Contents
- **Kinds.** `Kind` and its names.
- **Classes of kinds.** `isRetryable`, `isIntegrity`, `isCatchable`.
- **Status.** `Status` says whether trying again may help.
-/

namespace Playbook.Failure

/-! ## Kinds -/

/-- The kind of a failure. -/
inductive Kind where
  | unexpected
  | unsupported
  | configInvalid
  | invalidArgument
  | parseFailed
  | unknownVariable
  | unknownAgent
  | adapterFailed
  | streamConsumed
  | manifestHashMissing
  | manifestSignatureMissing
  | manifestHashMismatch
  | manifestSignatureMismatch
  | programHashMismatch
  | eventDeliveryFailed
  | storageFailed
  | serializationFailed
  | fileNotFound
  | permissionDenied
  | ioFailed
  | networkFailed
  | rateLimited
  | canceled
  deriving DecidableEq, Repr

namespace Kind

/-- Every kind, in the order of the type. -/
def all : List Kind :=
  [unexpected, unsupported, configInvalid, invalidArgument, parseFailed, unknownVariable,
   unknownAgent, adapterFailed, streamConsumed, manifestHashMissing, manifestSignatureMissing,
   manifestHashMismatch, manifestSignatureMismatch, programHashMismatch, eventDeliveryFailed,
   storageFailed, serializationFailed, fileNotFound, permissionDenied, ioFailed, networkFailed,
   rateLimited, canceled]

/-- The name of a kind in reports. -/
def name : Kind → String
  | unexpected => "Unexpected"
  | unsupported => "Unsupported"
  | configInvalid => "ConfigInvalid"
  | invalidArgument => "InvalidArgument"
  | parseFailed => "ParseFailed"
  | unknownVariable => "UnknownVariable"
  | unknownAgent => "UnknownAgent"
  | adapterFailed => "AdapterFailed"
  | streamConsumed => "StreamConsumed"
  | manifestHashMissing => "ManifestHashMissing"
  | manifestSignatureMissing => "ManifestSignatureMissing"
  | manifestHashMismatch => "ManifestHashMismatch"
  | manifestSignatureMismatch => "ManifestSignatureMismatch"
  | programHashMismatch => "ProgramHashMismatch"
  | eventDeliveryFailed => "EventDeliveryFailed"
  | storageFailed => "StorageFailed"
  | serializationFailed => "SerializationFailed"
  | fileNotFound => "FileNotFound"
  | permissionDenied => "PermissionDenied"
  | ioFailed => "IoFailed"
  | networkFailed => "NetworkFailed"
  | rateLimited => "RateLimited"
  | canceled => "Canceled"

/-- The kind with a name. -/
def ofName? (s : String) : Option Kind :=
  all.find? (·.name == s)

/-- Whether a failure of this kind is temporary unless something else is said of it. -/
def isRetryable : Kind → Bool
  | adapterFailed | networkFailed | rateLimited | eventDeliveryFailed => true
  | _ => false

/-- Whether the kind says that a manifest cannot be trusted. -/
def isIntegrity : Kind → Bool
  | manifestHashMissing | manifestSignatureMissing | manifestHashMismatch
  | manifestSignatureMismatch | programHashMismatch => true
  | _ => false

/-- Whether a program's own `try` may handle failures of this kind. -/
def isCatchable (k : Kind) : Bool :=
  !k.isIntegrity && k ≠ canceled

theorem mem_all (k : Kind) : k ∈ all := by
  cases k <;> decide

theorem ofName?_name (k : Kind) : ofName? k.name = some k := by
  cases k <;> decide

end Kind

/-! ## Status -/

/-- Whether trying again may help. -/
inductive Status where
  /-- It will not. -/
  | permanent
  /-- It may. -/
  | temporary
  /-- It might have, but has been tried often enough. -/
  | persistent
  deriving DecidableEq, Repr

namespace Status

/-- The name of a status in reports. -/
def name : Status → String
  | permanent => "permanent"
  | temporary => "temporary"
  | persistent => "persistent"

/-- The status with a name. -/
def ofName? (s : String) : Option Status :=
  [permanent, temporary, persistent].find? (·.name == s)

/-- Only a temporary failure is worth another try. -/
def isRetryable (s : Status) : Bool :=
  s = temporary

/-- After the last try a temporary status becomes a persistent one. -/
def persist : Status → Status
  | temporary => persistent
  | s => s

end Status

end Playbook.Failure
