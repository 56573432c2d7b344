import Playbook.Manifest
import Playbook.Program.Parser
import Playbook.Run.Execution
import Playbook.Run.Report

/-!
# `Playbook.Run.Launch` — from a manifest to a report

A run is launched from a manifest. Nothing is done for a manifest that cannot be trusted or whose program cannot
be read: no session is opened, nothing is stored and nothing is sent.

## Contents
- **Launchers.** `LaunchConfig`, `Launcher`, `Launcher.host`.
- **Gate.** `LaunchConfig.prepare` verifies a manifest and reads its program.
- **Launch.** `Launcher.launch`.
-/

namespace Playbook

open Digest (Scheme)

/-! ## Launchers -/

/-- What runs are launched with. -/
structure LaunchConfig where
  /-- What manifests are checked with and batches are signed with. -/
  security : Security
  /-- How events are batched. -/
  outbox : Outbox.Config
  /-- For whom runs are held. -/
  principalId : String
  deriving DecidableEq, Repr

/-- All that a launch needs besides the manifest. -/
structure Launcher (τ η κ δ : Type) where
  scheme : Scheme
  config : LaunchConfig
  backend : Backend τ η
  store : ContentStore κ
  sink : Sink δ
  /-- What the clock of a run shows, as a point in time. -/
  time : Nat → Timestamp

/-! ## Gate -/

/-- Verify a manifest and read its program. -/
def LaunchConfig.prepare (c : LaunchConfig) (scheme : Scheme) (m : Manifest) :
    Except Failure Program := do
  m.verify scheme c.security
  Program.parse m.programText

namespace Launcher

variable {τ η κ δ : Type}

/-- What the run of a manifest works with. -/
def host (l : Launcher τ η κ δ) (m : Manifest) : Host τ η κ δ where
  courier :=
    { scheme := l.scheme
      context := ⟨m.runId, m.programHash, l.config.principalId⟩
      config := l.config.outbox
      security := some l.config.security
      sink := l.sink
      time := l.time }
  backend := l.backend
  store := l.store

/-! ## Launch -/

/-- The report of a run with an outcome; a run without one was canceled. -/
def report (h : Host τ η κ δ) (s : RunState τ κ δ) : Option Outcome → RunReport
  | some (.ok ()) => .succeeded (h.outcome s)
  | some (.error e) => .failed h.context.runId e
  | none => .canceled h.context.runId

/-- Run the program of a manifest on inputs. At the limit, if there is one, the run is canceled. -/
def launch (l : Launcher τ η κ δ) (m : Manifest) (inputs : KeyMap String) (limit : Option Nat)
    (s : RunState τ κ δ) : RunReport × RunState τ κ δ :=
  match l.config.prepare l.scheme m with
  | .error e => (.failed m.runId e, s)
  | .ok p =>
    let h := l.host m
    let (s, outcome) := h.run p inputs limit s
    (report h s outcome, s)

end Launcher

end Playbook
