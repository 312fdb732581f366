import UnitHost.Session

/-!
# Replicators

A replicator compiles a base once and starts any number of sessions from it. Sessions share the
engine and the compiled base and nothing else. A base that fails to load still takes a place, which
answers everything with the state it is in.
-/

namespace UnitHost

open Wasm

/-- The owner's end of a session: the session, or why it failed to load. -/
structure Handle where
  loaded : Except Failure Session

namespace Handle

/-- Where the session stands. -/
def state (h : Handle) : Lifecycle :=
  match h.loaded with
  | .ok s => s.state
  | .error _ => .failed

/-- Why the session failed to load, if it did. -/
def loadError? (h : Handle) : Option Failure :=
  match h.loaded with
  | .ok _ => none
  | .error f => some f

/-- Asks a loaded session. -/
def query (h : Handle) (f : Session → α) : Except Failure α :=
  match h.loaded with
  | .ok s => .ok (f s)
  | .error _ => .error (.notReady .failed)

/-- Answers a submission. -/
def submit (fuel : Nat) (h : Handle) (text : String) : Option (Except Failure Response × Handle) :=
  match h.loaded with
  | .ok s => (s.submit fuel text).map fun (response, s) => (response, { loaded := .ok s })
  | .error _ => some (.error (.notReady .failed), h)

/-- Sets the time that marks of the next submission carry. -/
def atTime (h : Handle) (nanos : Nat) : Handle := { loaded := h.loaded.map (·.atTime nanos) }

/-- What observers see of the program. -/
def snapshot (h : Handle) : Except Failure Snapshot := h.query (·.snapshot)

/-- Submissions in order. -/
def history (h : Handle) : Except Failure (List HistoryEntry) := h.query (·.history)

/-- The console entries since the last drain. -/
def drainConsole (h : Handle) : Except Failure (Array Event) × Handle :=
  match h.loaded with
  | .ok s => let (events, s) := s.drainConsole; (.ok events, { loaded := .ok s })
  | .error _ => (.error (.notReady .failed), h)

end Handle

/-- One compiled base and the sessions started from it, by number; a dropped one leaves its place
empty. -/
structure Replicator where
  engine : Engine
  base : Module
  config : Config
  handles : List (Option Handle) := []

namespace Replicator

/-- Builds the engine of a configuration and compiles a base. -/
def new (config : Config) (base : List UInt8) : Except Failure Replicator := do
  let engine ← Engine.build config
  .ok { engine, base := ← engine.compileBase base, config }

/-- Starts a session with a configuration of its own. The engine is already built, so its features
and its stack are those of the replicator. -/
def spawnWith (fuel : Nat) (r : Replicator) (config : Config) : Option (Nat × Handle × Replicator) := do
  let loaded := match ← Session.load fuel r.engine r.base config with
    | .ok s => .ok s
    | .error e => .error e.failure
  let h : Handle := { loaded }
  some (r.handles.length, h, { r with handles := r.handles ++ [some h] })

/-- Starts a session with the replicator's configuration. -/
def spawn (fuel : Nat) (r : Replicator) : Option (Nat × Handle × Replicator) :=
  r.spawnWith fuel r.config

/-- Starts several sessions. -/
def spawnMany (fuel : Nat) (r : Replicator) : Nat → Option (List (Nat × Handle) × Replicator)
  | 0 => some ([], r)
  | count + 1 => do
    let (id, h, r) ← r.spawn fuel
    let (more, r) ← r.spawnMany fuel count
    some ((id, h) :: more, r)

/-- The session of a number, unless it was dropped. -/
def handle? (r : Replicator) (id : Nat) : Option Handle := (r.handles[id]?).join

/-- Replaces the session of a number. -/
def setHandle (r : Replicator) (id : Nat) (h : Option Handle) : Replicator :=
  { r with handles := r.handles.set id h }

/-- Drops a session, if there is one. -/
def drop (r : Replicator) (id : Nat) : Bool × Replicator :=
  ((r.handle? id).isSome, r.setHandle id none)

end Replicator

end UnitHost
