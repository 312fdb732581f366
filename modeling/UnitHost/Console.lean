import UnitHost.Failure

/-!
# Console

The transcript of one program: messages, nested groups and timing marks. Each entry carries the
number of groups open around it. That number is a natural one: it stands for a count in 32 bits, of
which it is the value as long as fewer than 4294967296 groups are open at once.
-/

namespace UnitHost

/-- What a message is for. -/
inductive Channel where
  | log
  | warn
  | error
  deriving DecidableEq, Repr

/-- One entry of the transcript. -/
inductive Event where
  /-- A message at the given depth. -/
  | message (channel : Channel) (depth : Nat) (text : String)
  /-- A group opens; `depth` is the depth around it. -/
  | opened (depth : Nat) (label : String)
  /-- A group closes; `depth` is the depth around it. -/
  | closed (depth : Nat)
  /-- A timing mark, in nanoseconds since the session began. -/
  | mark (name : String) (elapsed : Nat)
  deriving DecidableEq, Repr

/-- Open groups and the entries since the last drain. -/
structure Console where
  /-- The number of open groups, without a bound. -/
  depth : Nat := 0
  events : Array Event := #[]

namespace Console

/-- Records an entry. -/
def record (c : Console) (e : Event) : Console :=
  { c with events := c.events.push e }

/-- A message at the current depth. -/
def message (c : Console) (channel : Channel) (text : String) : Console :=
  c.record (.message channel c.depth text)

/-- Opens a group. -/
def openGroup (c : Console) (label : String) : Console :=
  { c.record (.opened c.depth label) with depth := c.depth + 1 }

/-- Closes the innermost group. -/
def closeGroup (c : Console) : Except Failure Console :=
  match c.depth with
  | 0 => .error .unbalancedGroup
  | depth + 1 => .ok { c.record (.closed depth) with depth := depth }

/-- Closes `n` groups, as far as there are any. -/
def close (c : Console) : Nat → Console
  | 0 => c
  | n + 1 =>
    match c.depth with
    | 0 => c
    | depth + 1 => close { c.record (.closed depth) with depth := depth } n

/-- Closes groups until at most `depth` are open. -/
def closeTo (c : Console) (depth : Nat) : Console :=
  c.close (c.depth - depth)

/-- A timing mark. -/
def mark (c : Console) (name : String) (elapsed : Nat) : Console :=
  c.record (.mark name elapsed)

/-- The entries since the last drain, and the console without them. -/
def drain (c : Console) : Array Event × Console :=
  (c.events, { c with events := #[] })

end Console

end UnitHost
