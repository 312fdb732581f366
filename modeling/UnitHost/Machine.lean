import UnitHost.Link

/-!
# The machine

Running code as single steps. The machine has a world, a control and a stack of frames: frames are
calls waiting for their callee, and links waiting for a unit's start function, static initializer
or main entry point or for the base's renderer. A link made by code that is itself being linked is
thus a deeper part of the same stack.

A failure is raised from frame to frame until a link or the outermost caller receives it; on the
way each entry phase closes the groups it left open.
-/

namespace UnitHost

open Wasm

/-- A block being executed. -/
structure Label where
  /-- How many operands a branch to it keeps. -/
  arity : Nat
  /-- The code a branch to it goes on with. -/
  target : List Instr
  /-- The code after the block. -/
  after : List Instr
  /-- The operands below the block. -/
  below : List Value

/-- A function being executed. -/
structure Activation where
  owner : Instance
  /-- How many results it returns. -/
  arity : Nat
  locals : List Value
  labels : List Label := []
  code : List Instr
  /-- Operands of the innermost block, top first. -/
  operands : List Value := []

/-- Something waiting for a call to end. -/
inductive Frame where
  /-- Code that called a function. -/
  | caller (activation : Activation)
  /-- A link whose unit runs its start function. -/
  | start (link : Linking)
  /-- A link whose unit runs its static initializer, in a group opened at `depth`; `main` is next. -/
  | staticInit (link : Linking) (main : Callee) (next depth : Nat)
  /-- A link whose unit runs its main entry point, in a group opened at `depth`. -/
  | main (link : Linking) (depth : Nat)
  /-- A link whose result the base is rendering. -/
  | report (index : Nat)

/-- What the machine does next. -/
inductive Control where
  /-- Execute code. -/
  | run (activation : Activation)
  /-- Call a function. -/
  | call (callee : Callee) (args : List Value)
  /-- Return results to the innermost frame. -/
  | give (results : List Value)
  /-- Pass a failure to the innermost frame. -/
  | raise (raised : Raised)

/-- Running code. -/
structure Machine where
  world : World
  control : Control
  frames : List Frame := []
  /-- The number of frames. -/
  depth : Nat := 0

/-- How a call ended: its results or what stopped it. -/
abbrev Outcome := Except Raised (List Value)

namespace Activation

/-- The activation with other operands. -/
def put (a : Activation) (operands : List Value) : Activation := { a with operands }

/-- Enters a block. -/
def enter (a : Activation) (type : FuncType) (arity : Nat) (body target : List Instr) : Activation :=
  let n := type.params.length
  { a with
    labels := { arity, target, after := a.code, below := a.operands.drop n } :: a.labels
    code := body
    operands := a.operands.take n }

end Activation

namespace Machine

/-- Goes on with other control. -/
def go (m : Machine) (c : Control) : Machine := { m with control := c }

/-- Waits in a frame for a call. -/
def await (m : Machine) (f : Frame) (callee : Callee) (args : List Value) : Machine :=
  { m with control := .call callee args, frames := f :: m.frames, depth := m.depth + 1 }

/-- Stops with a trap. -/
def trap (m : Machine) (t : Trap) : Machine := m.go (.raise (.trap t))

/-- A link fails. -/
def failLink (m : Machine) (f : Failure) : Machine :=
  { m with world := m.world.note (.linkFailed f), control := .raise (.failure f) }

/-- Takes a branch outwards. A branch out of the outermost block returns. -/
def branch (m : Machine) (a : Activation) (label : Nat) : Machine :=
  match a.labels[label]? with
  | some l =>
    m.go (.run { a with
      labels := a.labels.drop (label + 1)
      code := l.target
      operands := a.operands.take l.arity ++ l.below })
  | none => m.go (.give (a.operands.take a.arity))

/-- The end of the innermost block or of the function. -/
def fallOff (m : Machine) (a : Activation) : Machine :=
  match a.labels with
  | [] => m.go (.give (a.operands.take a.arity))
  | l :: labels =>
    m.go (.run { a with labels, code := l.after, operands := a.operands ++ l.below })

/-- Calls a function with the operands it takes. -/
def invoke (m : Machine) (a : Activation) (callee : Callee) (type : FuncType) : Machine :=
  let n := type.params.length
  m.await (.caller (a.put (a.operands.drop n))) callee (a.operands.take n).reverse

/-- Changes the store and goes on. -/
def update (m : Machine) (store : Store) (a : Activation) : Machine :=
  { m with world := { m.world with store }, control := .run a }

/-- The result of an attempt to grow: the old size, or minus one. -/
def grown (size : Option Nat) : Value := .i32 (size.elim 0xFFFFFFFF UInt32.ofNat)

/-- Executes one instruction; `a` holds the code after it. -/
def exec (m : Machine) (a : Activation) (instr : Instr) : Machine :=
  let s := m.world.store
  let memoryAt (i : Nat) : Nat := a.owner.memories.getD i 0
  let tableAt (i : Nat) : Nat := a.owner.tables.getD i 0
  let globalAt (i : Nat) : Nat := a.owner.globals.getD i 0
  let push (v : Value) : Machine := m.go (.run (a.put (v :: a.operands)))
  match instr, a.operands with
  | .i32 n, _ => push (.i32 n)
  | .i64 n, _ => push (.i64 n)
  | .null _, _ => push .null
  | .unary op, x :: rest => m.go (.run (a.put (.i32 (op.apply x.word) :: rest)))
  | .binary op, y :: x :: rest =>
    match op.apply x.word y.word with
    | .ok n => m.go (.run (a.put (.i32 n :: rest)))
    | .error t => m.trap t
  | .load access, x :: rest =>
    match (s.memory (memoryAt access.memory)).readBytes (x.word.toNat + access.offset)
        access.width.bytes with
    | .ok bytes => m.go (.run (a.put (.i32 (wordOfBytes bytes) :: rest)))
    | .error _ => m.trap .memoryBounds
  | .store access, y :: x :: rest =>
    let address := memoryAt access.memory
    match (s.memory address).write? (x.word.toNat + access.offset)
        (bytesOfWord access.width y.word) with
    | some memory => m.update (s.setMemory address memory) (a.put rest)
    | none => m.trap .memoryBounds
  | .localGet i, _ => push (a.locals.getD i .null)
  | .localSet i, x :: rest => m.go (.run { a with locals := a.locals.set i x, operands := rest })
  | .globalGet i, _ => push (s.globalValue (globalAt i))
  | .globalSet i, x :: rest => m.update (s.setGlobal (globalAt i) x) (a.put rest)
  | .block type body, _ => m.go (.run (a.enter type type.results.length body a.code))
  | .loop type body, _ =>
    m.go (.run (a.enter type type.params.length body (.loop type body :: a.code)))
  | .branch type yes no, x :: rest =>
    let body := if x.word == 0 then no else yes
    m.go (.run ((a.put rest).enter type type.results.length body a.code))
  | .br label, _ => m.branch a label
  | .brIf label, x :: rest =>
    if x.word == 0 then m.go (.run (a.put rest)) else m.branch (a.put rest) label
  | .brTable labels otherwise, x :: rest =>
    m.branch (a.put rest) (labels.getD x.word.toNat otherwise)
  | .ret, _ => m.go (.give (a.operands.take a.arity))
  | .call i, _ =>
    match a.owner.funcs[i]? with
    | some callee => m.invoke a callee (s.calleeType callee)
    | none => m.trap .unreachable
  | .callIndirect i type, x :: rest =>
    let table := s.table (tableAt i)
    if x.word.toNat < table.size then
      match table.get? x.word.toNat with
      | some callee =>
        if s.calleeType callee = type then m.invoke (a.put rest) callee type
        else m.trap .signature
      | none => m.trap .emptySlot
    else m.trap .tableBounds
  | .drop, _ :: rest => m.go (.run (a.put rest))
  | .select _, c :: y :: x :: rest =>
    m.go (.run (a.put ((if c.word == 0 then y else x) :: rest)))
  | .unreachable, _ => m.trap .unreachable
  | .memorySize i, _ => push (.i32 (UInt32.ofNat (s.memory (memoryAt i)).pages))
  | .memoryGrow i, x :: rest =>
    let memory := s.memory (memoryAt i)
    match memory.grow? x.word.toNat with
    | some memory' =>
      m.update (s.setMemory (memoryAt i) memory') (a.put (grown memory.pages :: rest))
    | none => m.go (.run (a.put (grown none :: rest)))
  | .memoryFill i, n :: x :: d :: rest =>
    match (s.memory (memoryAt i)).fill? d.word.toNat n.word.toNat (UInt8.ofNat x.word.toNat) with
    | some memory => m.update (s.setMemory (memoryAt i) memory) (a.put rest)
    | none => m.trap .memoryBounds
  | .tableSize i, _ => push (.i32 (UInt32.ofNat (s.table (tableAt i)).size))
  | .tableGrow i, n :: _ :: rest =>
    let table := s.table (tableAt i)
    match table.grow? n.word.toNat with
    | some table' => m.update (s.setTable (tableAt i) table') (a.put (grown table.size :: rest))
    | none => m.go (.run (a.put (grown none :: rest)))
  -- Valid code never lacks operands.
  | _, _ => m.trap .unreachable

/-- Runs an entry phase of a unit in a group of its own. -/
def openPhase (m : Machine) (next : Nat) (entry : String) : Machine :=
  { m with world :=
    { m.world with journal := m.world.journal.openGroup s!"unit {next} {entry}" } }

/-- Closes the groups an entry phase left open. -/
def closePhase (m : Machine) (depth : Nat) : Machine :=
  { m with world := { m.world with journal := m.world.journal.closeTo depth } }

/-- A linked unit has both entry points; its static initializer runs. -/
def enterUnit (m : Machine) (l : Linking) : Machine :=
  let w := m.world
  let abi := w.config.abi
  match typedExport w.store l.owner abi.staticInit entryType with
  | .error f => m.failLink f
  | .ok staticInit =>
    match typedExport w.store l.owner abi.main entryType with
    | .error f => m.failLink f
    | .ok main =>
      let next := w.units.length
      (m.openPhase next abi.staticInit).await (.staticInit l main next w.depth) staticInit []

/-- Links a unit up to the first of its code. -/
def link (m : Machine) (r : LinkRequest) : Machine :=
  match (Action.prepare r).run.run m.world with
  | (.error f, world) => { m with world }.failLink f
  | (.ok l, world) =>
    let m := { m with world }
    match l.module.start.bind (l.owner.funcs[·]?) with
    | some callee => m.await (.start l) callee []
    | none => m.enterUnit l

/-- Calls a function. -/
def call (m : Machine) (callee : Callee) (args : List Value) : Machine :=
  match callee, args with
  | .code address, args =>
    match m.world.store.funcs[address]? with
    | none => m.trap .unreachable
    | some closure =>
      if m.world.engine.maxDepth ≤ m.depth then m.trap .stackExhausted
      else
        m.go (.run {
          owner := closure.owner
          arity := closure.func.type.results.length
          locals := args ++ closure.func.locals.map Value.zero
          code := closure.func.body })
  | .host .compileInit, [address, count, memoryBase, tableBase] =>
    m.link (.ofWords address.word count.word memoryBase.word tableBase.word)
  | .host call, args =>
    match (Action.hostCall call (args.getD 0 .null).word (args.getD 1 .null).word).run.run m.world with
    | (.ok (), world) => { m with world, control := .give [] }
    | (.error f, world) => { m with world, control := .raise (.failure f) }

/-- The static initializer of a unit returned. Zero lets its main entry point run; anything else is
reported inside the phase's group and leaves the unit failed. -/
def initialized (m : Machine) (l : Linking) (main : Callee) (next depth : Nat) (code : Int32) : Machine :=
  let abi := m.world.config.abi
  if code = 0 then
    let m := m.closePhase depth
    let here := m.world.depth
    (m.openPhase next abi.main).await (.main l here) main []
  else
    let text := s!"assertion failed: {abi.staticInit} returned {code.toInt}, expected 0"
    let m := { m with world := { m.world with journal := m.world.journal.message .error text } }
    let m := m.closePhase depth
    let (index, world) := m.world.append l .failed
    { m with world }.failLink (.staticInit index code)

/-- The main entry point of a unit returned. Its exports are published, the unit is appended, and the
base renders the value. -/
def executed (m : Machine) (l : Linking) (depth : Nat) (value : UInt32) : Machine :=
  let m := m.closePhase depth
  let (index, world) := (m.world.publish l.owner.symbols).append l (.executed (signed value))
  let world := world.note (.unitLinked index l.memoryBase l.tableBase)
  let m := { m with world }
  match world.program with
  | none => m.failLink .programNotLoaded
  | some p =>
    match typedExport world.store p.base world.config.abi.reportResult reportType with
    | .error f => m.failLink f
    | .ok report => m.await (.report index) report [.i32 value]

/-- Results reach a frame. -/
def resume (m : Machine) (f : Frame) (results : List Value) : Machine :=
  match f with
  | .caller a => m.go (.run (a.put (results ++ a.operands)))
  | .start l => m.enterUnit l
  | .staticInit l main next depth => m.initialized l main next depth (signed (results.headD .null).word)
  | .main l depth => m.executed l depth (results.headD .null).word
  | .report index => { m with world := m.world.note (.linkDone index), control := .give [] }

/-- A failure reaches a frame. Code that called passes it on, with a line of the engine's account; a
link closes its phase, keeps its unit if an entry point ran, and fails with what it says. -/
def abandon (m : Machine) (f : Frame) (r : Raised) : Machine :=
  match f with
  | .caller _ => m.go (.raise r.traced)
  | .start _ => m.failLink (.instantiation (.raised r.text))
  | .staticInit l _ _ depth =>
    let m := m.closePhase depth
    let (index, world) := m.world.append l .failed
    { m with world := world.note (.staticInitTrapped index) }.failLink r.recover
  | .main l depth =>
    let m := m.closePhase depth
    let (index, world) := m.world.append l .initialized
    { m with world := world.note (.mainTrapped index) }.failLink r.recover
  | .report _ => m.failLink r.recover

/-- One step, or the end of the outermost call. -/
def step (m : Machine) : Machine ⊕ Outcome :=
  match m.control, m.frames with
  | .run a, _ =>
    match a.code with
    | [] => .inl (m.fallOff a)
    | instr :: rest => .inl (m.exec { a with code := rest } instr)
  | .call callee args, _ => .inl (m.call callee args)
  | .give results, [] => .inr (.ok results)
  | .raise r, [] => .inr (.error r)
  | .give results, f :: frames => .inl ({ m with frames, depth := m.depth - 1 }.resume f results)
  | .raise r, f :: frames => .inl ({ m with frames, depth := m.depth - 1 }.abandon f r)

/-- Runs for at most `fuel` steps; `none` if the outermost call has not ended by then. -/
def run : Nat → Machine → Option (World × Outcome)
  | 0, _ => none
  | fuel + 1, m =>
    match m.step with
    | .inl m => run fuel m
    | .inr outcome => some (m.world, outcome)

end Machine

namespace World

/-- Calls a function and waits for its end. -/
def callFunction (w : World) (fuel : Nat) (callee : Callee) (args : List Value) :
    Option (World × Outcome) :=
  Machine.run fuel { world := w, control := .call callee args }

end World

end UnitHost
