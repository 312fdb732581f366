import UnitHost.Proofs.Constants
import UnitHost.Proofs.FailedLinks

/-!
# The course of a link

A link that returns an index has gone through a fixed course: its unit's start function, if there is one, its static
initializer, its main entry point and the base's renderer, each called once and each returning. `Machine.turn` tells what
a link does in one of its own states, that is when it is begun and whenever a frame of its own receives an outcome;
`Course` what it has done by the time it waits in a frame. A step above that frame changes nothing, a step of its own
takes the link one turn further (`Course.step`), so the turns from the beginning of a link to its end are known:
`Course.run`.

What the unit was made from is settled when the link begins, and `Life.remains` says that the values of its bases stay.
-/

namespace UnitHost

open Wasm

/-! Turns. -/

/-- A turn of a link: what it is given, and what it calls then. -/
structure Turn where
  given : Option Outcome
  called : Option (Callee × List Value)

namespace Machine

/-- What the next step calls. -/
def called? (m : Machine) : Option (Callee × List Value) :=
  match m.step with
  | .inl { control := .call callee args, .. } => some (callee, args)
  | _ => none

/-- What a state does for the link whose turn it is. -/
def turn (m : Machine) : Turn where
  given := m.received?.map (·.2)
  called := m.called?

/-- The index that a link returns in the next step. -/
def returned? (m : Machine) : Option Nat :=
  match m.received? with
  | some (.report index, .ok _) => some index
  | _ => none

variable {m m' : Machine} {f : Frame} {o : Outcome} {l : Linking} {below : List Frame}

theorem returned?_eq_some {i : Nat} (h : m.returned? = some i) : ∃ results, m.received? = some (.report i, .ok results) := by
  unfold returned? at h
  split at h
  · rename_i index results received
    cases h
    exact ⟨results, received⟩
  · cases h

theorem called?_of_step {callee : Callee} {args : List Value} (step : m.step = .inl m')
    (control : m'.control = .call callee args) : m.called? = some (callee, args) := by
  unfold called?
  rw [step]
  obtain ⟨w, c, frames, depth⟩ := m'
  cases control
  rfl

end Machine

/-! Single turns. -/

theorem export?_of_typedExport {s : Store} {owner : Instance} {name : String} {type : FuncType} {callee : Callee}
    (h : typedExport s owner name type = .ok callee) : owner.export? name = some (.func callee) := by
  unfold typedExport at h
  dsimp only at h
  split at h
  · rename_i found exported
    split at h
    · cases h
      exact exported
    · cases h
    · cases h
  · cases h

/-- A unit was appended as it ran to its end, and its exports are published. -/
structure World.Executed (w : World) (abi : Abi) (l : Linking) (index : Nat) (value : UInt32) : Prop where
  unit : w.units[index]? = some { l with index, state := .executed (signed value) }
  symbols : ∃ p, w.program = some p ∧ ∀ name object, (name, object) ∈ l.owner.symbols →
    abi.isReserved name = false → p.symbols.find? name = some object

theorem World.Executed.of_program {w w' : World} {abi : Abi} {l : Linking} {index : Nat} {value : UInt32}
    (h : w.Executed abi l index value) (same : w'.program = w.program) : w'.Executed abi l index value := by
  constructor
  · rw [units, same]
    exact h.unit
  · rw [same]
    exact h.symbols

/-- Publishing its exports and appending it make a unit one that has run, at the next index. -/
theorem World.executed_append {w : World} {p : Program} {l : Linking} (hp : w.program = some p)
    (distinct : l.owner.Distinct) (value : UInt32) :
    let appended := (w.publish l.owner.symbols).append l (.executed (signed value))
    appended.1 = w.units.length ∧ appended.2.config = w.config ∧
      (∃ q, appended.2.program = some q ∧ q.base = p.base) ∧
      appended.2.Executed w.config.abi l w.units.length value := by
  intro appended
  have bound := (kept_publish w l.owner.symbols).append l (.executed (signed value))
  have program : appended.2.program = some ({ p with symbols := p.symbols.publish w.config.abi l.owner.symbols }.append l
      (.executed (signed value))) := by
    rw [bound.program]
    simp [World.append, World.updateProgram, hp]
  have count : w.units.length = p.units.length := by simp [units, hp]
  refine ⟨congrArg List.length (units_publish w l.owner.symbols), bound.config, ⟨_, program, rfl⟩, ?_, _, program, ?_⟩
  · rw [units, program, count]
    exact List.getElem?_concat_length
  · exact fun name object mem free => Symbols.find?_publish_of_mem distinct mem free p.symbols

namespace Machine

variable {m m' : Machine} {f : Frame} {l : Linking}

/-- A unit that is entered has its static initializer called, and its main entry point is known. -/
theorem enterUnit_called (h : (m.enterUnit l).frames = f :: m.frames) :
    ∃ initializer main next depth, f = .staticInit l main next depth ∧
      (m.enterUnit l).control = .call initializer [] ∧
      l.owner.export? m.world.config.abi.staticInit = some (.func initializer) ∧
      l.owner.export? m.world.config.abi.main = some (.func main) := by
  obtain ⟨initializer, main, first, second, entered⟩ := enterUnit_entered h
  rw [entered] at h ⊢
  cases h
  exact ⟨initializer, main, _, _, rfl, rfl, export?_of_typedExport first, export?_of_typedExport second⟩

/-- A static initializer that returned zero is followed by the main entry point. -/
theorem initialized_called {main : Callee} {next depth : Nat} {code : Int32}
    (h : (m.initialized l main next depth code).frames = f :: m.frames) :
    code = 0 ∧ (∃ outer, f = .main l outer) ∧ (m.initialized l main next depth code).control = .call main [] := by
  unfold initialized at h ⊢
  dsimp only at h ⊢
  by_cases zero : code = 0
  · rw [if_pos zero] at h ⊢
    cases h
    exact ⟨zero, ⟨_, rfl⟩, rfl⟩
  · rw [if_neg zero] at h
    exact not_pushed h

/-- A main entry point that returned is followed by the base's renderer, once the unit is appended and its exports are
published. -/
theorem executed_called {depth : Nat} {value : UInt32} {p : Program} (hp : m.world.program = some p)
    (distinct : l.owner.Distinct) (h : (m.executed l depth value).frames = f :: m.frames) :
    ∃ report, f = .report m.world.units.length ∧
      (m.executed l depth value).control = .call report [.i32 value] ∧
      p.base.export? m.world.config.abi.reportResult = some (.func report) ∧
      (m.executed l depth value).world.Executed m.world.config.abi l m.world.units.length value := by
  obtain ⟨index_eq, config, ⟨q, program, base⟩, published⟩ :=
    World.executed_append (w := (m.closePhase depth).world) hp distinct value
  unfold executed at h ⊢
  dsimp only at h ⊢
  generalize ((m.closePhase depth).world.publish l.owner.symbols).append l (.executed (signed value)) = appended
    at h index_eq config program published ⊢
  obtain ⟨index, w⟩ := appended
  dsimp only [World.note] at h index_eq config program published ⊢
  rw [program] at h ⊢
  dsimp only at h ⊢
  cases found : typedExport w.store q.base w.config.abi.reportResult reportType with
  | error fault =>
    rw [found] at h
    exact not_pushed h
  | ok report =>
    rw [found] at h
    cases h
    rw [base, config] at found
    exact ⟨report, congrArg Frame.report index_eq, rfl, export?_of_typedExport found,
      published.of_program program.symm⟩

end Machine

/-! The course of a link. -/

/-- How a unit gets to its static initializer: at once, or when its start function has returned. -/
inductive Linking.Opening (l : Linking) (initializer : Callee) : List Turn → Prop where
  | direct (unstarted : l.module.start.bind (l.owner.funcs[·]?) = none) :
      Opening l initializer [{ given := none, called := some (initializer, []) }]
  | started (start : Callee) (results : List Value) (starts : l.module.start.bind (l.owner.funcs[·]?) = some start) :
      Opening l initializer [{ given := none, called := some (start, []) },
        { given := some (.ok results), called := some (initializer, []) }]

/-- Where the entry points of a unit come from. -/
structure Linking.Entries (l : Linking) (abi : Abi) (initializer main : Callee) : Prop where
  initializer : l.owner.export? abi.staticInit = some (.func initializer)
  main : l.owner.export? abi.main = some (.func main)

namespace Machine

/-- What a link that waits in a frame has done so far: its turns in its own states, and for a unit that has run the last
of them, in which the main entry point returned, the exports were published and the base's renderer was called. -/
inductive Course (abi : Abi) (base : Instance) (l : Linking) (own : List Machine) (w : World) : Frame → Prop where
  | starting (start : Callee) (starts : l.module.start.bind (l.owner.funcs[·]?) = some start)
      (turns : own.map turn = [{ given := none, called := some (start, []) }]) :
      Course abi base l own w (.start l)
  | initializing (initializer main : Callee) (next depth : Nat) (entries : l.Entries abi initializer main)
      (opened : l.Opening initializer (own.map turn)) :
      Course abi base l own w (.staticInit l main next depth)
  | running (initializer main : Callee) (depth : Nat) (opening : List Turn) (zero : List Value)
      (entries : l.Entries abi initializer main) (opened : l.Opening initializer opening)
      (success : signed (zero.headD .null).word = 0)
      (turns : own.map turn = opening ++ [{ given := some (.ok zero), called := some (main, []) }]) :
      Course abi base l own w (.main l depth)
  | rendering (initializer main report : Callee) (index : Nat) (opening : List Turn) (zero results : List Value)
      (earlier : List Machine) (n z : Machine) (entries : l.Entries abi initializer main)
      (opened : l.Opening initializer opening) (success : signed (zero.headD .null).word = 0)
      (rendered : base.export? abi.reportResult = some (.func report))
      (turns : own.map turn = opening ++ [{ given := some (.ok zero), called := some (main, []) },
        { given := some (.ok results), called := some (report, [.i32 (results.headD .null).word]) }])
      (last : own = earlier ++ [n]) (step : n.step = .inl z)
      (published : z.world.Executed abi l index (results.headD .null).word)
      (unit : w.units[index]? = some { l with index, state := .executed (signed (results.headD .null).word) }) :
      Course abi base l own w (.report index)

/-- Names and base of a program are as they were when a link began. -/
structure Setting (abi : Abi) (base : Instance) (w : World) : Prop where
  abi : w.config.abi = abi
  base : ∃ p, w.program = some p ∧ p.base = base

variable {m m' n n' : Machine} {f : Frame} {o : Outcome} {l : Linking} {above below : List Frame} {abi : Abi}
  {base : Instance} {own : List Machine} {w w' : World}

theorem Course.mono (h : Course abi base l own w f) (units : w.units <+: w'.units) : Course abi base l own w' f := by
  cases h with
  | starting start starts turns => exact .starting start starts turns
  | initializing initializer main next depth entries opened =>
    exact .initializing initializer main next depth entries opened
  | running initializer main depth opening zero entries opened success turns =>
    exact .running initializer main depth opening zero entries opened success turns
  | rendering initializer main report index opening zero results earlier n z entries opened success rendered turns last step
      published unit =>
    exact .rendering initializer main report index opening zero results earlier n z entries opened success rendered turns
      last step published (World.unit_of_prefix units unit)

/-- A link whose frame receives an outcome is over or has taken one turn more. -/
theorem Course.receive (h : Course abi base l own n.world f) (setting : Setting abi base n.world)
    (distinct : l.owner.Distinct) (received : n.received? = some (f, o)) (step : n.step = .inl n') :
    n'.frames = n.pop.frames ∨ ∃ f', n'.frames = f' :: n.pop.frames ∧ Course abi base l (own ++ [n]) n'.world f' := by
  have next := (step_received received).1
  rw [step] at next
  cases next
  rcases receive_frames n.pop f o with back | ⟨f', frames⟩
  · exact .inl back
  · refine .inr ⟨f', frames, ?_⟩
    have turn {callee : Callee} {args : List Value} (control : (n.pop.receive f o).control = .call callee args) :
        (own ++ [n]).map turn = own.map turn ++ [{ given := some o, called := some (callee, args) }] := by
      rw [List.map_append, List.map_singleton, Machine.turn, received, called?_of_step step control]
      rfl
    obtain ⟨p, hp, rfl⟩ := setting.base
    obtain rfl := setting.abi
    cases h with
    | starting start starts turns =>
      cases o with
      | error r => exact not_pushed frames
      | ok results =>
        obtain ⟨initializer, main, next, depth, rfl, control, initial, entry⟩ := enterUnit_called frames
        refine .initializing initializer main next depth ⟨initial, entry⟩ ?_
        rw [turn control, turns]
        exact .started start results starts
    | initializing initializer main next depth entries opened =>
      cases o with
      | error r => exact not_pushed frames
      | ok results =>
        obtain ⟨success, ⟨outer, rfl⟩, control⟩ := initialized_called frames
        exact .running initializer main outer _ results entries opened success (turn control)
    | running initializer main depth opening zero entries opened success turns =>
      cases o with
      | error r => exact not_pushed frames
      | ok results =>
        obtain ⟨report, rfl, control, rendered, published⟩ := executed_called (m := n.pop) hp distinct frames
        refine .rendering initializer main report _ opening zero results own n _ entries opened success rendered ?_ rfl step
          published published.unit
        rw [turn control, turns, List.append_assoc]
        rfl
    | rendering initializer main report index opening zero results earlier n z entries opened success rendered turns last
        step published unit =>
      cases o <;> exact not_pushed frames

/-- A step above the frame of a link leaves the link as it is; a step of its own takes it one turn further. -/
theorem Course.step (h : Course abi base l own n.world f) (setting : Setting abi base n.world)
    (distinct : l.owner.Distinct) (frames : n.frames = above ++ f :: below) (step : n.step = .inl n') :
    n'.frames = below ∨ ∃ above' f', n'.frames = above' ++ f' :: below ∧
      Course abi base l (own ++ ownOn below [n]) n'.world f' := by
  rcases received_or_above frames with ⟨o, received, rfl⟩ | ⟨rest, above⟩
  · have here : n.base.length = n.pop.frames.length := by rw [base_of_received received]
    rw [ownOn_own here]
    rcases h.receive setting distinct received step with back | ⟨f', next, course⟩
    · exact .inl back
    · exact .inr ⟨[], f', next, course⟩
  · have quiet : ownOn below [n] = [] := by
      apply ownOn_above
      rw [above, List.length_append, List.length_cons]
      omega
    have course := h.mono (step_units step)
    rw [quiet, List.append_nil]
    rcases step_base step with next | ⟨g, next⟩
    · exact .inr ⟨rest, f, next.trans above, course⟩
    · exact .inr ⟨g :: rest, f, by rw [next, above]; rfl, course⟩

theorem Setting.step (h : Setting abi base n.world) (step : n.step = .inl n') : Setting abi base n'.world := by
  refine ⟨(congrArg Config.abi (step_config step)).trans h.abi, ?_⟩
  obtain ⟨p, hp, rfl⟩ := h.base
  obtain ⟨p', hp'⟩ := Option.isSome_iff_exists.1 ((step_placed step).trans (by rw [hp]; rfl))
  obtain ⟨q, hq, same⟩ := step_ground step hp'
  rw [hp] at hq
  cases hq
  exact ⟨p', hp', same.base⟩

/-- While a link is not over, it is on its course. -/
theorem Course.run {init : List Machine} {y : Machine} (h : Course abi base l own n.world f)
    (setting : Setting abi base n.world) (distinct : l.owner.Distinct) (frames : n.frames = above ++ f :: below)
    (first : (init ++ [y]).head? = some n) (chain : (init ++ [y]).IsChain Follows)
    (inside : ∀ k ∈ init ++ [y], below.length < k.frames.length) :
    ∃ above' f', y.frames = above' ++ f' :: below ∧ Course abi base l (own ++ ownOn below init) y.world f' := by
  induction init generalizing n own f above with
  | nil =>
    obtain rfl : y = n := Option.some.inj first
    refine ⟨above, f, frames, ?_⟩
    simpa [ownOn] using h
  | cons k init ih =>
    obtain rfl : k = n := Option.some.inj first
    obtain ⟨next, head⟩ : ∃ next, (init ++ [y]).head? = some next := by cases init <;> exact ⟨_, rfl⟩
    rw [List.cons_append] at chain inside
    have follows : Follows k next := (List.isChain_cons.1 chain).1 next head
    have step := follows.step frames
    have deeper := inside next (List.mem_cons_of_mem _ (List.mem_of_head? head))
    rcases h.step setting distinct frames step with back | ⟨above', f', waiting, course⟩
    · rw [back] at deeper
      exact absurd deeper (Nat.lt_irrefl _)
    · have later := ih course (setting.step step) waiting head (List.isChain_cons.1 chain).2
        (List.forall_mem_cons.1 inside).2
      have split : ownOn below (k :: init) = ownOn below [k] ++ ownOn below init := ownOn_append below [k] init
      rw [split, ← List.append_assoc]
      exact later

/-- A link that is not over at once was prepared, and is on its course. -/
theorem link_course {r : LinkRequest} (link : m.link? = some r) (deeper : m.frames.length < (m.link r).frames.length) :
    ∃ l w f, (Action.prepare r).run.run m.world = (.ok l, w) ∧ (m.link r).frames = f :: m.frames ∧
      ∀ base, Course m.world.config.abi base l [m] (m.link r).world f := by
  obtain ⟨step, unreceived⟩ := step_link link
  have turn {callee : Callee} {args : List Value} (control : (m.link r).control = .call callee args) :
      [m].map Machine.turn = [{ given := none, called := some (callee, args) }] := by
    rw [List.map_singleton, Machine.turn, unreceived, called?_of_step step control]
    rfl
  have kept := Action.keeps_prepare r m.world
  revert deeper turn
  unfold Machine.link
  rcases run : (Action.prepare r).run.run m.world with ⟨fault | l, w⟩
  · intro deeper
    exact absurd deeper (Nat.lt_irrefl _)
  · rw [run] at kept
    have config : w.config = m.world.config := kept.config
    dsimp only
    cases start : l.module.start.bind (l.owner.funcs[·]?) with
    | some callee =>
      intro deeper turn
      exact ⟨l, w, _, rfl, rfl, fun base => .starting callee start (turn rfl)⟩
    | none =>
      intro deeper turn
      have frames := enterUnit_frames { m with world := w } l
      split at frames
      · obtain ⟨main, next, depth, frames⟩ := frames
        obtain ⟨initializer, _, _, _, same, control, initial, entry⟩ := enterUnit_called frames
        cases same
        refine ⟨l, w, _, rfl, frames, fun base => ?_⟩
        dsimp only at initial entry
        rw [config] at initial entry
        refine .initializing initializer main next depth ⟨initial, entry⟩ ?_
        rw [turn control]
        exact .direct start
      · dsimp only at deeper
        rw [frames] at deeper
        exact absurd deeper (Nat.lt_irrefl _)

end Machine

/-! What a unit is made from. -/

/-- A global holds a word and never changes. -/
def World.Holds (w : World) (address : Nat) (word : UInt32) : Prop :=
  w.store.globals[address]? = some { type := { type := .i32 }, value := .i32 word }

theorem World.Holds.mono {w w' : World} {address : Nat} {word : UInt32} (h : w.Holds address word)
    (fixes : w.Fixes w') : w'.Holds address word := by
  obtain ⟨⟨type, value⟩, found, sameType, sameValue⟩ := fixes.globals address _ h
  cases sameType
  cases sameValue rfl
  exact found

/-- The bases of a unit, with the names under which it imports them. -/
def Linking.bases (l : Linking) (abi : Abi) : List (String × Nat) :=
  [(abi.memoryBase, l.memoryBase), (abi.tableBase, l.tableBase)]

/-- Wherever a unit imports one of its bases, it has a global that holds the base. -/
def Linking.ReadsBases (l : Linking) (abi : Abi) (w : World) : Prop :=
  ∀ name base, (name, base) ∈ l.bases abi → ∀ (position : Nat) (i : Import), l.module.imports[position]? = some i →
    i.module = abi.systemModule → i.name = name →
    ∃ address, l.owner.import? l.module.imports position = some (.global address) ∧
      w.Holds address (UInt32.ofNat base)

theorem Linking.ReadsBases.mono {l : Linking} {abi : Abi} {w w' : World} (h : l.ReadsBases abi w) (fixes : w.Fixes w') :
    l.ReadsBases abi w' := by
  intro name base listed position i hi module named
  obtain ⟨address, bound, holds⟩ := h name base listed position i hi module named
  exact ⟨address, bound, holds.mono fixes⟩

/-- The globals that are made for the bases of a unit hold them. -/
theorem World.holds_withBases (w : World) (memoryBase tableBase : Nat) :
    (w.withBases memoryBase tableBase).Holds w.store.globals.size (UInt32.ofNat memoryBase) ∧
      (w.withBases memoryBase tableBase).Holds (w.store.globals.size + 1) (UInt32.ofNat tableBase) := by
  unfold Holds withBases Store.constant
  dsimp only
  constructor
  · rw [Array.getElem?_push, if_neg (by simp), Array.getElem?_push, if_pos rfl]
  · rw [Array.getElem?_push, if_pos (by simp)]

/-- A unit that was prepared reads its bases. -/
theorem Life.readsBases {life : List Machine} {m : Machine} (h : Life life (.running m)) {r : LinkRequest} {l : Linking}
    {w : World} (run : (Action.prepare r).run.run m.world = (.ok l, w)) : l.ReadsBases m.world.config.abi w := by
  obtain ⟨p, prepared, d, v, v', config, built, joined⟩ := Action.prepare_joined run
  have offers := (h.linkable prepared.program).offers_of_run (congrArg Config.abi config) built
  -- The globals are made before the unit joins the store, which leaves them alone.
  have based : v' = v.withBases l.memoryBase l.tableBase := by
    rw [Action.run_importObject] at built
    exact (Prod.mk.inj built).2.symm
  have fixes : v'.Fixes w := by
    have joining := Store.fixes_instantiate (s := v'.store) (d := d) (Engine.compile?_valid prepared.compiled)
    rw [joined] at joining
    exact joining
  have holds := v.holds_withBases l.memoryBase l.tableBase
  rw [← based] at holds
  intro name base listed position i hi module named
  obtain ⟨object, bound, found⟩ := Store.import?_of_instantiate joined hi
  have offered {address : Nat} (item : ((m.world.config.abi.systemModule, name), .global address) ∈
      m.world.config.abi.baseItems v.store.globals.size) : object = .global address := by
    have defined := (offers _ _ _).2 (.inl (List.mem_append_right _ item))
    rw [module, named, defined] at found
    exact (Option.some.inj found).symm
  rcases List.mem_cons.1 listed with first | second
  · cases first
    rw [offered List.mem_cons_self] at bound
    exact ⟨_, bound, holds.1.mono fixes⟩
  · cases List.mem_singleton.1 second
    rw [offered (List.mem_cons_of_mem _ List.mem_cons_self)] at bound
    exact ⟨_, bound, holds.2.mono fixes⟩

/-- Functions and globals can be imported by later units. -/
def Wasm.Export.isSymbol (e : Export) : Bool := e.kind == .func || e.kind == .global

/-- If all objects are there, the names of an instance's symbols are those of the module's functions and globals. -/
theorem Instance.names_of_there {owner : Instance} {exports : List Export}
    (there : ∀ e ∈ exports, (owner.object? e.kind e.index).isSome = true) :
    (({ owner with exports := exports.filterMap fun e => (owner.object? e.kind e.index).map (e.name, ·) } :
      Instance).symbols.map (·.1)) = (exports.filter Export.isSymbol).map (·.name) := by
  induction exports with
  | nil => rfl
  | cons e rest ih =>
    obtain ⟨first, others⟩ := List.forall_mem_cons.1 there
    obtain ⟨object, found⟩ := Option.isSome_iff_exists.1 first
    have kind := kind_of_object? found
    have later := ih others
    unfold symbols at later ⊢
    rw [List.filterMap_cons, found]
    dsimp only [Option.map_some] at later ⊢
    cases object with
    | func _ | global _ =>
      have symbol : e.isSymbol = true := by rw [Export.isSymbol, ← kind]; rfl
      rw [List.filter_cons_of_pos rfl, List.filter_cons_of_pos symbol, List.map_cons, List.map_cons, later]
    | memory _ | table _ =>
      have other : ¬ e.isSymbol = true := by rw [Export.isSymbol, ← kind]; exact Bool.false_ne_true
      rw [List.filter_cons_of_neg (by simp), List.filter_cons_of_neg other, later]

/-- Every export of a valid module has an object. -/
theorem Instance.Typed.there {owner : Instance} {m : Module} {s : Store} {referenceTypes : Bool} (h : owner.Typed m s)
    (valid : m.isValid referenceTypes = true) {e : Export} (mem : e ∈ m.exports) :
    (owner.object? e.kind e.index).isSome = true := by
  have inside : e.index < m.count e.kind := by
    simp only [Module.isValid, Bool.and_eq_true, List.all_eq_true] at valid
    have bounded := valid.1.1.1.1.1.2 e mem
    exact of_decide_eq_true bounded.2
  cases kind : e.kind with
  | func =>
    rw [kind, Module.count, h.funcs.length_eq] at inside
    simp [object?, inside]
  | memory =>
    rw [kind, Module.count, h.memories.length_eq] at inside
    simp [object?, inside]
  | table =>
    rw [kind, Module.count, h.tables.length_eq] at inside
    simp [object?, inside]
  | global =>
    rw [kind, Module.count, h.globals.length_eq] at inside
    simp [object?, inside]

/-- A unit of a valid module lists its functions and globals in order of declaration. -/
theorem Store.names_of_instantiate {s s' : Store} {d : Definitions} {m : Module} {owner : Instance} {referenceTypes : Bool}
    (valid : m.isValid referenceTypes = true) (joined : s.instantiate d m = (.ok owner, s')) :
    owner.symbols.map (·.1) = (m.exports.filter Export.isSymbol).map (·.name) := by
  have typed := typed_of_instantiate joined
  obtain ⟨objects, -, rfl, -⟩ := instantiate_ok joined
  exact Instance.names_of_there fun e mem => typed.there valid mem

/-! Links that return. -/

/-- What a unit was made from: the bytes that a range of memory held then, for the bases that were asked for. -/
structure LinkedUnit.MadeFrom (u : LinkedUnit) (r : LinkRequest) (w : World) (p : Program) : Prop where
  inside : r.address + r.count ≤ (w.memory p).size
  bytes : u.bytes = (w.memory p).slice r.address r.count
  count : u.bytes.length = r.count
  compiled : w.engine.compile? u.bytes = some u.module
  memoryBase : (u.memoryBase : Int) = r.memoryBase.toInt
  tableBase : (u.tableBase : Int) = r.tableBase.toInt
  exports : u.exportNames = (u.module.exports.filter Export.isSymbol).map (·.name)

/-- How a unit has run in the states in which it was its link's turn: its static initializer returned zero, then its main
entry point returned the unit's result, and then the base's own renderer was called with it and returned. By the state `z`
in which that call was made, the exports of the unit were published. -/
inductive LinkedUnit.Ran (u : LinkedUnit) (abi : Abi) (base : Instance) (own : List Machine) : Prop where
  | intro (initializer main report : Callee) (opening : List Turn) (zero results rendered : List Value)
      (earlier : List Machine) (n y z : Machine) (entries : u.toLinking.Entries abi initializer main)
      (opened : u.toLinking.Opening initializer opening) (success : signed (zero.headD .null).word = 0)
      (result : u.state.result? = some (signed (results.headD .null).word))
      (renderer : base.export? abi.reportResult = some (.func report))
      (turns : own.map Machine.turn = opening ++ [{ given := some (.ok zero), called := some (main, []) },
        { given := some (.ok results), called := some (report, [.i32 (results.headD .null).word]) },
        { given := some (.ok rendered), called := none }])
      (last : own = earlier ++ [n, y]) (step : n.step = .inl z)
      (published : z.world.Executed abi u.toLinking u.index (results.headD .null).word)

theorem Action.madeFrom_of_prepare {r : LinkRequest} {w w' : World} {l : Linking}
    (run : (Action.prepare r).run.run w = (.ok l, w')) :
    ∃ p, w.program = some p ∧ l.owner.Distinct ∧
      ∀ index state, ({ l with index, state } : LinkedUnit).MadeFrom r w p := by
  obtain ⟨p, prepared, d, v, v', -, -, joined⟩ := prepare_joined run
  have valid := Engine.compile?_valid prepared.compiled
  have read := prepared.read
  unfold Memory.readBytes at read
  split at read
  · rename_i inside
    obtain ⟨memoryBase, tableBase⟩ : (l.memoryBase : Int) = r.memoryBase.toInt ∧ (l.tableBase : Int) = r.tableBase.toInt := by
      rcases r.checkBases_cases p.floor with ⟨bases, above⟩ | ⟨region, requested, base, failed, -⟩
      · obtain ⟨memory, table⟩ := Prod.mk.inj (Except.ok.inj (prepared.bases.symm.trans bases))
        rw [memory, table]
        omega
      · rw [prepared.bases] at failed
        cases failed
    have bytes : l.bytes = (w.memory p).slice r.address r.count := (Except.ok.inj read).symm
    refine ⟨p, prepared.program, Instance.distinct_of_instantiate valid joined, fun index state => ?_⟩
    exact {
      inside, bytes, memoryBase, tableBase
      count := by
        show l.bytes.length = r.count
        rw [bytes, Memory.slice, List.length_map, List.length_range']
      compiled := prepared.compiled
      exports := Store.names_of_instantiate valid joined }
  · cases read

/-- A link that returns has taken its last turn. -/
theorem Machine.Course.ran {abi : Abi} {base : Instance} {l : Linking} {own : List Machine} {y : Machine} {i : Nat}
    {rendered : List Value} (h : Course abi base l own y.world (.report i))
    (received : y.received? = some (.report i, .ok rendered)) :
    ∃ state, y.world.units[i]? = some { l with index := i, state } ∧
      ({ l with index := i, state } : LinkedUnit).Ran abi base (own ++ [y]) := by
  have turn : y.turn = { given := some (.ok rendered), called := none } := by
    rw [Machine.turn, called?, (step_received received).1, received]
    rfl
  cases h with
  | rendering initializer main report index opening zero results earlier n z entries opened success renderer turns last step
      published unit =>
    refine ⟨_, unit, ?_⟩
    refine .intro initializer main report opening zero results rendered earlier n y z entries opened success rfl renderer ?_
      ?_ step published
    · rw [List.map_append, turns, List.map_singleton, turn, List.append_assoc]
      rfl
    · rw [last, List.append_assoc]
      rfl

variable {life : List Machine} {stage : Stage} {before between after : List Machine} {x y next : Machine}
  {r : LinkRequest} {i : Nat}

theorem Machine.Follows.link (h : Follows x next) (link : x.link? = some r) : next = x.link r := by
  obtain ⟨step, -⟩ := step_link link
  rcases h with same | ⟨outcome, ended⟩
  · rw [step] at same
    exact (Sum.inl.inj same).symm
  · rw [step] at ended
    cases ended

/-- From the state after its link on, a unit reads its bases. -/
theorem Life.readsBases_later (h : Life (before ++ x :: next :: after) stage) (link : x.link? = some r) {l : Linking}
    {w : World} (run : (Action.prepare r).run.run x.world = (.ok l, w)) :
    (∀ n ∈ next :: after, l.ReadsBases x.world.config.abi n.world) ∧ l.ReadsBases x.world.config.abi stage.world := by
  obtain ⟨earlier, begun⟩ := h.of_mem (n := x) (by simp)
  have whole := h.chain
  rw [List.append_assoc] at whole
  have follows : Machine.Follows x next := (List.isChain_cons_cons.1 whole.right_of_append).1
  have reads : l.ReadsBases x.world.config.abi next.world := by
    refine (begun.readsBases run).mono ?_
    have store := x.store_link r
    rw [run] at store
    rw [follows.link link, World.Fixes, store]
    exact refl_of Store.Fixes _
  obtain ⟨-, among, since⟩ := h.remains
  refine ⟨List.forall_mem_cons.2 ⟨reads, fun n mem => ?_⟩, reads.mono (since next (by simp)).fixes⟩
  have later := (List.pairwise_cons.1 (List.pairwise_append.1 among).2.1).2
  exact reads.mono ((List.pairwise_cons.1 later).1 n mem).fixes

/-- A link that returns has prepared its unit and gone through its course. -/
theorem Machine.ran_of_returned (chain : (x :: (between ++ [y])).IsChain Follows) (link : x.link? = some r)
    (returned : y.returned? = some i) (base : y.base.length = x.frames.length)
    (inside : ∀ n ∈ between, x.frames.length < n.frames.length) :
    ∃ l w p state, (Action.prepare r).run.run x.world = (.ok l, w) ∧ x.world.program = some p ∧
      ({ l with index := i, state } : LinkedUnit).MadeFrom r x.world p ∧
      y.world.units[i]? = some { l with index := i, state } ∧
      ({ l with index := i, state } : LinkedUnit).Ran x.world.config.abi p.base
        (ownOn x.frames (x :: (between ++ [y]))) := by
  obtain ⟨rendered, received⟩ := returned?_eq_some returned
  obtain ⟨-, frames⟩ := step_received received
  have own := base_of_received received
  have inside : ∀ n ∈ between ++ [y], x.frames.length < n.frames.length := by
    refine List.forall_mem_append.2 ⟨inside, List.forall_mem_singleton.2 ?_⟩
    rw [frames, List.length_cons, ← own, base]
    exact Nat.lt_succ_self _
  obtain ⟨next, head⟩ : ∃ next, (between ++ [y]).head? = some next := by cases between <;> exact ⟨_, rfl⟩
  obtain ⟨first, rest⟩ := List.isChain_cons.1 chain
  obtain rfl := (first next head).link link
  obtain ⟨l, w, f, run, waiting, course⟩ := link_course link (inside _ (List.mem_of_head? head))
  rw [← List.nil_append (f :: x.frames)] at waiting
  obtain ⟨p, program, distinct, made⟩ := Action.madeFrom_of_prepare run
  have setting : Setting x.world.config.abi p.base x.world := ⟨rfl, p, program, rfl⟩
  obtain ⟨above, f', top, course⟩ := (course p.base).run (setting.step (step_link link).1) distinct
    waiting head rest inside
  -- In its last state the link has nothing above its frame, which is the one that receives an outcome.
  obtain rfl : above = [] := by
    have length := congrArg List.length (frames.symm.trans top)
    rw [List.length_cons, ← own, base, List.length_append, List.length_cons] at length
    exact List.eq_nil_of_length_eq_zero (by omega)
  obtain ⟨rfl, -⟩ := List.cons.inj (frames.symm.trans top)
  obtain ⟨state, unit, ran⟩ := course.ran received
  refine ⟨l, w, p, state, run, program, made i state, unit, ?_⟩
  have begun : ownOn x.frames [x] = [x] := ownOn_own (congrArg List.length (base_of_unreceived (step_link link).2))
  have split : ownOn x.frames (x :: (between ++ [y])) = [x] ++ ownOn x.frames between ++ [y] := by
    calc
      ownOn x.frames ([x] ++ between ++ [y]) = ownOn x.frames [x] ++ ownOn x.frames between ++ ownOn x.frames [y] := by
        rw [ownOn_append, ownOn_append]
      _ = [x] ++ ownOn x.frames between ++ [y] := by rw [begun, ownOn_own base]
  rw [split]
  exact ran

/-- A link that returns an index, at any stage of any life later on: the unit of that index was made from what was asked
for, wherever it imports its bases it reads them from the first moment on, and it has run. -/
theorem links_run_their_course (h : Life life stage) (states : life = before ++ x :: (between ++ y :: after))
    (link : x.link? = some r) (returned : y.returned? = some i) (base : y.base.length = x.frames.length)
    (inside : ∀ n ∈ between, x.frames.length < n.frames.length) :
    ∃ u p, stage.world.units[i]? = some u ∧ x.world.program = some p ∧ u.MadeFrom r x.world p ∧
      (∀ n ∈ between ++ y :: after, u.toLinking.ReadsBases x.world.config.abi n.world) ∧
      u.toLinking.ReadsBases x.world.config.abi stage.world ∧
      u.Ran x.world.config.abi p.base (Machine.ownOn x.frames (x :: (between ++ [y]))) := by
  have chain : (x :: (between ++ [y])).IsChain Machine.Follows := by
    have whole := h.chain
    have parts : life ++ stage.current = before ++ (x :: (between ++ [y]) ++ (after ++ stage.current)) := by simp [states]
    rw [parts] at whole
    exact whole.right_of_append.left_of_append
  obtain ⟨l, w, p, state, run, program, made, unit, ran⟩ := Machine.ran_of_returned chain link returned base inside
  obtain ⟨next, rest, split⟩ : ∃ next rest, between ++ y :: after = next :: rest := by cases between <;> exact ⟨_, _, rfl⟩
  have kept := h.remains.2.since y (by simp [states])
  rw [split] at states ⊢
  subst states
  obtain ⟨reads, readsAtLast⟩ := h.readsBases_later link run
  exact ⟨_, p, World.unit_of_prefix kept.units unit, program, made, reads, readsAtLast, ran⟩

/-- The first link of a life, the states until it returns, and the state in which it does. -/
def Machine.firstReturn? (life : List Machine) : Option (Machine × List Machine × Machine) :=
  match life.dropWhile (·.link?.isNone) with
  | x :: later =>
    let waits (n : Machine) := n.returned?.isNone || n.base.length != x.frames.length
    (later.dropWhile waits).head?.map (x, later.takeWhile waits, ·)
  | [] => none

theorem Machine.firstReturn?_eq_some (h : firstReturn? life = some (x, between, y)) :
    (∃ before after, life = before ++ x :: (between ++ y :: after)) ∧ x.link?.isSome = true ∧
      y.base.length = x.frames.length := by
  unfold firstReturn? at h
  split at h
  · rename_i first later begun
    obtain ⟨last, ended, h⟩ := Option.map_eq_some_iff.1 h
    cases h
    obtain ⟨after, rest⟩ := List.head?_eq_some_iff.1 ended
    obtain ⟨states, links⟩ := eq_append_of_dropWhile begun
    obtain ⟨inside, returns⟩ := eq_append_of_dropWhile rest
    refine ⟨⟨_, after, by rw [← inside]; exact states⟩, by simpa using links, ?_⟩
    simpa using (Bool.or_eq_false_iff.1 returns).2
  · cases h

/-- A unit whose main entry point returns its memory base. -/
def Sample.basedText : String :=
  "(import \"env\" \"__memory_base\"(global i32))" ++
  "(func(export \"static_init\")(result i32)i32.const 0)(func(export \"main\")(result i32)global.get 0)"

/-- A base whose evaluator links that unit. -/
def Sample.basingBase : Module :=
  let unit := Text.Utf8.encode basedText
  .ofEvaluator [.compileInit] [] [.i32 1000, .i32 (.ofNat unit.length), .i32 2048, .i32 1, .call 0]
    [{ memory := 0, offset := .i32 1000, bytes := unit }]

/-- A unit linked at the memory base 2048 reads that base from its imported global: its main entry point returns it. -/
theorem linked_unit_returns_base : ∃ life s before x between y after r u p, Life life (.idle s) ∧
    life = before ++ x :: (between ++ y :: after) ∧ x.link? = some r ∧ y.returned? = some 0 ∧
    y.base.length = x.frames.length ∧ (∀ n ∈ between, x.frames.length < n.frames.length) ∧
    s.world.units[0]? = some u ∧ u.state.result? = some 2048 ∧ u.MadeFrom r x.world p ∧
    u.toLinking.ReadsBases x.world.config.abi s.world ∧
    u.Ran x.world.config.abi p.base (Machine.ownOn x.frames (x :: (between ++ [y]))) := by
  have evaluated : (Session.traced 100 Sample.basingBase "").bind (fun (life, s) =>
      (Machine.firstReturn? life).map fun (x, between, y) => (s.world.units.map (·.state.result?), y.returned?,
        between.all fun n => decide (x.frames.length < n.frames.length))) =
      some ([some 2048], some 0, true) := by decide +kernel
  obtain ⟨⟨life, s⟩, traced, found⟩ := Option.bind_eq_some_iff.1 evaluated
  obtain ⟨⟨x, between, y⟩, first, found⟩ := Option.map_eq_some_iff.1 found
  obtain ⟨values, found⟩ := Prod.mk.inj found
  obtain ⟨returned, deeper⟩ := Prod.mk.inj found
  have inside : ∀ n ∈ between, x.frames.length < n.frames.length :=
    fun n mem => of_decide_eq_true (List.all_eq_true.1 deeper n mem)
  obtain ⟨⟨before, after, states⟩, link, base⟩ := Machine.firstReturn?_eq_some first
  obtain ⟨r, link⟩ := Option.isSome_iff_exists.1 link
  have h := Life.traced (by decide +kernel) traced
  obtain ⟨u, p, unit, -, made, -, reads, ran⟩ := links_run_their_course h states link returned base inside
  have value : u.state.result? = some 2048 := by
    have position := congrArg (·[0]?) values
    dsimp only [Stage.world] at unit
    simpa [unit] using position
  exact ⟨life, s, before, x, between, y, after, r, u, p, h, states, link, returned, base, inside, unit, value, made, reads,
    ran⟩

end UnitHost
