import UnitHost.Shell.Loop
import UnitHost.Proofs.Growth
import UnitHost.Proofs.Isolation

/-!
# Lines are read in blocks

The shell collects lines until they are balanced. `Cut` says what comes of that for any number of lines: blocks, each the
shortest run of lines that is balanced, and then lines that are never complete. There is one such cut of any lines, and
`cut` finds it while it goes through them as the shell does.

A block has the shell do one thing or nothing, which `Deed.ofText?` reads off its trimmed text. `loop_eq` says that a run
of the shell does the deeds of the blocks, in order and each once, up to the block that tells it to quit. A text is
submitted at the time at which the last line of its block is read.
-/

namespace UnitHost.Shell

/-! Blocks of lines. -/

/-- Lines as they are collected: a newline follows each. -/
def blockText (lines : List Line) : String := String.join (lines.map (·.text ++ "\n"))

/-- The shortest run of lines that is balanced. -/
structure IsBlock (lines : List Line) : Prop where
  nonempty : lines ≠ []
  balanced : isBalanced (blockText lines) = true
  shortest : ∀ first, first <+: lines → first ≠ [] → isBalanced (blockText first) = true → first = lines

/-- Lines that do not begin with a block. -/
def Incomplete (lines : List Line) : Prop :=
  ∀ first, first <+: lines → first ≠ [] → isBalanced (blockText first) = false

/-- Lines are cut into blocks, one after the other, and what is left over. -/
structure Cut (lines : List Line) (blocks : List (List Line)) (leftover : List Line) : Prop where
  whole : lines = blocks.flatten ++ leftover
  blocks : ∀ block ∈ blocks, IsBlock block
  leftover : Incomplete leftover

theorem blockText_nil : blockText [] = "" := rfl

theorem blockText_concat (lines : List Line) (line : Line) :
    blockText (lines ++ [line]) = blockText lines ++ line.text ++ "\n" := by
  simp [blockText, String.join, String.append_assoc]

theorem incomplete_nil : Incomplete [] := by
  intro first begins some
  exact absurd (List.prefix_nil.1 begins) some

/-- Lines that begin with a block are not incomplete. -/
theorem IsBlock.not_incomplete {block rest : List Line} (h : IsBlock block) : ¬ Incomplete (block ++ rest) := by
  intro incomplete
  have unbalanced := incomplete block (List.prefix_append block rest) h.nonempty
  rw [h.balanced] at unbalanced
  cases unbalanced

/-- Of two blocks that the same lines begin with, neither is longer. -/
theorem IsBlock.unique {block block' lines : List Line} (h : IsBlock block) (h' : IsBlock block')
    (begins : block <+: lines) (begins' : block' <+: lines) : block = block' := by
  rcases List.prefix_or_prefix_of_prefix begins begins' with shorter | longer
  · exact h'.shortest block shorter h.nonempty h.balanced
  · exact (h.shortest block' longer h'.nonempty h'.balanced).symm

/-- Lines can be cut in one way only. -/
theorem Cut.unique {lines leftover leftover' : List Line} {blocks blocks' : List (List Line)}
    (h : Cut lines blocks leftover) (h' : Cut lines blocks' leftover') : blocks = blocks' ∧ leftover = leftover' := by
  induction blocks generalizing lines blocks' with
  | nil =>
    cases blocks' with
    | nil => exact ⟨rfl, h.whole.symm.trans h'.whole⟩
    | cons block rest =>
      have begins : leftover = block ++ (rest.flatten ++ leftover') := by simpa using h.whole.symm.trans h'.whole
      exact absurd (begins ▸ h.leftover) (h'.blocks block List.mem_cons_self).not_incomplete
  | cons block rest ih =>
    have split : lines = block ++ (rest.flatten ++ leftover) := by simpa using h.whole
    cases blocks' with
    | nil =>
      have begins : leftover' = block ++ (rest.flatten ++ leftover) := by simpa using h'.whole.symm.trans split
      exact absurd (begins ▸ h'.leftover) (h.blocks block List.mem_cons_self).not_incomplete
    | cons block' rest' =>
      have split' : lines = block' ++ (rest'.flatten ++ leftover') := by simpa using h'.whole
      have same : block = block' := (h.blocks block List.mem_cons_self).unique (h'.blocks block' List.mem_cons_self)
        (split ▸ List.prefix_append _ _) (split' ▸ List.prefix_append _ _)
      subst same
      have after : rest.flatten ++ leftover = rest'.flatten ++ leftover' := by
        rw [split] at split'
        exact List.append_cancel_left split'
      obtain ⟨rfl, rfl⟩ := ih ⟨rfl, fun b mem => h.blocks b (List.mem_cons_of_mem _ mem), h.leftover⟩
        ⟨after, fun b mem => h'.blocks b (List.mem_cons_of_mem _ mem), h'.leftover⟩
      exact ⟨rfl, rfl⟩

/-- Goes through lines after some that are not complete. -/
def cut (begun : List Line) : List Line → List (List Line) × List Line
  | [] => ([], begun)
  | line :: rest =>
    if isBalanced (blockText (begun ++ [line])) then ((begun ++ [line]) :: (cut [] rest).1, (cut [] rest).2)
    else cut (begun ++ [line]) rest

/-- The lines that are read, those begun before included, are cut into blocks. -/
theorem cut_spec {begun : List Line} (incomplete : Incomplete begun) (lines : List Line) :
    Cut (begun ++ lines) (cut begun lines).1 (cut begun lines).2 := by
  induction lines generalizing begun with
  | nil => exact ⟨List.append_nil begun, List.forall_mem_nil _, incomplete⟩
  | cons line rest ih =>
    -- A beginning of the lines with one more is a beginning of those before, or all of them.
    have begins {first : List Line} (h : first <+: begun ++ [line]) (some : first ≠ [])
        (balanced : isBalanced (blockText first) = true) : first = begun ++ [line] := by
      rcases List.prefix_concat_iff.1 h with all | earlier
      · exact all
      · rw [incomplete first earlier some] at balanced
        cases balanced
    unfold cut
    split
    · rename_i balanced
      have block : IsBlock (begun ++ [line]) := ⟨by simp, balanced, fun _ => begins⟩
      have more := ih incomplete_nil
      refine ⟨?_, List.forall_mem_cons.2 ⟨block, more.blocks⟩, more.leftover⟩
      have whole : rest = (cut [] rest).1.flatten ++ (cut [] rest).2 := more.whole
      simp [← whole]
    · rename_i unbalanced
      have still : Incomplete (begun ++ [line]) := by
        intro first h some
        by_contra balanced
        have all := begins h some (Bool.of_not_eq_false balanced)
        rw [all] at balanced
        exact unbalanced (Bool.of_not_eq_false balanced)
      simpa using ih still

/-! What blocks have the shell do. -/

/-- What the shell does with a block that is not blank and does not tell it to quit. -/
inductive Deed where
  | submit (time : Nat) (text : String)
  /-- Show what a command asks for. -/
  | list (c : Command)
  /-- Report a file that cannot be read. -/
  | refuse (path : String) (fault : ReadFault)
  deriving DecidableEq

/-- The text that a deed submits. -/
def Deed.text? : Deed → Option String
  | .submit _ text => some text
  | .list _ | .refuse .. => none

/-- A text that tells the shell to quit: after the colon, the first word is `quit` or `q`. -/
def quits (text : String) : Bool :=
  match text.toList with
  | ':' :: rest =>
    let first := (Text.words (String.ofList rest)).head?
    first == some "quit" || first == some "q"
  | _ => false

/-- The command that shows something, by its name. -/
def listing : String → Command
  | "units" | "u" => .units
  | "history" | "h" => .history
  | "memory" | "m" => .memory
  | name => .unknown name

section Deeds

variable (read : String → Except ReadFault (List UInt8)) (time : Nat)

/-- What a file has the shell do: its text is submitted as it is. -/
def Deed.ofFile (path : String) : Deed :=
  match (read path).bind textOf with
  | .ok contents => .submit time contents
  | .error fault => .refuse path fault

/-- What the words after a colon have the shell do: `load` or `l` submits the file that the next word names. -/
def Deed.ofWords? : List String → Option Deed
  | [] => some (.list (.unknown ""))
  | word :: rest =>
    if word = "quit" ∨ word = "q" then none
    else if word = "load" ∨ word = "l" then
      some (rest.head?.elim (.list (.unknown "load needs a path")) (ofFile read time))
    else some (.list (listing word))

/-- What the trimmed text of a block has the shell do: nothing if it is blank, a command if it begins with a colon, and
otherwise it is submitted as it is. -/
def Deed.ofText? (text : String) : Option Deed :=
  match text.toList with
  | [] => none
  | ':' :: rest => ofWords? read time (Text.words (String.ofList rest))
  | _ => some (.submit time text)

/-- The trimmed text of a block. -/
def trimmed (block : List Line) : String := Text.trim (blockText block)

/-- The time at which the last line of a block is read. -/
def completed (block : List Line) : Nat := (block.getLast?.map Line.time).getD 0

/-- The deeds of blocks, up to the one that tells the shell to quit. -/
def Deed.ofBlocks (blocks : List (List Line)) : List Deed :=
  (blocks.takeWhile fun block => !quits (trimmed block)).filterMap fun block =>
    ofText? read (completed block) (trimmed block)

theorem Deed.ofBlocks_cons (block : List Line) (rest : List (List Line)) :
    ofBlocks read (block :: rest) = if quits (trimmed block) then []
      else (ofText? read (completed block) (trimmed block)).toList ++ ofBlocks read rest := by
  unfold ofBlocks
  rw [List.takeWhile_cons]
  cases quits (trimmed block) with
  | true => rfl
  | false =>
    rw [Bool.not_false, if_pos rfl, if_neg Bool.false_ne_true, List.filterMap_cons]
    cases ofText? read (completed block) (trimmed block) <;> rfl

/-- What a command has the shell do. -/
def Deed.ofCommand? : Command → Option Deed
  | .quit => none
  | .load path => some (ofFile read time path)
  | c => some (.list c)

/-- The words after a colon are read as the command that they name. -/
theorem Deed.ofWords?_eq (words : List String) : ofWords? read time words = ofCommand? read time (.ofWords words) := by
  rcases words with _ | ⟨word, _ | ⟨path, rest⟩⟩
  · rfl
  -- Only `load` looks at the word after the first.
  all_goals
    unfold Command.ofWords
    dsimp only
    split <;> simp_all [ofWords?, ofCommand?, listing]

end Deeds

theorem Command.ofWords_eq_quit_iff (words : List String) :
    ofWords words = .quit ↔ words.head? = some "quit" ∨ words.head? = some "q" := by
  unfold ofWords
  split
  · simp
  · split <;> simp_all

theorem Command.ofInput?_eq_quit_iff (text : String) : ofInput? text = some .quit ↔ quits text = true := by
  unfold ofInput?
  split
  · rename_i found
    simp [quits, found, ofWords_eq_quit_iff]
  · rename_i other
    unfold quits
    split
    · rename_i rest found
      exact absurd found (other rest)
    · simp

/-! Doing them. -/

/-- What a command shows of a session. -/
def listed (s : Session) : Command → List Item
  | .units => listUnits s.units
  | .history => listHistory s.history
  | .memory => listMemory s.snapshot
  | .unknown name => [.refused s!"; unknown command :{name}"]
  | .load _ | .quit => []

/-- Does a deed: what is shown, and the session after it. Unless the shell is quiet, what the console has recorded is
shown before the response. -/
def perform (fuel : Nat) (quiet : Bool) (s : Session) : Deed → Option (List Item × Session)
  | .submit time text => ((s.atTime time).submit fuel text).bind fun (answer, s) => answer.toOption.map fun response =>
    if quiet then ([.response response], s)
    else (s.drainConsole.1.toList.map .event ++ [.response response], s.drainConsole.2)
  | .list c => some (listed s c, s)
  | .refuse path fault => some ([.refused s!"; cannot read {path}: {fault.message}"], s)

section Performing

variable (fuel : Nat) (quiet : Bool) {s s' : Session}

theorem perform_submit {time : Nat} {text : String} {items : List Item}
    (done : perform fuel quiet s (.submit time text) = some (items, s')) :
    ∃ r next, (s.atTime time).submit fuel text = some (.ok r, next) ∧ (items, s') = if quiet then ([.response r], next)
      else (next.drainConsole.1.toList.map .event ++ [.response r], next.drainConsole.2) := by
  obtain ⟨⟨answer, next⟩, submitted, done⟩ := Option.bind_eq_some_iff.1 done
  obtain ⟨r, answered, done⟩ := Option.map_eq_some_iff.1 done
  rw [ok_of_toOption answered] at submitted
  exact ⟨r, next, submitted, done.symm⟩

/-- A deed leaves the session ready, and adds what it submits to the history. -/
theorem perform_history {d : Deed} {items : List Item} (ready : s.state = .ready)
    (done : perform fuel quiet s d = some (items, s')) :
    s'.state = .ready ∧ s'.history.map (·.input) = s.history.map (·.input) ++ d.text?.toList := by
  cases d with
  | submit time text =>
    obtain ⟨r, next, submitted, done⟩ := perform_submit fuel quiet done
    obtain ⟨_, -, ready, history, -⟩ := Session.submit_answered (s := s.atTime time) ready submitted
    have last : s'.state = next.state ∧ s'.history = next.history := by
      cases quiet <;> cases done <;> exact ⟨rfl, rfl⟩
    rw [last.1, last.2, history]
    exact ⟨ready, by simp [Deed.text?, Session.atTime]⟩
  | list c =>
    cases done
    exact ⟨ready, by simp [Deed.text?]⟩
  | refuse path fault =>
    cases done
    exact ⟨ready, by simp [Deed.text?]⟩

theorem askEach_perform_history {deeds : List Deed} {shown : List (List Item)} (ready : s.state = .ready)
    (done : askEach (perform fuel quiet) s deeds = some (shown, s')) :
    s'.state = .ready ∧ s'.history.map (·.input) = s.history.map (·.input) ++ deeds.filterMap Deed.text? := by
  induction deeds generalizing s shown with
  | nil =>
    cases done
    exact ⟨ready, by simp⟩
  | cons d rest ih =>
    obtain ⟨items, next, more, first, others, -⟩ := askEach_cons_some done
    obtain ⟨ready, history⟩ := perform_history fuel quiet ready first
    obtain ⟨ready, histories⟩ := ih ready others
    refine ⟨ready, ?_⟩
    rw [histories, history, List.append_assoc]
    cases text : d.text? <;> simp [text]

/-! Runs of the shell. -/

variable (read : String → Except ReadFault (List UInt8))

theorem submit_eq (ready : s.state = .ready) (time : Nat) (text : String) :
    submit fuel quiet time { loaded := .ok s } text =
      (perform fuel quiet s (.submit time text)).map fun told => (told.1, .continues { loaded := .ok told.2 }) := by
  have asked : Handle.submit fuel (Handle.atTime { loaded := .ok s } time) text =
    ((s.atTime time).submit fuel text).map fun told => (told.1, { loaded := .ok told.2 }) := rfl
  unfold submit perform
  dsimp only
  rw [asked]
  cases submitted : (s.atTime time).submit fuel text with
  | none => rfl
  | some told =>
    obtain ⟨answer, next⟩ := told
    obtain ⟨r, rfl, -⟩ := Session.submit_answered (s := s.atTime time) ready submitted
    cases quiet <;> rfl

/-- What becomes of the shell after a deed, or after nothing. -/
def turnOf (s : Session) (d : Option Deed) : Option (List Item × Turn) :=
  d.elim (some ([], .continues { loaded := .ok s })) fun d =>
    (perform fuel quiet s d).map fun told => (told.1, .continues { loaded := .ok told.2 })

theorem handle_command (ready : s.state = .ready) (time : Nat) {c : Command} (stays : c ≠ .quit) :
    handle fuel read quiet time { loaded := .ok s } (.command c) =
      turnOf fuel quiet s (Deed.ofCommand? read time c) := by
  cases c with
  | quit => exact absurd rfl stays
  | load path =>
    unfold handle Deed.ofCommand? Deed.ofFile
    dsimp only
    cases (read path).bind textOf with
    | ok contents => exact submit_eq fuel quiet ready time contents
    | error fault => rfl
  | _ => rfl

/-- The shell does with a block what its trimmed text has it do. -/
theorem handle_eq (ready : s.state = .ready) (time : Nat) (block : List Line) :
    handle fuel read quiet time { loaded := .ok s } (.ofBlock (blockText block)) =
      if quits (trimmed block) then some ([], .ends)
      else turnOf fuel quiet s (Deed.ofText? read time (trimmed block)) := by
  unfold Input.ofBlock trimmed
  dsimp only
  generalize Text.trim (blockText block) = text
  have quitting := Command.ofInput?_eq_quit_iff text
  cases chars : text.toList with
  | nil =>
    have blank : text.isEmpty = true := by simpa using chars
    rw [if_pos blank]
    simp [handle, quits, Deed.ofText?, turnOf, chars]
  | cons c rest =>
    have some : text.isEmpty = false := by
      rw [← Bool.not_eq_true, String.isEmpty_iff]
      rintro rfl
      cases chars
    rw [if_neg (by simp [some])]
    by_cases colon : c = ':'
    · subst colon
      have command : Command.ofInput? text = .some (.ofWords (Text.words (String.ofList rest))) := by
        simp [Command.ofInput?, chars]
      have deed : Deed.ofText? read time text =
          Deed.ofCommand? read time (.ofWords (Text.words (String.ofList rest))) := by
        simp [Deed.ofText?, chars, Deed.ofWords?_eq]
      rw [command, Option.some.injEq] at quitting
      rw [command, deed]
      generalize Command.ofWords (Text.words (String.ofList rest)) = c at quitting ⊢
      by_cases quit : c = .quit
      · rw [if_pos (quitting.1 quit), quit]
        rfl
      · rw [if_neg fun told => quit (quitting.2 told), handle_command fuel quiet read ready time quit]
    · have plain : Command.ofInput? text = none := by simp [Command.ofInput?, chars, colon]
      have deed : Deed.ofText? read time text = .some (.submit time text) := by simp [Deed.ofText?, chars, colon]
      rw [plain] at quitting
      rw [plain, deed, if_neg fun told => by cases quitting.2 told]
      exact submit_eq fuel quiet ready time text

/-- The lines in front that are text. -/
def readable : List (Option Line) → List Line
  | some line :: rest => line :: readable rest
  | _ => []

/-- How a run ends that is not told to quit: a line that is not text is an error. -/
def ending (lines : List (Option Line)) : Option ShellFault :=
  if lines.all Option.isSome then none else some (.editor ReadFault.notText.message)

/-- The next line leaves the block incomplete, or completes it and has the shell do its deed. -/
theorem step_eq (ready : s.state = .ready) (begun : List Line) (line : Line) :
    step fuel read quiet { loaded := .ok s } (blockText begun) (some line) =
      if isBalanced (blockText (begun ++ [line])) then
        if quits (trimmed (begun ++ [line])) then some ([], .ends)
        else turnOf fuel quiet s (Deed.ofText? read line.time (trimmed (begun ++ [line])))
      else some ([], .continues { loaded := .ok s } (blockText (begun ++ [line]))) := by
  unfold step addLine
  dsimp only
  rw [← blockText_concat, ← handle_eq fuel quiet read ready]
  cases isBalanced (blockText (begun ++ [line])) with
  | true => rw [if_pos rfl, if_pos rfl]
  | false => rw [if_neg Bool.false_ne_true, if_neg Bool.false_ne_true]

/-- After lines that are not complete, a run does the deeds of the blocks that are read on. -/
theorem loop_eq (ready : s.state = .ready) (begun : List Line) (lines : List (Option Line)) :
    loop fuel read quiet { loaded := .ok s } (blockText begun) lines =
      (askEach (perform fuel quiet) s (Deed.ofBlocks read (cut begun (readable lines)).1)).map fun told =>
        (told.1.flatten,
          if (cut begun (readable lines)).1.any (fun block => quits (trimmed block)) then none else ending lines) := by
  induction lines generalizing begun s with
  | nil => rfl
  | cons line rest ih =>
    cases line with
    | none => rfl
    | some line =>
      have more : readable (some line :: rest) = line :: readable rest := rfl
      have ends : ending (some line :: rest) = ending rest := rfl
      rw [more, ends]
      unfold loop cut
      rw [step_eq fuel quiet read ready]
      cases isBalanced (blockText (begun ++ [line])) with
      | false =>
        have later := ih ready (begun ++ [line])
        simp only [Bool.false_eq_true, if_false, Option.bind_eq_bind, Option.bind_some, later]
        cases askEach (perform fuel quiet) s (Deed.ofBlocks read (cut (begun ++ [line]) (readable rest)).1) <;> rfl
      | true =>
        have time : completed (begun ++ [line]) = line.time := by simp [completed]
        simp only [if_true]
        rw [Deed.ofBlocks_cons, List.any_cons, time]
        cases quits (trimmed (begun ++ [line])) with
        | true => rfl
        | false =>
          simp only [Bool.false_or, Bool.false_eq_true, if_false]
          cases Deed.ofText? read line.time (trimmed (begun ++ [line])) with
          | none =>
            have later := ih ready []
            rw [blockText_nil] at later
            simp only [turnOf, Option.elim_none, Option.bind_eq_bind, Option.bind_some, later, Option.toList_none,
              List.nil_append]
            cases askEach (perform fuel quiet) s (Deed.ofBlocks read (cut [] (readable rest)).1) <;> rfl
          | some d =>
            rw [Option.toList_some, List.singleton_append, askEach_cons]
            simp only [turnOf, Option.elim_some, Option.bind_eq_bind]
            cases done : perform fuel quiet s d with
            | none => rfl
            | some told =>
              obtain ⟨items, next⟩ := told
              obtain ⟨ready, -⟩ := perform_history fuel quiet ready done
              have later := ih ready []
              rw [blockText_nil] at later
              simp only [Option.map_some, Option.bind_some, later]
              cases askEach (perform fuel quiet) next (Deed.ofBlocks read (cut [] (readable rest)).1) <;> rfl

end Performing

theorem readable_some (lines : List Line) : readable (lines.map some) = lines := by
  induction lines with
  | nil => rfl
  | cons line rest ih => rw [List.map_cons, readable, ih]

theorem ending_some (lines : List Line) : ending (lines.map some) = none := by
  simp [ending]

/-- A base whose evaluator posts the text. -/
def Sample.postingBase : Wasm.Module := .ofEvaluator [.postOutput] [] [.localGet 0, .localGet 1, .call 0]

/-- One file, whose text ends with a blank. -/
def Sample.files (path : String) : Except ReadFault (List UInt8) :=
  if path = "f" then .ok [104, 105, 32] else .error .notFound

/-- Two lines of one block, a blank line, a command that submits a file, one that quits, a text and a line that is not
complete. -/
def Sample.lines : List Line :=
  [{ text := "(a", time := 1 }, { text := "b)", time := 2 }, { text := "", time := 3 }, { text := ":l f", time := 4 },
    { text := ":q", time := 5 }, { text := "c", time := 6 }, { text := "(d", time := 7 }]

/-- The blocks of these lines. -/
def Sample.blocks : List (List Line) :=
  [[{ text := "(a", time := 1 }, { text := "b)", time := 2 }], [{ text := "", time := 3 }],
    [{ text := ":l f", time := 4 }], [{ text := ":q", time := 5 }], [{ text := "c", time := 6 }]]

/-- Any lines can be cut into blocks and what is left over in exactly one way. A run over them by a session that is ready
does the deeds of these blocks in order, up to the block that tells it to quit, and ends without a fault. It shows what the
deeds show, and the history of the session has, after what it had before, the texts that they submit. -/
theorem lines_read_in_blocks (fuel : Nat) (read : String → Except ReadFault (List UInt8)) (quiet : Bool) {s : Session}
    (ready : s.state = .ready) (lines : List Line) :
    ∃ blocks leftover, Cut lines blocks leftover ∧
      (∀ blocks' leftover', Cut lines blocks' leftover' → blocks' = blocks ∧ leftover' = leftover) ∧
      loop fuel read quiet { loaded := .ok s } "" (lines.map some) =
        (askEach (perform fuel quiet) s (Deed.ofBlocks read blocks)).map (fun told => (told.1.flatten, none)) ∧
      ∀ shown last, askEach (perform fuel quiet) s (Deed.ofBlocks read blocks) = some (shown, last) →
        last.state = .ready ∧
        last.history.map (·.input) = s.history.map (·.input) ++ (Deed.ofBlocks read blocks).filterMap Deed.text? := by
  have found : Cut lines (cut [] lines).1 (cut [] lines).2 := cut_spec incomplete_nil lines
  refine ⟨_, _, found, fun blocks leftover other => other.unique found, ?_, fun shown last done => ?_⟩
  · have ran := loop_eq fuel quiet read ready [] (lines.map some)
    rw [blockText_nil, readable_some, ending_some] at ran
    simpa using ran
  · exact askEach_perform_history fuel quiet ready done

/-- The blank block does nothing and the file is submitted with its blank, each text when its last line is read; nothing
is submitted after the command to quit. -/
theorem blocks_up_to_quit : ∃ s shown last, Session.load 100 {} Sample.postingBase {} = some (.ok s) ∧ s.state = .ready ∧
    askEach (perform 100 true) s [.submit 2 "(a\nb)", .submit 4 "hi "] = some (shown, last) ∧
    Cut Sample.lines Sample.blocks [{ text := "(d", time := 7 }] ∧
    loop 100 Sample.files true { loaded := .ok s } "" (Sample.lines.map some) =
      some ([.response (.output "(a\nb)"), .response (.output "hi ")], none) ∧
    last.state = .ready ∧ last.history.map (·.input) = ["(a\nb)", "hi "] := by
  have evaluated : ((Session.load 100 {} Sample.postingBase {}).bind fun loaded => loaded.toOption.bind fun s =>
      (askEach (perform 100 true) s [.submit 2 "(a\nb)", .submit 4 "hi "]).map fun told => (s.history, told.1)) =
      some ([], [[.response (.output "(a\nb)")], [.response (.output "hi ")]]) := by decide +kernel
  obtain ⟨loaded, begun, evaluated⟩ := Option.bind_eq_some_iff.1 evaluated
  obtain ⟨s, ok, evaluated⟩ := Option.bind_eq_some_iff.1 evaluated
  obtain ⟨⟨shown, last⟩, done, seen⟩ := Option.map_eq_some_iff.1 evaluated
  obtain ⟨history, items⟩ : s.history = [] ∧ shown = _ := Prod.mk.inj seen
  rw [ok_of_toOption ok] at begun
  obtain ⟨ready, -⟩ := Session.load_ok begun
  obtain ⟨blocks, leftover, -, unique, ran, after⟩ := lines_read_in_blocks 100 Sample.files true ready Sample.lines
  have found : Cut Sample.lines (cut [] Sample.lines).1 (cut [] Sample.lines).2 := cut_spec incomplete_nil _
  have cut_eq : cut [] Sample.lines = (Sample.blocks, [{ text := "(d", time := 7 }]) := by decide +kernel
  have deeds : Deed.ofBlocks Sample.files Sample.blocks = [.submit 2 "(a\nb)", .submit 4 "hi "] := by decide +kernel
  rw [cut_eq] at found
  obtain ⟨rfl, rfl⟩ := unique _ _ found
  rw [deeds] at ran after
  rw [done] at ran
  obtain ⟨still, inputs⟩ := after shown last done
  refine ⟨s, shown, last, begun, ready, done, found, ?_, still, ?_⟩
  · simpa [items] using ran
  · simpa [history, Deed.text?] using inputs

end UnitHost.Shell
