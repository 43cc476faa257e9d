import TaskPlanner.Shell.Builtin
import TaskPlanner.Shell.Program

/-!
# Evaluation of commands

What commands do to the shell that runs them.

One step of a command is a function of a way to run the commands inside it. A bound on the
depth closes the circle: a shell that calls itself without end dies from that. There is a
bound on the number of commands, and one on the rounds of a loop; a shell that goes beyond
them never comes to its end.
-/

set_option autoImplicit false

namespace TaskPlanner.Shell

/-! ## Scripts -/

/-- Run the lines of a script that are left, and whether there was a command. The count is
more than the number of lines. -/
def runLines (evaluate : Evaluation) (context : Context) :
    Nat → List Char → Process → Bool × Process
  | 0, _, process => (false, process)
  | count + 1, text, process =>
      if text.isEmpty || !process.isOnward then (false, process)
      else
        match line? text with
        | none => (true, process.abort)
        | some (.nothing, rest) => runLines evaluate context count rest process
        | some (command, rest) =>
            let isLast := context.isLast && rest.isEmpty && text.getLast? ≠ some '\n'
            let after := evaluate command { context with isLast } process
            (true, (runLines evaluate context count rest after).2)

/-- Run a script. Without a command it succeeds. -/
def runScript (evaluate : Evaluation) (context : Context) (script : String)
    (process : Process) : Process :=
  let text := script.toList
  let (hasRun, after) := runLines evaluate context (text.length + 1) text process
  if hasRun then after else after.endWith 0

/-- Bring a shell to its end: the trap for the end runs, and the status stays unless the trap
leaves the shell with another one. -/
def conclude (evaluate : Evaluation) (process : Process) : Process :=
  match process.course with
  | .killed _ | .hanging => process
  | _ =>
      match process.traps.lookup 0 with
      | none => { process with course := .exiting }
      | some action =>
          let traps := process.traps.filter (·.1 ≠ 0)
          let begun := { process with traps, course := .onward }
          let ended := runScript evaluate {} action begun
          match ended.course with
          | .killed _ | .hanging | .exiting => ended
          | _ => { ended with status := process.status, course := .exiting }

def heed (evaluate : Evaluation) : List Signal → Process → Process
  | [], process => process
  | signal :: signals, process =>
      if !process.isOnward then process
      else
        let kill : Process :=
          match effectOf signal.number with
          | .none => process
          | .stop => { process with course := .hanging }
          | .kill =>
              { process with
                course := .killed signal.number
                world := { process.world with clock := signal.time } }
        let next :=
          if isInescapable signal.number then kill
          else
            match process.traps.lookup signal.number with
            | none => kill
            | some "" => process
            | some action =>
                let ended := runScript evaluate {} action process
                if ended.course = .returning then ended
                else if ended.isOnward then ended.endWith process.status
                else ended
        heed evaluate signals next

def heedAll (evaluate : Evaluation) (process : Process) : Process :=
  let isArrived (signal : Signal) : Bool :=
    signal.receiver = process.number && signal.time ≤ process.world.clock
  let (arrived, others) := process.world.signals.partition isArrived
  if arrived.isEmpty then process
  else
    heed evaluate arrived { process with world := { process.world with signals := others } }

/-! ## Redirections -/

def withOpened (process : Process) (descriptor : Nat) (opened : Option (Channel × Process)) :
    Bool × Process :=
  match opened with
  | some (channel, after) => (true, after.withChannel descriptor (some channel))
  | none => (false, process)

/-- Carry out a redirection: whether that was possible, and what came of it. -/
def redirect (evaluate : Evaluation) (redirection : Redirection) (process : Process) :
    Bool × Process :=
  match redirection with
  | .write descriptor file =>
      let (path, after) := expandText evaluate file process
      withOpened after descriptor (after.openOutput? path false)
  | .append descriptor file =>
      let (path, after) := expandText evaluate file process
      withOpened after descriptor (after.openOutput? path true)
  | .read descriptor file =>
      let (path, after) := expandText evaluate file process
      withOpened after descriptor (after.openInput? path)
  | .document descriptor content =>
      let (text, after) := expandText evaluate content process
      let (number, world) := after.world.addStream text.toList
      (true, { after with world }.withChannel descriptor (some (.stream number)))
  | .duplicate descriptor other =>
      let (target, after) := expandText evaluate other process
      match target.toList with
      | ['-'] => (true, after.withChannel descriptor none)
      | [digit] =>
          if isDigit digit then
            match after.channel? (number [digit]) with
            | some channel => (true, after.withChannel descriptor (some channel))
            | none => (false, after)
          else (false, after.abort)
      | _ => (false, after.abort)

def redirectAll (evaluate : Evaluation) : List Redirection → Process → Bool × Process
  | [], process => (true, process)
  | redirection :: redirections, process =>
      match redirect evaluate redirection process with
      | (true, after) =>
          if after.isOnward then redirectAll evaluate redirections after else (false, after)
      | (false, after) => (false, after)

def withRedirections (evaluate : Evaluation) (redirections : List Redirection)
    (body : Process → Process) (process : Process) : Process :=
  let (isDone, redirected) := redirectAll evaluate redirections process
  let after := if isDone then body redirected else redirected.endWith 2
  { after with descriptors := process.descriptors }

/-! ## Programs that run commands -/

def inPlace (body : Process → Process) (process : Process) : Process :=
  let ended := body process
  match ended.course with
  | .killed _ | .hanging => ended
  | _ => { ended with course := .exiting }

/-- Run a shell in a process. It knows only the variables that are exported. -/
def runShell (evaluate : Evaluation) (options : List Char) (title : String)
    (arguments : List String) (script : String) (process : Process) : Process :=
  let shell : Process :=
    { number := process.number
      shellNumber := process.number
      forebears := process.forebears
      title, arguments, options
      bindings := process.bindings.filter (·.2.isExported)
      traps := process.traps.filter fun (_, action) => action.isEmpty
      descriptors := process.descriptors
      directory := process.directory
      world := process.world }
  conclude evaluate (runScript evaluate {} script shell)

def shellOptions : List String → List Char × List String
  | argument :: arguments =>
      match argument.toList with
      | ['-', '-'] => ([], arguments)
      | ['-', 'o'] | ['+', 'o'] =>
          match arguments with
          | name :: rest =>
              let (letters, others) := shellOptions rest
              ((Builtin.optionLetter? name).toList ++ letters, others)
          | [] => ([], [])
      | ['-'] => ([], arguments)
      | '-' :: letters | '+' :: letters =>
          let (others, rest) := shellOptions arguments
          (letters ++ others, rest)
      | _ => ([], argument :: arguments)
  | [] => ([], [])

def runShellProgram (evaluate : Evaluation) (arguments : List String) (process : Process) :
    Process :=
  let (letters, rest) := shellOptions arguments
  let options := letters.filter (· ≠ 'c')
  if letters.any fun letter => letter ≠ 'c' && letter ≠ 'l' &&
      !Builtin.optionLetters.contains letter then process.endWith 2
  else if letters.contains 'c' then
    match rest with
    | [] => process.endWith 2
    | [script] => runShell evaluate options "sh" [] script process
    | script :: title :: others => runShell evaluate options title others script process
  else
    match rest with
    | [] =>
        let script := String.ofList process.input
        runShell evaluate options "sh" [] script (process.withInput [])
    | path :: others =>
        match process.file? path with
        | some (.text content) =>
            runShell evaluate options path others (String.ofList content) process
        | some _ => process.endWith 0
        | none => process.endWith 2

/-- What a name stands for as a program. -/
inductive Lookup where
  | found (name : String)
  | missing
  | forbidden
deriving DecidableEq, Repr

/-- Look for a program. A name without a slash is looked for among the known programs. -/
def lookUp (process : Process) (name : String) : Lookup :=
  if name.toList.contains '/' then
    match process.file? name with
    | some .program => .found (lastStep name)
    | some _ => .forbidden
    | none => .missing
  else if isProgramPath ("/usr/bin/" ++ name) && name = lastStep name then .found name
  else .missing

def takeAssignments (arguments : List String) : List (String × String) × List String :=
  let isAssignment (argument : String) : Bool := argument.toList.contains '='
  ((arguments.takeWhile isAssignment).map fun argument =>
      let (name, value) := Builtin.splitArgument argument
      (name, value.getD ""),
    arguments.dropWhile isAssignment)

def exportAll (bindings : List (String × String)) (process : Process) : Process :=
  bindings.foldl (fun current (name, value) =>
    current.withVariable name (some { value := some value, isExported := true })) process

/-- The signal of a time limit, and the arguments behind the options. -/
def timeoutOptions : List String → Nat × List String
  | "-s" :: name :: arguments | "--signal" :: name :: arguments =>
      ((signalNumber? name).getD 15, (timeoutOptions arguments).2)
  | "-k" :: _ :: arguments | "--kill-after" :: _ :: arguments => timeoutOptions arguments
  | argument :: arguments =>
      if Program.isOption argument then
        let (signal, rest) := timeoutOptions arguments
        if argument = "--signal=KILL" || argument = "-sKILL" || argument = "-s9" then (9, rest)
        else (signal, rest)
      else (15, argument :: arguments)
  | [] => (15, [])

/-- Run a program by its name in a process. The count bounds the programs that run others. -/
def runProgram (evaluate : Evaluation) :
    Nat → String → List String → Process → Process
  | 0, _, _, process => process.endWith 126
  | count + 1, name, arguments, process =>
      match lookUp process name with
      | .missing => process.endWith 127
      | .forbidden => process.endWith 126
      | .found program =>
          let start (arguments : List String) (process : Process) (default : Process) :
              Process :=
            match arguments with
            | [] => default
            | inner :: others => runProgram evaluate count inner others process
          match program with
          | "sh" | "dash" | "bash" => runShellProgram evaluate arguments process
          | "env" =>
              let (isCleared, behind) := match arguments with
                | "-i" :: rest | "-" :: rest => (true, rest)
                | _ => (false, arguments)
              let unset := match behind with
                | "-u" :: name :: _ => [name]
                | _ => []
              let (bindings, rest) := takeAssignments (behind.drop (2 * unset.length))
              let kept := process.bindings.filter fun (name, _) =>
                !isCleared && !unset.contains name
              let changed := exportAll bindings { process with bindings := kept }
              start rest changed (process.endWith 0)
          | "nohup" => start arguments process (process.endWith 125)
          | "nice" =>
              let rest := match arguments with
                | "-n" :: _ :: rest => rest
                | first :: rest => if Program.isOption first then rest else arguments
                | [] => []
              start rest process (process.endWith 0)
          | "timeout" =>
              let (signal, plain) := timeoutOptions arguments
              match plain with
              | limit :: rest =>
                  match Program.duration? limit, rest with
                  | none, _ | _, [] => process.endWith 125
                  | some time, _ =>
                      let child := start rest process.child process
                      let deadline := process.world.clock + time
                      if time = 0 || child.endTime ≤ deadline then process.await child
                      else
                        { process with
                          status := if signal = 9 then 137 else 124
                          world := { child.world with clock := deadline } }
              | [] => process.endWith 125
          | "test" | "[" => Builtin.test program arguments process
          | "which" =>
              let isKnown (name : String) : Bool := lookUp process name = .found (lastStep name)
              process.endWith (if !arguments.isEmpty && arguments.all isKnown then 0 else 1)
          | "kill" =>
              match Builtin.kill? arguments process with
              | some sent => heedAll evaluate sent
              | none => process.endWith 1
          | _ => Program.run program arguments process

def programDepth : Nat := 100

/-- Run a program for a shell: in its place if nothing is left for it to do, and in a process
of its own otherwise. -/
def runForShell (evaluate : Evaluation) (context : Context) (name : String)
    (arguments : List String) (process : Process) : Process :=
  let exported (process : Process) : Process :=
    { process with bindings := process.bindings.filter (·.2.isExported) }
  let body := runProgram evaluate programDepth name arguments
  if context.isLast && !process.hasTraps then inPlace body (exported process)
  else process.await (inPlace body (exported process.child))

/-! ## Simple commands -/

def withAssignments (assignments : List (String × String)) (isExported : Bool)
    (body : Process → Process) (process : Process) : Process :=
  let assigned := assignments.foldl (fun current (name, value) =>
    let next := current.assign name value
    if isExported && next.isOnward then
      next.withVariable name ((next.findVariable? name).map ({ · with isExported := true }))
    else next) process
  if assigned.isOnward then
    let after := body assigned
    assignments.foldl
      (fun current (name, _) => current.withVariable name (process.findVariable? name)) after
  else assigned

def callLimit : Nat := 1000

/-- Call a function. Too many calls inside each other end the shell. -/
def call (evaluate : Evaluation) (context : Context) (body : Command)
    (arguments : List String) (process : Process) : Process :=
  if callLimit ≤ process.scopes.length then process.abort
  else
    let begun := { process with arguments, loops := 0, scopes := [] :: process.scopes }
    let ended := evaluate body { context with isLast := false } begun
    let hidden := ended.scopes.head?.getD []
    let restored := hidden.foldl
      (fun current (name, value) => current.withVariable name value) ended
    { restored with
      arguments := process.arguments
      loops := process.loops
      scopes := process.scopes
      course := if ended.course = .returning then .onward else ended.course }

/-- Run a program in place of a shell. The traps are lost unless there is no such program. -/
def replaceBy (evaluate : Evaluation) (name : String) (arguments : List String)
    (process : Process) : Process :=
  let exported := { process with bindings := process.bindings.filter (·.2.isExported) }
  let kept := match lookUp process name with
    | .found _ => { exported with traps := process.traps.filter (·.2.isEmpty) }
    | _ => exported
  inPlace (runProgram evaluate programDepth name arguments) kept

/-- Run the script in a file. Its commands run as if they stood in its place. -/
def runFile (evaluate : Evaluation) (arguments : List String) (process : Process) : Process :=
  match arguments with
  | [] => process.endWith 0
  | path :: _ =>
      match process.file? path with
      | some (.text content) =>
          let ended := runScript evaluate {} (String.ofList content) process
          if ended.course = .returning then { ended with course := .onward } else ended
      | some .device => process.endWith 0
      | _ => process.abort

/-- Run a command that is part of the shell. One that cannot be carried out is a failure, and
ends the shell if the command is a special one. -/
def runBuiltin (evaluate : Evaluation) (context : Context) (isSpecial : Bool) (name : String)
    (arguments : List String) (process : Process) : Process :=
  match name, arguments with
  | "eval", _ =>
      runScript evaluate { context with isLast := false } (" ".intercalate arguments) process
  | ".", _ => runFile evaluate arguments process
  | "exec", [] => process.endWith 0
  | "exec", program :: others => replaceBy evaluate program others process
  | _, _ =>
      match Builtin.run? name arguments process with
      | some after => after
      | none => if isSpecial then process.abort else process.endWith 2

/-- Run what the words of a command name. The count bounds the commands that only pass others
on. Such a command takes away from others what makes them special, and it hides functions. -/
def execute (evaluate : Evaluation) (context : Context) :
    Nat → Bool → List (String × String) → String → List String → Process → Process
  | 0, _, _, _, _, process => process.endWith 126
  | count + 1, isPassed, assignments, name, arguments, process =>
      let function := if isPassed then none else process.functions.lookup name
      if specialCommands.contains name && !isPassed then
        let assigned := assignments.foldl
          (fun current (name, value) => current.assign name value) process
        let marked := if name = "exec" then exportAll assignments assigned else assigned
        if assigned.isOnward then runBuiltin evaluate context true name arguments marked
        else assigned
      else
        match function with
        | some body =>
            withAssignments assignments false (call evaluate context body arguments) process
        | none =>
            if name = "command" then
              match arguments with
              | [] => process.endWith 0
              | "-v" :: names | "-V" :: names => Builtin.describe 127 names process
              | "-p" :: inner :: others | "--" :: inner :: others | inner :: others =>
                  execute evaluate context count true assignments inner others process
            else if builtinNames.contains name then
              withAssignments assignments false
                (runBuiltin evaluate context false name arguments) process
            else
              withAssignments assignments true (runForShell evaluate context name arguments)
                process

def expandAssignments (evaluate : Evaluation) :
    List (String × List Part) → Process → List (String × String) × Process
  | [], process => ([], process)
  | (name, word) :: assignments, process =>
      let (value, between) := expandText evaluate word process
      let (others, after) := expandAssignments evaluate assignments between
      ((name, value) :: others, after)

def assignAll (evaluate : Evaluation) :
    List (String × List Part) → Process → Process
  | [], process => process
  | (name, word) :: assignments, process =>
      let (value, between) := expandText evaluate word process
      if between.isOnward then assignAll evaluate assignments (between.assign name value)
      else between

def runSimple (evaluate : Evaluation) (context : Context)
    (assignments : List (String × List Part)) (words : List (List Part))
    (redirections : List Redirection) (process : Process) : Process :=
  let (fields, expanded) :=
    expandWords evaluate words { process with substitutionStatus := 0 }
  if !expanded.isOnward then expanded
  else
    match fields with
    | [] =>
        withRedirections evaluate redirections (fun redirected =>
          let assigned := assignAll evaluate assignments redirected
          if assigned.isOnward then assigned.endWith assigned.substitutionStatus
          else assigned) expanded
    | name :: arguments =>
        let isSpecial := specialCommands.contains name
        let (isDone, redirected) := redirectAll evaluate redirections expanded
        if !redirected.isOnward then redirected
        else if !isDone then
          let failed := { redirected.endWith 2 with descriptors := process.descriptors }
          if isSpecial then failed.abort else failed
        else
          let (values, assigned) := expandAssignments evaluate assignments redirected
          if !assigned.isOnward then assigned
          else
            let after :=
              execute evaluate context programDepth false values name arguments assigned
            if name = "exec" && arguments.isEmpty then after
            else { after with descriptors := process.descriptors }

/-! ## Commands that hold others -/

def roundLimit : Nat := 50000

/-- What becomes of a shell at the end of a round: whether the loop goes on, unless the shell
leaves it, and with which course. -/
def afterRound (process : Process) : Bool × Process :=
  match process.course with
  | .onward => (true, process)
  | .breaking loops =>
      (false, { process with course := if loops ≤ 1 then .onward else .breaking (loops - 1) })
  | .continuing loops =>
      if loops ≤ 1 then (true, { process with course := .onward })
      else (false, { process with course := .continuing (loops - 1) })
  | _ => (false, process)

/-- Run one round of a loop. The status of the latest round of the body is kept while the
condition runs. -/
def loopRound (evaluate : Evaluation) (context : Context) (isUntil : Bool)
    (condition body : Command) (state : Nat × Process) : Bool × Nat × Process :=
  let (kept, process) := state
  let checked := evaluate condition { isTested := true } process
  if !checked.isOnward then
    let (goesOn, after) := afterRound checked
    (goesOn, if checked.course = .returning then checked.status else kept, after)
  else if (checked.status = 0) = isUntil then (false, kept, checked)
  else
    let ran := evaluate body { context with isLast := false } checked
    let (goesOn, after) := afterRound ran
    (goesOn, ran.status, after)

def runLoop (evaluate : Evaluation) (context : Context) (isUntil : Bool)
    (condition body : Command) (process : Process) : Process :=
  let rec rounds : Nat → Nat × Process → Nat × Process
    | 0, (kept, process) => (kept, { process with course := .hanging })
    | count + 1, state =>
        match loopRound evaluate context isUntil condition body state with
        | (true, kept, after) =>
            if 1000000000 < after.world.clock then (kept, { after with course := .hanging })
            else rounds count (kept, after)
        | (false, kept, after) => (kept, after)
  let (status, after) := rounds roundLimit (0, { process with loops := process.loops + 1 })
  let left := { after with loops := process.loops }
  match left.course with
  | .exiting | .killed _ | .hanging => left
  | _ => left.endWith status

def runEach (evaluate : Evaluation) (context : Context) (name : String) (body : Command) :
    List String → Process → Process
  | [], process => process
  | field :: fields, process =>
      let assigned := process.assign name field
      if !assigned.isOnward then assigned
      else
        match afterRound (evaluate body { context with isLast := false } assigned) with
        | (true, after) => runEach evaluate context name body fields after
        | (false, after) => after

/-- The first body one of whose patterns matches, and the shell afterwards. -/
def chosen (evaluate : Evaluation) (subject : List Char) :
    List (List (List Part) × Command) → Process → Option Command × Process
  | [], process => (none, process)
  | (patterns, body) :: cases, process =>
      let (isMatching, after) := patterns.foldl (fun (isMatching, current) pattern =>
        if isMatching || !current.isOnward then (isMatching, current)
        else
          let (letters, next) := expandLetters evaluate pattern current
          (matchesPattern letters subject, next)) (false, process)
      if isMatching then (some body, after)
      else if after.isOnward then chosen evaluate subject cases after
      else (none, after)

/-- Run commands side by side, each reading what the one before it writes. `source` is what
the first of them reads; the result has the status of the last of them and the time at which
all of them have ended. `status` is that of the command before the pipeline. -/
def runPipeline (evaluate : Evaluation) (context : Context) (start status : Nat) :
    List Command → Option Channel → Process → Process
  | [], _, process => process
  | command :: commands, source, process =>
      let begun := { process with world := { process.world with clock := start } }
      let isFinal := commands.isEmpty
      let (number, world) := begun.world.addStream []
      let base := { begun with world, status }.child
      let reading := match source with
        | some channel => base.withChannel 0 (some channel)
        | none => base
      let writing := if isFinal then reading else reading.withChannel 1 (some (.stream number))
      let ended := conclude evaluate (evaluate command { context with isLast := true } writing)
      let isBroken :=
        !isFinal && ended.course = .hanging && !(ended.world.stream number).isEmpty
      let awaited :=
        if isBroken then
          { process with world := { ended.world with clock := process.world.clock } }
        else
          let after := process.await ended
          { after with
            world := after.world.waitUntil (max process.world.clock ended.endTime) }
      runPipeline evaluate context start status commands (some (.stream number)) awaited

def runChild (evaluate : Evaluation) (context : Context) (command : Command)
    (process : Process) : Process :=
  conclude evaluate (evaluate command { context with isLast := true } process.child)

/-- End a shell after a command that has failed, if that is what it does. -/
def checkFailure (context : Context) (process : Process) : Process :=
  if process.isOnward && process.options.contains 'e' && !context.isTested &&
      process.status ≠ 0 then process.exit process.status
  else process

/-- Run a command whose commands are run by `evaluate`. -/
def step (evaluate : Evaluation) (command : Command) (context : Context)
    (process : Process) : Process :=
  let inner : Context := { context with isLast := false }
  match command with
  | .nothing => process.endWith 0
  | .simple assignments words redirections =>
      checkFailure context (runSimple evaluate context assignments words redirections process)
  | .pipeline commands =>
      checkFailure context
        (runPipeline evaluate context process.world.clock process.status commands none process)
  | .negation command =>
      let after := evaluate command { isTested := true } process
      if after.isOnward then after.endWith (if after.status = 0 then 1 else 0) else after
  | .background command =>
      let base := process.withChannel 0 (some .nothing)
      let ended := runChild evaluate {} command base
      process.leave ended
  | .sequence first second =>
      let between := evaluate first inner process
      if between.isOnward then evaluate second context between else between
  | .both first second =>
      let between := evaluate first { isTested := true } process
      if between.isOnward && between.status = 0 then evaluate second context between
      else between
  | .either first second =>
      let between := evaluate first { isTested := true } process
      if between.isOnward && between.status ≠ 0 then evaluate second context between
      else between
  | .subshell command =>
      if context.isLast && !process.hasTraps then
        inPlace (evaluate command context) process
      else
        checkFailure context (process.await (runChild evaluate context command process))
  | .redirected command redirections =>
      let (isDone, redirected) := redirectAll evaluate redirections process
      let after :=
        if isDone then evaluate command inner redirected
        else checkFailure context (redirected.endWith 2)
      { after with descriptors := process.descriptors }
  | .branch condition consequence alternative =>
      let checked := evaluate condition { isTested := true } process
      if !checked.isOnward then checked
      else if checked.status = 0 then evaluate consequence context checked
      else
        match alternative with
        | .nothing => checked.endWith 0
        | _ => evaluate alternative context checked
  | .loop isUntil condition body => runLoop evaluate context isUntil condition body process
  | .each name words body =>
      let (fields, expanded) := expandWords evaluate words process
      if expanded.isOnward then
        let begun := { expanded with loops := process.loops + 1 }
        let ended :=
          if fields.isEmpty then begun.endWith 0
          else runEach evaluate context name body fields begun
        { ended with loops := process.loops }
      else expanded
  | .choice subject cases =>
      let (text, expanded) := expandText evaluate subject process
      if !expanded.isOnward then expanded
      else
        match chosen evaluate text.toList cases expanded with
        | (some .nothing, after) => after.endWith 0
        | (some body, after) => evaluate body context after
        | (none, after) => if after.isOnward then after.endWith 0 else after
  | .define name body =>
      { process.endWith 0 with
        functions := (name, body) :: process.functions.filter (·.1 ≠ name) }

def commandLimit : Nat := 400000

/-- Run a command. Signals take effect before and after it; a shell whose commands go deeper
than the bound dies. -/
def evaluate : Nat → Evaluation
  | 0, _, _, process => if process.isOnward then { process with course := .killed 11 } else process
  | depth + 1, command, context, process =>
      let begun := heedAll (evaluate depth) process
      if begun.isOnward && begun.options.contains 'n' then begun.endWith 0
      else if begun.isOnward && commandLimit ≤ begun.world.commands then
        { begun with course := .hanging }
      else if begun.isOnward then
        let ended := step (evaluate depth) command context begun.counted
        if ended.isOnward then heedAll (evaluate depth) ended else ended
      else begun

end TaskPlanner.Shell
