import TaskPlanner.Shell.Command
import TaskPlanner.Shell.World

/-!
# Processes that run a shell

The state of a shell: its variables, its open files, the processes that it has started, and
how it goes on after the command that has just ended.
-/

set_option autoImplicit false

namespace TaskPlanner.Shell

/-- What a descriptor stands for. -/
inductive Channel where
  /-- Nothing can be read, and what is written is lost. -/
  | nothing
  | full
  | stream (number : Nat)
  | file (path : String)
  /-- A directory, which cannot be read. -/
  | directory
deriving DecidableEq, Repr

/-- A variable. One without a value has only been marked. -/
structure Variable where
  value : Option String := none
  isExported : Bool := false
  isReadonly : Bool := false
deriving DecidableEq, Repr, Inhabited

/-- How a shell goes on. -/
inductive Course where
  | onward
  | breaking (loops : Nat)
  /-- It leaves all but one of a number of loops, and goes on with the last. -/
  | continuing (loops : Nat)
  | returning
  | exiting
  | killed (signal : Nat)
  /-- It never comes to its end. -/
  | hanging
deriving DecidableEq, Repr, Inhabited

/-- A process that a shell does not wait for. -/
structure Job where
  process : Nat
  status : Nat
  endsAt : Nat
  isAwaited : Bool := false
deriving DecidableEq, Repr

/-- A process that runs a shell. -/
structure Process where
  number : Nat := 1000
  shellNumber : Nat := 1000
  /-- The processes that wait for this one, the nearest first. -/
  forebears : List Nat := []
  title : String := "sh"
  arguments : List String := []
  bindings : List (String × Variable) := []
  functions : List (String × Command) := []
  options : List Char := []
  /-- What is done when a signal arrives or, for zero, when the shell ends. -/
  traps : List (Nat × String) := []
  /-- The status of the last command. -/
  status : Nat := 0
  /-- The status of the last substitution of the current command. -/
  substitutionStatus : Nat := 0
  course : Course := .onward
  loops : Nat := 0
  /-- For each function around the current command, what its local variables hide. -/
  scopes : List (List (String × Option Variable)) := []
  jobs : List Job := []
  latestJob : Option Nat := none
  descriptors : List (Nat × Channel) := [(0, .nothing), (1, .nothing), (2, .nothing)]
  directory : String := "/work"
  world : World := {}
deriving Inhabited

namespace Process

def isOnward (process : Process) : Bool := process.course = .onward

def endWith (process : Process) (status : Nat) : Process := { process with status }

def exit (process : Process) (status : Nat) : Process :=
  if process.isOnward then { process with status := status % 256, course := .exiting }
  else process

def abort (process : Process) : Process := process.exit 2

def pass (process : Process) (time : Nat) : Process :=
  { process with world := process.world.pass time }

def counted (process : Process) : Process :=
  { process with world := { process.world with commands := process.world.commands + 1 } }

/-! ## Variables -/

def findVariable? (process : Process) (name : String) : Option Variable :=
  process.bindings.lookup name

def withVariable (process : Process) (name : String) (value : Option Variable) : Process :=
  let others := process.bindings.filter (·.1 ≠ name)
  { process with
    bindings := match value with
      | some found => (name, found) :: others
      | none => others }

/-- Give a variable a value. One that is read-only ends the shell. -/
def assign (process : Process) (name value : String) : Process :=
  let old := (process.findVariable? name).getD {}
  if old.isReadonly then process.abort
  else
    let isExported := old.isExported || process.options.contains 'a'
    process.withVariable name (some { old with value := some value, isExported })

def separators (process : Process) : String :=
  ((process.findVariable? "IFS").bind (·.value)).getD " \t\n"

def parameter? (process : Process) (name : String) : Option String :=
  match name with
  | "?" => some (toString process.status)
  | "$" => some (toString process.shellNumber)
  | "!" => process.latestJob.map toString
  | "#" => some (toString process.arguments.length)
  | "-" => some (String.ofList process.options)
  | "0" => some process.title
  | "PPID" => some (toString (process.forebears.head?.getD 1))
  | "@" =>
      if process.arguments.isEmpty then none else some (" ".intercalate process.arguments)
  | "*" =>
      if process.arguments.isEmpty then none
      else
        let separator := match process.separators.toList with
          | [] => ""
          | head :: _ => String.singleton head
        some (separator.intercalate process.arguments)
  | _ =>
      if name.toList.all isDigit then process.arguments[Shell.number name.toList - 1]?
      else (process.findVariable? name).bind (·.value)

/-! ## Input and output -/

def channel? (process : Process) (descriptor : Nat) : Option Channel :=
  process.descriptors.lookup descriptor

def withChannel (process : Process) (descriptor : Nat) (channel : Option Channel) : Process :=
  let others := process.descriptors.filter (·.1 ≠ descriptor)
  { process with
    descriptors := match channel with
      | some channel => (descriptor, channel) :: others
      | none => others }

/-- Write a text to a descriptor: whether that was possible, and what came of it. -/
def write (process : Process) (descriptor : Nat) (text : List Char) : Bool × Process :=
  match process.channel? descriptor with
  | none => (text.isEmpty, process)
  | some .nothing => (true, process)
  | some .full | some .directory => (text.isEmpty, process)
  | some (.stream number) =>
      (true, { process with world := process.world.writeStream number text })
  | some (.file path) =>
      let content := match process.world.file? path with
        | some (.text content) => content
        | _ => []
      (true, { process with
        world := process.world.change path (some (.text (content ++ text))) })

/-- Write a text as the output of a command that does nothing else. -/
def print (process : Process) (text : String) : Process :=
  let (isWritten, after) := process.write 1 text.toList
  after.endWith (if isWritten then 0 else 1)

def input (process : Process) : List Char :=
  match process.channel? 0 with
  | some (.stream number) => process.world.stream number
  | _ => []

def withInput (process : Process) (rest : List Char) : Process :=
  match process.channel? 0 with
  | some (.stream number) =>
      { process with world := process.world.leaveStream number rest }
  | _ => process

def fullPath (process : Process) (path : String) : String :=
  Shell.fullPath process.directory path

/-- The file that a path names. Without a path there is none. -/
def file? (process : Process) (path : String) : Option File :=
  if path.isEmpty then none
  else if path.endsWith "/" && process.world.file? (process.fullPath path) ≠ some .directory
    then none
  else process.world.file? (process.fullPath path)

def facts (process : Process) : Condition.Facts := fun property path =>
  (process.file? path).isSome && process.world.facts (process.fullPath path) property

def openInput? (process : Process) (path : String) : Option (Channel × Process) :=
  match process.file? path with
  | none => none
  | some (.text content) =>
      let (number, world) := process.world.addStream content
      some (.stream number, { process with world })
  | some .directory => some (.directory, process)
  | some _ => some (.nothing, process)

/-- Open a file to be written, from its start or from its end on. -/
def openOutput? (process : Process) (path : String) (isAppending : Bool) :
    Option (Channel × Process) :=
  let full := process.fullPath path
  if path.isEmpty then none
  else
    match process.world.file? full with
    | some .directory => none
    | some .device => some (if full = "/dev/full" then .full else .nothing, process)
    | some (.text content) =>
        let kept := if isAppending then content else []
        some (.file full,
          { process with world := process.world.change full (some (.text kept)) })
    | some .program => none
    | none =>
        if path.endsWith "/" || process.world.file? (parentPath full) ≠ some .directory then none
        else some (.file full,
          { process with world := process.world.change full (some (.text [])) })

/-! ## Other processes -/

/-- The process that a process starts. Of the traps it keeps only those that ignore a
signal. -/
def child (process : Process) : Process :=
  let number := process.world.latestProcess + 1
  { process with
    number
    forebears := process.number :: process.forebears
    traps := process.traps.filter fun (signal, action) => signal ≠ 0 && action.isEmpty
    jobs := []
    loops := 0
    world := { process.world with latestProcess := number } }

def report (process : Process) : Nat :=
  match process.course with
  | .killed signal => 128 + signal
  | _ => process.status % 256

def await (process child : Process) : Process :=
  { process with
    status := child.report
    course := if child.course = .hanging then .hanging else process.course
    world := child.world }

/-- The time at which a process ends. One that never ends has a time that never comes. -/
def endTime (process : Process) : Nat :=
  if process.course = .hanging then 1000000000000 else process.world.clock

/-- Go on beside a process that has been started. Those that the shell has waited for are
forgotten. -/
def leave (process child : Process) : Process :=
  { process with
    status := 0
    jobs := process.jobs.filter (!·.isAwaited) ++
      [{ process := child.number, status := child.report, endsAt := child.endTime }]
    latestJob := some child.number
    world := { child.world with clock := process.world.clock } }

/-- Wait for a process that has been started beside this one, or for the first signal that is
handled. -/
def awaitJob (process : Process) (job : Job) : Process :=
  let handled := process.world.signals.filter fun signal =>
    signal.receiver = process.number && signal.time ≤ job.endsAt &&
      process.traps.any fun (number, action) => number = signal.number && !action.isEmpty
  match handled with
  | signal :: _ =>
      { process with
        status := 128 + signal.number
        world := process.world.waitUntil signal.time }
  | [] =>
      { process with
        status := job.status
        jobs := process.jobs.map fun other =>
          if other.process = job.process then { other with isAwaited := true } else other
        world := process.world.waitUntil job.endsAt }

/-- Whether there are traps, so that the shell has to stay until its last command has
ended. -/
def hasTraps (process : Process) : Bool := process.traps.any fun (_, action) => !action.isEmpty

/-- Send a signal to a process: whether there is one, and what comes of it. -/
def send (process : Process) (receiver signal : Nat) : Bool × Process :=
  if receiver = process.number || process.forebears.contains receiver then
    (true,
      if signal = 0 then process
      else { process with world := process.world.send receiver signal })
  else
    match process.jobs.find? (·.process = receiver) with
    | none => (false, process)
    | some job =>
        if effectOf signal = .none || job.endsAt ≤ process.world.clock then (true, process)
        else
          let changed : Job :=
            if effectOf signal = .stop then { job with endsAt := 1000000000000 }
            else { job with status := 128 + signal, endsAt := process.world.clock }
          (true, { process with
            jobs := process.jobs.map fun other => if other = job then changed else other })

end Process

end TaskPlanner.Shell
