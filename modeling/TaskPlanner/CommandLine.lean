import TaskPlanner.LogLevel

/-!
# Command line

The arguments of a run. Options may come before, between and behind the tasks; behind
two dashes everything is a task.

An option whose value comes as the next argument is settled only when the argument
behind its value asks for it, so an argument that is unknown is reported before a value
that is wrong.
-/

set_option autoImplicit false

namespace TaskPlanner

/-- What a run was asked for. -/
structure Arguments where
  /-- The tasks to run, each as a batch of its own. -/
  tasks : List String := []
  config : String := "Workplan.toml"
  /-- Globs of tasks that are not run. -/
  exclude : List String := []
  continueOnFailure : Bool := false
  /-- Show the order without running anything. -/
  dryRun : Bool := false
  maxWorkers : Option Nat := none
  logLevel : Option LogLevel := none
deriving DecidableEq, Repr, Inhabited

namespace CommandLine

/-- Why a command line asks for no run. -/
inductive Stop where
  | help
  | version
  | unknownArgument
  /-- A value is missing, or is none of those that are possible. -/
  | invalidValue
  /-- A value is not of the kind that is wanted. -/
  | valueValidation
  | argumentConflict
  | tooManyValues
deriving DecidableEq, Repr

/-- An option with a value. -/
inductive ValueOption where
  | config
  | exclude
  | maxWorkers
  | logLevel
deriving DecidableEq, Repr

/-- An option without a value. -/
inductive Flag where
  | continueOnFailure
  | dryRun
  | help
  | version
deriving DecidableEq, Repr

/-- What a name behind dashes means. -/
inductive Meaning where
  | value (option : ValueOption)
  | flag (flag : Flag)
deriving DecidableEq, Repr

def long? (name : String) : Option Meaning :=
  if name = "config" then some (.value .config)
  else if name = "exclude-task" then some (.value .exclude)
  else if name = "max-workers" then some (.value .maxWorkers)
  else if name = "log-level" then some (.value .logLevel)
  else if name = "continue" then some (.flag .continueOnFailure)
  else if name = "dry-run" then some (.flag .dryRun)
  else if name = "help" then some (.flag .help)
  else if name = "version" then some (.flag .version)
  else none

def short? (letter : Char) : Option Meaning :=
  if letter = 'x' then some (.value .exclude)
  else if letter = 'h' then some (.flag .help)
  else if letter = 'V' then some (.flag .version)
  else none

/-- Read a decimal number of 64 bits, which may have a plus sign. -/
def count? (text : String) : Option Nat :=
  let digits := match text.toList with
    | '+' :: rest => rest
    | characters => characters
  if digits.isEmpty || !digits.all Char.isDigit then none
  else
    let value := digits.foldl (fun sum digit => sum * 10 + (digit.toNat - 48)) 0
    if value < 18446744073709551616 then some value else none

/-- A command line being read. -/
structure Reader where
  arguments : Arguments := {}
  given : List Meaning := []
  /-- An option that has not been settled, with its value if that was read. -/
  pending : Option (ValueOption × Option String) := none
  onlyTasks : Bool := false
deriving DecidableEq, Repr

namespace Reader

/-- Note that an option or flag is given. A repetition is refused. -/
def give (reader : Reader) (meaning : Meaning) : Except Stop Reader :=
  if meaning ∈ reader.given then .error .argumentConflict
  else .ok { reader with given := meaning :: reader.given }

def setOnce (reader : Reader) (option : ValueOption)
    (change : Arguments → Except Stop Arguments) : Except Stop Reader :=
  match reader.give (.value option) with
  | .error stop => .error stop
  | .ok given => (change given.arguments).map fun arguments => { given with arguments }

def set (reader : Reader) (option : ValueOption) (value : String) : Except Stop Reader :=
  match option with
  | .config => reader.setOnce option fun arguments => .ok { arguments with config := value }
  | .exclude =>
      .ok { reader with
        arguments :=
          { reader.arguments with exclude := reader.arguments.exclude ++ [value] } }
  | .maxWorkers => reader.setOnce option fun arguments =>
      match count? value with
      | none => .error .valueValidation
      | some 0 => .error .valueValidation
      | some count => .ok { arguments with maxWorkers := some count }
  | .logLevel => reader.setOnce option fun arguments =>
      match LogLevel.ofName? value with
      | none => .error .invalidValue
      | some level => .ok { arguments with logLevel := some level }

def settle (reader : Reader) : Except Stop Reader :=
  match reader.pending with
  | none => .ok reader
  | some (_, none) => .error .invalidValue
  | some (option, some value) => { reader with pending := none }.set option value

def raise (reader : Reader) (flag : Flag) : Except Stop Reader :=
  match reader.settle with
  | .error stop => .error stop
  | .ok settled =>
      match flag with
      | .help => .error .help
      | .version => .error .version
      | .continueOnFailure => (settled.give (.flag flag)).map fun given =>
          { given with arguments := { given.arguments with continueOnFailure := true } }
      | .dryRun => (settled.give (.flag flag)).map fun given =>
          { given with arguments := { given.arguments with dryRun := true } }

/-- Take an option, with its value if the value is part of the same argument. -/
def option (reader : Reader) (option : ValueOption) (value? : Option String) :
    Except Stop Reader :=
  match reader.settle, value? with
  | .error stop, _ => .error stop
  | .ok settled, some value => settled.set option value
  | .ok settled, none => .ok { settled with pending := some (option, none) }

def task (reader : Reader) (name : String) : Except Stop Reader :=
  reader.settle.map fun settled =>
    { settled with
      arguments := { settled.arguments with tasks := settled.arguments.tasks ++ [name] } }

def long (reader : Reader) (text : List Char) : Except Stop Reader :=
  let name := String.ofList (text.takeWhile (· ≠ '='))
  let value? := match text.dropWhile (· ≠ '=') with
    | [] => none
    | _ :: value => some (String.ofList value)
  match long? name, value? with
  | none, _ => .error .unknownArgument
  | some (.value option), value? => reader.option option value?
  | some (.flag _), some _ => .error .tooManyValues
  | some (.flag flag), none => reader.raise flag

def letters (reader : Reader) : List Char → Except Stop Reader
  | [] => .ok reader
  | letter :: rest =>
      match short? letter with
      | none => .error .unknownArgument
      | some (.flag flag) =>
          match reader.raise flag with
          | .error stop => .error stop
          | .ok raised => raised.letters rest
      | some (.value option) =>
          reader.option option <| match rest with
            | [] => none
            | '=' :: value => some (String.ofList value)
            | value => some (String.ofList value)

def argument (reader : Reader) (text : String) : Except Stop Reader :=
  if reader.onlyTasks then reader.task text
  else
    match text.toList, reader.pending with
    | ['-', '-'], _ => .ok { reader with onlyTasks := true }
    | '-' :: '-' :: rest, _ => reader.long rest
    | '-' :: letter :: rest, _ => reader.letters (letter :: rest)
    | _, some (option, none) => .ok { reader with pending := some (option, some text) }
    | _, _ => reader.task text

def argumentsAll : List String → Reader → Except Stop Reader
  | [], reader => reader.settle
  | text :: rest, reader =>
      match reader.argument text with
      | .error stop => .error stop
      | .ok next => argumentsAll rest next

end Reader

def parse (texts : List String) : Except Stop Arguments :=
  (Reader.argumentsAll texts {}).map (·.arguments)

end CommandLine

end TaskPlanner
