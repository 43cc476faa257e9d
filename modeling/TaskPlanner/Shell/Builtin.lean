import TaskPlanner.Shell.Expansion
import TaskPlanner.Shell.Output
import TaskPlanner.Shell.Reader

/-!
# Commands of the shell

The commands that are part of the shell and run no other commands. Each of them takes its
arguments and a shell and gives the shell afterwards, or nothing if it cannot be carried
out: that ends the shell if the command is a special one, and is a failure otherwise.
-/

set_option autoImplicit false

namespace TaskPlanner.Shell

def builtinNames : List String :=
  specialCommands ++
    ["[", "alias", "bg", "cd", "chdir", "command", "echo", "false", "fg", "getopts", "hash",
      "jobs", "kill", "printf", "pwd", "read", "test", "true", "type", "ulimit", "umask",
      "unalias", "wait"]

namespace Builtin

/-! ## Flow -/

/-- The status that an argument asks for; that of the last command without one. -/
def askedStatus? (arguments : List String) (process : Process) : Option Nat :=
  match arguments with
  | [] => some process.status
  | first :: _ => natural? first

def exit? (arguments : List String) (process : Process) : Option Process :=
  (askedStatus? arguments process).map process.exit

/-- Leave a function, or the shell outside of functions. -/
def return? (arguments : List String) (process : Process) : Option Process :=
  (askedStatus? arguments process).map fun status =>
    { process with status, course := .returning }

/-- Leave loops, or go on with their next round. Outside of loops nothing happens. -/
def leaveLoops? (isContinuing : Bool) (arguments : List String) (process : Process) :
    Option Process :=
  let count := match arguments with
    | [] => some 1
    | first :: _ => natural? first
  count.bind fun asked =>
    let loops := min asked process.loops
    if asked = 0 then none
    else if loops = 0 then some (process.endWith 0)
    else some { process with
      status := 0
      course := if isContinuing then .continuing loops else .breaking loops }

/-- Drop the first arguments of the shell. -/
def shift? (arguments : List String) (process : Process) : Option Process :=
  let count := match arguments with
    | [] => some 1
    | first :: _ => natural? first
  count.bind fun dropped =>
    if dropped ≤ process.arguments.length then
      some { process with status := 0, arguments := process.arguments.drop dropped }
    else none

/-! ## Variables and options -/

/-- The option letters of words in front of the other arguments, and those arguments. Only
known letters are allowed. -/
def options? (known : List Char) : List String → Option (List Char × List String)
  | [] => some ([], [])
  | argument :: arguments =>
      match argument.toList with
      | ['-', '-'] => some ([], arguments)
      | '-' :: letter :: letters =>
          if (letter :: letters).all known.contains then
            (options? known arguments).map fun (others, rest) =>
              (letter :: letters ++ others, rest)
          else none
      | _ => some ([], argument :: arguments)

def splitArgument (argument : String) : String × Option String :=
  let characters := argument.toList
  let name := characters.takeWhile (· ≠ '=')
  match characters.drop name.length with
  | _ :: value => (String.ofList name, some (String.ofList value))
  | [] => (argument, none)

/-- Change the marks of variables, and give values to those that come with one. -/
def declare? (change : Variable → Variable) : List String → Process → Option Process
  | [], process => some (process.endWith 0)
  | argument :: arguments, process =>
      let (name, value) := splitArgument argument
      if isName name.toList then
        let assigned := match value with
          | some text => process.assign name text
          | none => process
        if assigned.isOnward then
          let marked := change ((assigned.findVariable? name).getD {})
          declare? change arguments (assigned.withVariable name (some marked))
        else none
      else none

def mark? (change : Variable → Variable) (arguments : List String) (process : Process) :
    Option Process :=
  (options? ['p'] arguments).bind fun (_, names) => declare? change names process

def local? : List String → Process → Option Process
  | [], process => if process.scopes.isEmpty then none else some (process.endWith 0)
  | argument :: arguments, process =>
      match process.scopes with
      | [] => none
      | scope :: scopes =>
          let (name, value) := splitArgument argument
          if isName name.toList then
            let hidden := (name, process.findVariable? name) :: scope
            let kept := { process with scopes := hidden :: scopes }
            let assigned := match value with
              | some text => kept.assign name text
              | none => kept
            if assigned.isOnward then local? arguments assigned else none
          else none

def unset? (arguments : List String) (process : Process) : Option Process :=
  (options? ['f', 'v'] arguments).bind fun (letters, names) =>
    if letters.contains 'f' then
      some { process with
        status := 0
        functions := process.functions.filter fun (name, _) => !names.contains name }
    else if names.any fun name =>
        !isName name.toList || (process.findVariable? name).any (·.isReadonly) then none
    else
      some (names.foldl (fun current name => current.withVariable name none)
        (process.endWith 0))

def optionLetter? : String → Option Char
  | "allexport" => some 'a'
  | "errexit" => some 'e'
  | "noglob" => some 'f'
  | "noexec" => some 'n'
  | "nounset" => some 'u'
  | "verbose" => some 'v'
  | "xtrace" => some 'x'
  | "noclobber" => some 'C'
  | "notify" => some 'b'
  | "monitor" => some 'm'
  | "ignoreeof" => some 'I'
  | _ => none

def optionLetters : List Char :=
  ['a', 'b', 'C', 'e', 'f', 'I', 'i', 'm', 'n', 's', 'u', 'v', 'V', 'x', 'E']

def withOptions (process : Process) (isSet : Bool) (letters : List Char) : Process :=
  let others := process.options.filter fun letter => !letters.contains letter
  { process with options := if isSet then others ++ letters else others }

def set? : List String → Process → Option Process
  | [], process => some (process.endWith 0)
  | argument :: arguments, process =>
      match argument.toList with
      | ['-', '-'] => some { process with status := 0, arguments }
      | ['-'] =>
          some { process with
            status := 0
            arguments := if arguments.isEmpty then process.arguments else arguments }
      | ['-', 'o'] | ['+', 'o'] =>
          match arguments with
          | [] => some (process.endWith 0)
          | name :: rest =>
              (optionLetter? name).bind fun letter =>
                set? rest (withOptions process (argument = "-o") [letter])
      | sign :: letter :: letters =>
          if sign = '-' || sign = '+' then
            if (letter :: letters).all optionLetters.contains then
              set? arguments (withOptions process (sign = '-') (letter :: letters))
            else none
          else some { process with status := 0, arguments := argument :: arguments }
      | _ => some { process with status := 0, arguments := argument :: arguments }

/-! ## Input and output -/

/-- Read a line, in which a backslash takes away the meaning of the next character and
continues the line in front of its end unless `isRaw`. With the line come what follows it and
whether it was complete. -/
def readLine (isRaw : Bool) : List Char → List Letter × List Char × Bool
  | [] => ([], [], false)
  | '\n' :: text => ([], text, true)
  | '\\' :: head :: text =>
      if isRaw then
        let (letters, rest, isComplete) := readLine isRaw (head :: text)
        ({ character := '\\', isQuoted := false } :: letters, rest, isComplete)
      else
        let (letters, rest, isComplete) := readLine isRaw text
        if head = '\n' then (letters, rest, isComplete)
        else ({ character := head, isQuoted := true } :: letters, rest, isComplete)
  | head :: text =>
      let (letters, rest, isComplete) := readLine isRaw text
      ({ character := head, isQuoted := false } :: letters, rest, isComplete)

def isBlankSeparator (separators : List Char) (letter : Letter) : Bool :=
  !letter.isQuoted && separators.contains letter.character &&
    [' ', '\t', '\n'].contains letter.character

/-- Divide a line among variables, the last of which takes what is left. -/
def divide (separators : List Char) : List String → List Letter → List (String × String)
  | [], _ => []
  | [name], letters =>
      let front := letters.dropWhile (isBlankSeparator separators)
      let trimmed := (front.reverse.dropWhile (isBlankSeparator separators)).reverse
      [(name, textOf trimmed)]
  | name :: names, letters =>
      let front := letters.dropWhile (isBlankSeparator separators)
      let isInside (letter : Letter) : Bool :=
        letter.isQuoted || !separators.contains letter.character
      let field := front.takeWhile isInside
      let behind := (front.drop field.length).dropWhile (isBlankSeparator separators)
      let rest := match behind with
        | letter :: after => if isInside letter then behind else after
        | [] => []
      let isBlankOnly := (front.drop field.length).head?.any (isBlankSeparator separators)
      let kept := if isBlankOnly && behind.head?.any isInside then behind else rest
      (name, textOf field) :: divide separators names kept

def read? (arguments : List String) (process : Process) : Option Process :=
  let withoutPrompt := match arguments with
    | "-p" :: _ :: rest => rest
    | "-r" :: "-p" :: _ :: rest => "-r" :: rest
    | _ => arguments
  (options? ['r'] withoutPrompt).bind fun (letters, names) =>
    if names.isEmpty || names.any fun name => !isName name.toList then none
    else
      let (line, rest, isComplete) := readLine (letters.contains 'r') process.input
      let parts := divide process.separators.toList names line
      let taken := process.withInput rest
      let assigned := parts.foldl (fun current (name, value) => current.assign name value) taken
      if assigned.isOnward then some (assigned.endWith (if isComplete then 0 else 1)) else none

def printf? (arguments : List String) (process : Process) : Option Process :=
  match arguments with
  | "--" :: format :: rest | format :: rest =>
      if format.length ≠ 1 && format.startsWith "-" then none
      else
        let formatting := formatted format rest
        let written := process.print (String.ofList formatting.text)
        some (if formatting.isBroken then written.endWith 2
          else if formatting.isSound then written else written.endWith 1)
  | [] => none

/-! ## Processes -/

/-- The number of a process in an argument, which may be that of a group. -/
def processNumber? (argument : String) : Option Nat :=
  match argument.toList with
  | '-' :: digits => natural? (String.ofList digits)
  | _ => natural? argument

def sendAll (signal : Nat) : List Nat → Process → Process
  | [], process => process
  | receiver :: receivers, process =>
      let (isSent, after) := process.send receiver signal
      let next := sendAll signal receivers after
      if isSent then next else next.endWith 1

def kill? (arguments : List String) (process : Process) : Option Process :=
  let request : Option (Option Nat × List String) := match arguments with
    | [] => none
    | "-l" :: _ => some (none, [])
    | "-s" :: name :: receivers => (signalNumber? name).map fun signal => (some signal, receivers)
    | "--" :: receivers => some (some 15, receivers)
    | first :: receivers =>
        match first.toList with
        | '-' :: 's' :: letter :: letters =>
            match signalNumber? (String.ofList ('s' :: letter :: letters)) with
            | some signal => some (some signal, receivers)
            | none =>
                (signalNumber? (String.ofList (letter :: letters))).map fun signal =>
                  (some signal, receivers)
        | '-' :: letters =>
            (signalNumber? (String.ofList letters)).map fun signal => (some signal, receivers)
        | _ => some (some 15, first :: receivers)
  match request with
  | none => none
  | some (none, _) => some (process.endWith 0)
  | some (some signal, receivers) =>
      let named := match receivers with
        | "--" :: rest => rest
        | _ => receivers
      if named.isEmpty then none
      else (named.mapM processNumber?).map fun numbers =>
        sendAll signal numbers (process.endWith 0)

/-- Wait for one process. One that the shell has not started is unknown. -/
def waitFor? (argument : String) (process : Process) : Option Process :=
  (natural? argument).map fun number =>
    match process.jobs.find? (·.process = number) with
    | some job => process.awaitJob job
    | none => process.endWith 127

/-- Wait for processes; for all that the shell has started if none is named. -/
def wait? (arguments : List String) (process : Process) : Option Process :=
  match arguments with
  | [] =>
      let running := process.jobs.filter (!·.isAwaited)
      some (running.foldl (fun current job =>
        if current.status = 0 then
          let next := current.awaitJob job
          let isOver := next.jobs.any fun other => other.process = job.process && other.isAwaited
          if isOver then next.endWith 0 else next
        else current) (process.endWith 0))
  | names => names.foldlM (fun current argument => waitFor? argument current) process

/-- Set what is done when signals arrive; a dash takes it back. -/
def trap? (arguments : List String) (process : Process) : Option Process :=
  let isReset := match arguments with
    | [_] => true
    | first :: _ => !first.isEmpty && first.toList.all isDigit
    | [] => true
  let (action, names) := match isReset, arguments with
    | false, first :: rest => (if first = "-" then none else some first, rest)
    | _, _ => (none, arguments)
  match names.mapM signalNumber? with
  | none => some (process.endWith 1)
  | some numbers =>
      let others := process.traps.filter fun (number, _) => !numbers.contains number
      let added := match action with
        | some script => numbers.map fun number => (number, script)
        | none => []
      some { process with status := 0, traps := added ++ others }

/-! ## Surroundings -/

def changeDirectory? (arguments : List String) (process : Process) : Option Process :=
  let path := match arguments.filter (fun argument => argument ≠ "-P" && argument ≠ "-L") with
    | [] => (process.parameter? "HOME").getD ""
    | "-" :: _ => (process.parameter? "OLDPWD").getD ""
    | "--" :: path :: _ | path :: _ => path
  if path.isEmpty then some (process.endWith 0)
  else if process.file? path = some .directory || process.fullPath path = process.directory then
    let directory := process.fullPath path
    let changed := { process with directory, status := 0 }
    some ((changed.assign "OLDPWD" process.directory).assign "PWD" directory)
  else none

/-- How a name would be found as a command, as `command -v` shows it. -/
def found? (name : String) (process : Process) : Option String :=
  if keywords.contains name || builtinNames.contains name then some name
  else if (process.functions.lookup name).isSome then some name
  else if name.toList.contains '/' then
    if process.file? name = some .program then some name else none
  else if isProgramPath ("/usr/bin/" ++ name) then some ("/usr/bin/" ++ name)
  else none

def describe (missing : Nat) (names : List String) (process : Process) : Process :=
  names.foldl (fun current name =>
    match found? name current with
    | some text => (current.write 1 (text ++ "\n").toList).2
    | none => current.endWith missing) (process.endWith 0)

def test (name : String) (arguments : List String) (process : Process) : Process :=
  let condition :=
    if name = "[" then
      match arguments.getLast? with
      | some last => if last.startsWith "]" then some arguments.dropLast else none
      | none => none
    else some arguments
  match condition.bind (Condition.test? process.facts) with
  | some true => process.endWith 0
  | some false => process.endWith 1
  | none => process.endWith 2

def mask? (arguments : List String) (process : Process) : Option Process :=
  match arguments with
  | [] | ["-S"] => some (process.print "0022\n")
  | first :: _ =>
      let digits := first.toList
      let isSound :=
        if digits.head?.any isDigit then digits.all (isDigitOf 8)
        else (digits.dropWhile ['u', 'g', 'o', 'a'].contains).head?.all ['+', '-', '='].contains
      if isSound then some (process.endWith 0) else none

def run? (name : String) (arguments : List String) (process : Process) : Option Process :=
  match name with
  | ":" | "true" | "times" | "ulimit" | "jobs" => some (process.endWith 0)
  | "false" => some (process.endWith 1)
  | "exit" => exit? arguments process
  | "return" => return? arguments process
  | "break" => leaveLoops? false arguments process
  | "continue" => leaveLoops? true arguments process
  | "shift" => shift? arguments process
  | "export" => mark? ({ · with isExported := true }) arguments process
  | "readonly" => mark? ({ · with isReadonly := true }) arguments process
  | "local" => local? arguments process
  | "unset" => unset? arguments process
  | "set" => set? arguments process
  | "trap" => trap? arguments process
  | "wait" => wait? arguments process
  | "kill" => kill? arguments process
  | "echo" => some (process.print (echoed arguments))
  | "printf" => printf? arguments process
  | "read" => read? arguments process
  | "test" | "[" => some (test name arguments process)
  | "cd" | "chdir" => changeDirectory? arguments process
  | "pwd" => some (process.print (process.directory ++ "\n"))
  | "umask" => mask? arguments process
  | "alias" =>
      some (process.endWith (if arguments.all (·.toList.contains '=') then 0 else 1))
  | "unalias" => some (process.endWith (if arguments = ["-a"] || arguments = [] then 0 else 1))
  | "type" => some (describe 127 arguments process)
  | "hash" =>
      some (process.endWith
        (if arguments.all fun name => name = "-r" || (found? name process).isSome then 0 else 1))
  | _ => none

end Builtin

end TaskPlanner.Shell
