import TaskPlanner.Shell.Condition

/-!
# The world of a shell

What the processes of a command share: the time, the files, the texts that they pass to
each other, and the signals that are on their way.

Only a few files are known from the start: the usual directories and devices, and the
programs. Nothing that a command writes outlives it.
-/

set_option autoImplicit false

namespace TaskPlanner.Shell

/-- A file. -/
inductive File where
  | directory
  | device
  | program
  | text (content : List Char)
deriving DecidableEq, Repr

/-- A signal on its way to a process. -/
structure Signal where
  receiver : Nat
  number : Nat
  /-- When it arrives, in milliseconds. -/
  time : Nat
deriving DecidableEq, Repr

/-- A text that is passed on from one process to another. -/
structure Stream where
  /-- What has been written and not been read, the latest first. -/
  parts : List (List Char) := []
deriving DecidableEq, Repr

def Stream.text (stream : Stream) : List Char := stream.parts.reverse.flatten

/-- What processes share. -/
structure World where
  /-- The time, in milliseconds. -/
  clock : Nat := 0
  /-- The files that have been written or removed, by their paths. -/
  changes : List (String × Option File) := []
  /-- The texts that are passed on, by their numbers. -/
  streams : List (Nat × Stream) := []
  streamCount : Nat := 0
  /-- The number of the latest process. -/
  latestProcess : Nat := 1000
  signals : List Signal := []
  commands : Nat := 0
deriving DecidableEq, Repr

/-! ## Paths -/

/-- Take one step of a path. `steps` are those before it, the latest first. -/
def followStep (steps : List String) : String → List String
  | "" | "." => steps
  | ".." => steps.drop 1
  | name => name :: steps

def fullPath (directory path : String) : String :=
  let start := if path.startsWith "/" then path else directory ++ "/" ++ path
  let steps := (start.splitOn "/").foldl followStep []
  "/" ++ "/".intercalate steps.reverse

def parentPath (path : String) : String := fullPath path ".."

def lastStep (path : String) : String :=
  ((path.splitOn "/").filter (· ≠ "")).getLast?.getD ""

/-! ## Files -/

def knownDirectories : List String :=
  ["/", "/bin", "/boot", "/dev", "/etc", "/home", "/lib", "/media", "/mnt", "/opt", "/proc",
    "/root", "/run", "/sbin", "/srv", "/sys", "/tmp", "/usr", "/usr/bin", "/usr/lib",
    "/usr/local", "/usr/local/bin", "/usr/sbin", "/usr/share", "/var", "/var/lib", "/var/log",
    "/var/tmp"]

def knownDevices : List String :=
  ["/dev/full", "/dev/null", "/dev/random", "/dev/stderr", "/dev/stdin", "/dev/stdout",
    "/dev/urandom", "/dev/zero"]

def knownTexts : List String :=
  ["/etc/group", "/etc/hostname", "/etc/hosts", "/etc/passwd", "/etc/resolv.conf"]

def knownPrograms : List String :=
  ["[", "basename", "bash", "cat", "chmod", "cp", "dash", "dirname", "echo", "env", "expr",
    "false", "grep", "head", "kill", "ls", "mkdir", "mv", "nice", "nohup", "printf", "pwd",
    "rm", "rmdir", "seq", "sh", "sleep", "sort", "tail", "tee", "test", "timeout", "touch",
    "true", "uniq", "wc", "which"]

/-- Programs of which no more is known than that they succeed. -/
def plainPrograms : List String :=
  ["arch", "awk", "cut", "date", "df", "du", "find", "hostname", "id", "ln", "mktemp", "nproc",
    "od", "paste", "perl", "printenv", "ps", "readlink", "realpath", "rev", "sed", "setsid",
    "sha256sum", "stat", "stty", "sync", "tar", "tr", "tty", "uname", "whoami",
    "xargs"]

def isProgramPath (path : String) : Bool :=
  (["/bin", "/usr/bin"].contains (parentPath path)) &&
    (knownPrograms.contains (lastStep path) || plainPrograms.contains (lastStep path))

def knownFile? (path : String) : Option File :=
  if knownDirectories.contains path then some .directory
  else if knownDevices.contains path then some .device
  else if knownTexts.contains path then some (.text ['\n'])
  else if isProgramPath path then some .program
  else none

namespace World

def file? (world : World) (path : String) : Option File :=
  match world.changes.lookup path with
  | some change => change
  | none => knownFile? path

def change (world : World) (path : String) (file : Option File) : World :=
  { world with changes := (path, file) :: world.changes.filter (·.1 ≠ path) }

def facts (world : World) (path : String) (property : Property) : Bool :=
  match world.file? path, property with
  | none, _ => false
  | some _, .exists | some _, .isReadable | some _, .isWritable => true
  | some file, .isFile => file ≠ .directory && file ≠ .device
  | some file, .isDirectory => file = .directory
  | some file, .isDevice => file = .device
  | some file, .isExecutable => file = .directory || file = .program
  | some (.text content), .isLarge => !content.isEmpty
  | some file, .isLarge => file ≠ .device
  | some _, _ => false

def pass (world : World) (time : Nat) : World := { world with clock := world.clock + time }

def waitUntil (world : World) (time : Nat) : World :=
  { world with clock := max world.clock time }

def addStream (world : World) (content : List Char) : Nat × World :=
  (world.streamCount,
    { world with
      streams := (world.streamCount, { parts := [content] }) :: world.streams
      streamCount := world.streamCount + 1 })

def stream (world : World) (number : Nat) : List Char :=
  ((world.streams.lookup number).getD {}).text

def withStream (world : World) (number : Nat) (change : Stream → Stream) : World :=
  { world with
    streams := world.streams.map fun (other, stream) =>
      if other = number then (other, change stream) else (other, stream) }

def writeStream (world : World) (number : Nat) (text : List Char) : World :=
  world.withStream number fun stream => { stream with parts := text :: stream.parts }

def leaveStream (world : World) (number : Nat) (rest : List Char) : World :=
  world.withStream number fun _ => { parts := [rest] }

def send (world : World) (receiver number : Nat) : World :=
  { world with signals := world.signals ++ [{ receiver, number, time := world.clock }] }

end World

/-! ## Signals -/

def signalNames : List String :=
  ["HUP", "INT", "QUIT", "ILL", "TRAP", "ABRT", "BUS", "FPE", "KILL", "USR1", "SEGV", "USR2",
    "PIPE", "ALRM", "TERM", "STKFLT", "CHLD", "CONT", "STOP", "TSTP", "TTIN", "TTOU", "URG",
    "XCPU", "XFSZ", "VTALRM", "PROF", "WINCH", "IO", "PWR", "SYS"]

/-- The number of a signal, by its number or its name in any case. Zero is the end of a
shell. -/
def signalNumber? (text : String) : Option Nat :=
  if !text.isEmpty && text.toList.all (isDigitOf 10) then
    let number := valueOf 10 text.toList
    if number ≤ 64 then some number else none
  else if text.toUpper = "EXIT" then some 0
  else (signalNames.idxOf? text.toUpper).map (· + 1)

/-- What a signal does to a process that does not handle it. -/
inductive Effect where
  | none
  | stop
  | kill
deriving DecidableEq, Repr

def effectOf (signal : Nat) : Effect :=
  if [0, 17, 18, 23, 28].contains signal then .none
  else if [19, 20, 21, 22].contains signal then .stop
  else .kill

def isInescapable (signal : Nat) : Bool := signal = 9 || signal = 19

end TaskPlanner.Shell
