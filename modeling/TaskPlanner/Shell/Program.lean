import TaskPlanner.Shell.Output
import TaskPlanner.Shell.Process

/-!
# Programs

What the usual programs write and the status with which they end, for those that run no
other programs. A program takes its arguments and the process that it runs in, and gives
that process at its end.
-/

set_option autoImplicit false

namespace TaskPlanner.Shell

namespace Program

/-! ## Time -/

/-- The milliseconds in a unit of time. -/
def unit? : List Char → Option Nat
  | [] | ['s'] => some 1000
  | ['m'] => some 60000
  | ['h'] => some 3600000
  | ['d'] => some 86400000
  | _ => none

/-- The milliseconds of a time in seconds or in the unit behind it. -/
def duration? (text : String) : Option Nat :=
  let characters := match text.toList with
    | '+' :: rest => rest
    | other => other
  let (whole, behind) := splitDigits 10 characters
  let (fraction, after) := match behind with
    | '.' :: rest => splitDigits 10 rest
    | _ => ([], behind)
  let (exponent, last) := match after with
    | 'e' :: '-' :: rest | 'E' :: '-' :: rest =>
        ((splitDigits 10 rest).1.map fun digit => (true, digit), (splitDigits 10 rest).2)
    | 'e' :: rest | 'E' :: rest =>
        ((splitDigits 10 rest).1.map fun digit => (false, digit), (splitDigits 10 rest).2)
    | _ => ([], after)
  if characters = "infinity".toList || characters = "inf".toList then some 1000000000000
  else if whole.isEmpty && fraction.isEmpty then none
  else
    (unit? last).map fun unit =>
      let shift := min (valueOf 10 (exponent.map (·.2))) 30
      let power := Nat.pow 10 shift
      let scale := Nat.pow 10 fraction.length
      let units := valueOf 10 (whole ++ fraction) * unit
      if exponent.any (·.1) then units / (scale * power) else units * power / scale

def sleep (arguments : List String) (process : Process) : Process :=
  match arguments.mapM duration? with
  | none | some [] => process.endWith 1
  | some durations => (process.pass (durations.foldl (· + ·) 0)).endWith 0

/-! ## Texts -/

def linesOf (text : List Char) : List (List Char) :=
  let lines := ((String.ofList text).splitOn "\n").map String.toList
  if lines.getLast? = some [] then lines.dropLast else lines

def joined (lines : List (List Char)) : String :=
  String.ofList (lines.flatMap (· ++ ['\n']))

/-- The content of a file, or what is left of the input for a dash. -/
def content? (process : Process) (path : String) : Option (List Char) :=
  if path = "-" then some process.input
  else
    match process.file? path with
    | some (.text content) => some content
    | some .device | some .program => some []
    | _ => none

/-- The contents of files, or the input without files, and whether all could be read. -/
def contents (paths : List String) (process : Process) : List Char × Bool :=
  if paths.isEmpty then (process.input, process.channel? 0 ≠ some .directory)
  else
    let found := paths.map (content? process)
    ((found.filterMap id).flatten, found.all (·.isSome))

def isOption (argument : String) : Bool := argument.length ≠ 1 && argument.startsWith "-"

def filter (change : List Char → String) (paths : List String) (process : Process) : Process :=
  let (text, isComplete) := contents paths process
  let drained := if paths.isEmpty || paths.contains "-" then process.withInput [] else process
  let written := drained.print (change text)
  if isComplete then written else written.endWith 1

def countOption (default : Nat) : List String → Nat × List String
  | "-n" :: count :: paths => ((natural? count).getD default, paths)
  | first :: paths =>
      match first.toList with
      | '-' :: 'n' :: digits => ((natural? (String.ofList digits)).getD default, paths)
      | '-' :: digit :: digits =>
          ((natural? (String.ofList (digit :: digits))).getD default, paths)
      | _ => (default, first :: paths)
  | [] => (default, [])

def head (arguments : List String) (process : Process) : Process :=
  let (count, paths) := countOption 10 arguments
  filter (fun text => joined ((linesOf text).take count)) paths process

def tail (arguments : List String) (process : Process) : Process :=
  let (count, paths) := countOption 10 arguments
  filter (fun text =>
    let lines := linesOf text
    joined (lines.drop (lines.length - count))) paths process

def count (arguments : List String) (process : Process) : Process :=
  let shown (text : List Char) : String :=
    let lines := (text.filter (· = '\n')).length
    let words := ((String.ofList (text.map fun character =>
      if isNumberBlank character then ' ' else character)).splitOn " ").filter (· ≠ "")
    let bytes := (String.ofList text).utf8ByteSize
    if arguments.contains "-l" then toString lines ++ "\n"
    else if arguments.contains "-w" then toString words.length ++ "\n"
    else if arguments.contains "-c" then toString bytes ++ "\n"
    else toString lines ++ " " ++ toString words.length ++ " " ++ toString bytes ++ "\n"
  filter shown (arguments.filter fun argument => !isOption argument) process

/-- Lines without those that are the same as the line before. -/
def withoutRepetitions : List (List Char) → List (List Char)
  | first :: second :: lines =>
      if first = second then withoutRepetitions (second :: lines)
      else first :: withoutRepetitions (second :: lines)
  | lines => lines

def tee (arguments : List String) (process : Process) : Process :=
  let isAppending := arguments.contains "-a"
  let text := process.input
  let (isComplete, written) := (arguments.filter fun argument => !isOption argument).foldl
    (fun (isComplete, current) path => match current.openOutput? path isAppending with
      | none => (false, current)
      | some (channel, opened) =>
          let (_, after) := (opened.withChannel 1000 (some channel)).write 1000 text
          (isComplete, after.withChannel 1000 none))
    (true, process.withInput [])
  let printed := written.print (String.ofList text)
  if isComplete then printed else printed.endWith 1

def sequence (arguments : List String) (process : Process) : Process :=
  match arguments.mapM decimal? with
  | some [last] => process.print (numbers 1 1 last)
  | some [first, last] => process.print (numbers first 1 last)
  | some [first, step, last] =>
      if step = 0 then process.endWith 1 else process.print (numbers first step last)
  | _ => process.endWith 1
where
  numbers (first step last : Int) : String :=
    let count := min ((last - first) / step + 1).toNat 100000
    joined ((List.range count).map fun (index : Nat) =>
      (toString (first + step * (index : Int))).toList)

/-! ## Searching -/

/-- What a line may be searched for. -/
inductive Search where
  | exactly (character : Char)
  | anyCharacter
  | repeated (search : Search)
deriving DecidableEq, Repr

namespace Search

def accepts (character : Char) : Search → Bool
  | exactly expected => character = expected
  | anyCharacter => true
  | repeated search => search.accepts character

/-- The searches of an expression without its anchors. -/
def readAll : List Char → List Search
  | [] => []
  | '\\' :: head :: rest => exactly head :: readAll rest
  | head :: rest =>
      let search := if head = '.' then anyCharacter else exactly head
      match readAll rest with
      | exactly '*' :: others => if rest.head? = some '*' then repeated search :: others
          else search :: exactly '*' :: others
      | others => search :: others

/-- Whether the start of a text, or all of it if `isWhole`, is found. -/
def isFound (isWhole : Bool) : List Search → List Char → Bool
  | [], text => !isWhole || text.isEmpty
  | repeated search :: searches, text =>
      let front := text.takeWhile (search.accepts ·)
      (List.range (front.length + 1)).any fun count =>
        isFound isWhole searches (text.drop count)
  | search :: searches, text =>
      match text with
      | [] => false
      | head :: rest => search.accepts head && isFound isWhole searches rest

end Search

/-- The ends of a line, the longest first. -/
def endsOf : List Char → List (List Char)
  | [] => [[]]
  | head :: rest => (head :: rest) :: endsOf rest

def hasFound (isPlain : Bool) (expression line : List Char) : Bool :=
  let isAnchored := !isPlain && expression.head? = some '^'
  let behind := if isAnchored then expression.drop 1 else expression
  let isWhole := !isPlain && behind.getLast? = some '$'
  let inner := if isWhole then behind.dropLast else behind
  let searches := if isPlain then inner.map Search.exactly else Search.readAll inner
  let candidates := if isAnchored then [line] else endsOf line
  candidates.any (Search.isFound isWhole searches)

def grep (arguments : List String) (process : Process) : Process :=
  let letters := (arguments.takeWhile isOption).flatMap (·.toList.drop 1)
  match arguments.dropWhile isOption with
  | [] => process.endWith 2
  | expression :: paths =>
      let lower (text : List Char) : List Char :=
        if letters.contains 'i' then text.map Char.toLower else text
      let found (line : List Char) : Bool :=
        let pattern := lower expression.toList
        if letters.contains 'x' then
          hasFound false ('^' :: pattern ++ ['$']) (lower line)
        else hasFound (letters.contains 'F') pattern (lower line)
      let (text, isComplete) := contents paths process
      let drained := if paths.isEmpty then process.withInput [] else process
      let matching := (linesOf text).filter fun line => found line != letters.contains 'v'
      let written :=
        if letters.contains 'q' then drained
        else if letters.contains 'c' then drained.print (toString matching.length ++ "\n")
        else drained.print (joined matching)
      if !isComplete && !(letters.contains 'q' && !matching.isEmpty) then written.endWith 2
      else written.endWith (if matching.isEmpty then 1 else 0)

/-! ## Expressions -/

def combine? (operator left right : String) : Option String :=
  let numbers := (decimal? left).bind fun first => (decimal? right).map (first, ·)
  let truth (condition : Bool) : Option String := some (if condition then "1" else "0")
  match operator, numbers with
  | "+", some (first, second) => some (toString (first + second))
  | "-", some (first, second) => some (toString (first - second))
  | "*", some (first, second) => some (toString (first * second))
  | "/", some (first, second) =>
      if second = 0 then none else some (toString (Int.tdiv first second))
  | "%", some (first, second) =>
      if second = 0 then none else some (toString (Int.tmod first second))
  | "=", _ | "==", _ => truth (numbers.elim (left = right) fun (first, second) => first = second)
  | "!=", _ => truth (numbers.elim (left ≠ right) fun (first, second) => first ≠ second)
  | "<", _ => truth (numbers.elim (left < right) fun (first, second) => first < second)
  | ">", _ => truth (numbers.elim (right < left) fun (first, second) => second < first)
  | "<=", _ => truth (numbers.elim (!(right < left)) fun (first, second) => first ≤ second)
  | ">=", _ => truth (numbers.elim (!(left < right)) fun (first, second) => second ≤ first)
  | "&", _ => some (if isNothing left || isNothing right then "0" else left)
  | "|", _ => some (if !isNothing left then left else if isNothing right then "0" else right)
  | ":", _ =>
      let lengths := (List.range (left.length + 1)).reverse.filter fun length =>
        Search.isFound true (Search.readAll right.toList) (left.toList.take length)
      some (toString (lengths.head?.getD 0))
  | _, _ => none
where
  /-- Whether a value counts as nothing. -/
  isNothing (text : String) : Bool := text.isEmpty || decimal? text = some 0

def binding? : String → Option Nat
  | "|" => some 0
  | "&" => some 1
  | "=" | "==" | "!=" | "<" | ">" | "<=" | ">=" => some 2
  | "+" | "-" => some 3
  | "*" | "/" | "%" => some 4
  | ":" => some 5
  | _ => none

mutual

/-- Read an operand of an expression and the operators behind it that bind tightly enough. -/
def expression? : Nat → Nat → List String → Option (String × List String)
  | 0, _, _ => none
  | depth + 1, least, arguments =>
      match arguments with
      | [] => none
      | "(" :: inside =>
          (expression? depth 0 inside).bind fun (value, rest) =>
            match rest with
            | ")" :: after => operations? depth least value after
            | _ => none
      | operand :: rest => operations? depth least operand rest

def operations? : Nat → Nat → String → List String → Option (String × List String)
  | 0, _, _, _ => none
  | depth + 1, least, left, arguments =>
      match arguments with
      | [] => some (left, [])
      | operator :: rest =>
          match binding? operator with
          | none => some (left, arguments)
          | some own =>
              if own < least then some (left, arguments)
              else
                (expression? depth (own + 1) rest).bind fun (right, after) =>
                  (combine? operator left right).bind fun value =>
                    operations? depth least value after

end

/-- The value of an expression, with the arguments that are left. -/
def value? (arguments : List String) : Option (String × List String) :=
  match arguments with
  | ["length", text] => some (toString text.utf8ByteSize, [])
  | ["index", text, wanted] =>
      let position := (text.toList.findIdx? wanted.toList.contains).elim 0 (· + 1)
      some (toString position, [])
  | ["substr", text, first, length] =>
      match natural? first, natural? length with
      | some (first + 1), some length =>
          some (String.ofList ((text.toList.drop first).take length), [])
      | _, _ => some ("", [])
  | ["match", text, expression] => expression? 20 0 [text, ":", expression]
  | _ => expression? (8 * arguments.length + 20) 0 arguments

/-- Write the value of an expression. One that counts as nothing is a failure. -/
def evaluate (arguments : List String) (process : Process) : Process :=
  match value? arguments with
  | some (value, []) =>
      let written := process.print (value ++ "\n")
      if combine?.isNothing value then written.endWith 1 else written
  | _ => process.endWith 2

/-! ## Files -/

/-- Carry out a change for each path, with the status of the failures. -/
def forEach (change : String → Process → Option Process) (paths : List String)
    (process : Process) : Process :=
  if paths.isEmpty then process.endWith 1
  else paths.foldl (fun current path => match change path current with
    | some next => next
    | none => current.endWith 1) (process.endWith 0)

def withFile (process : Process) (path : String) (file : Option File) : Process :=
  { process with world := process.world.change (process.fullPath path) file }

def makeDirectory? (path : String) (process : Process) : Option Process :=
  let parent := parentPath (process.fullPath path)
  if process.file? path = none && !path.isEmpty && process.world.file? parent = some .directory
    then some (withFile process path (some .directory))
  else none

/-- Make a directory and those that it is in, as far as there are none. -/
def makeDirectories? (path : String) (process : Process) : Option Process :=
  let steps := ((process.fullPath path).splitOn "/").filter (· ≠ "")
  let paths := (List.range steps.length).map fun count =>
    "/" ++ "/".intercalate (steps.take (count + 1))
  if path.isEmpty then none
  else paths.foldlM (fun current parent =>
    if current.file? parent = some .directory then some current
    else makeDirectory? parent current) process

def remove? (isForced isDeep : Bool) (path : String) (process : Process) : Option Process :=
  match process.file? path with
  | none => if isForced then some process else none
  | some .directory => if isDeep then some (withFile process path none) else none
  | some _ => some (withFile process path none)

def touch? (path : String) (process : Process) : Option Process :=
  match process.file? path with
  | some _ => some process
  | none => (process.openOutput? path true).map (·.2)

def copy? (source target : String) (process : Process) : Option Process :=
  match process.file? source, process.file? target with
  | some (.text content), some .directory =>
      some (withFile process (target ++ "/" ++ lastStep source) (some (.text content)))
  | some (.text content), _ =>
      (process.openOutput? target false).map fun (_, opened) =>
        withFile opened target (some (.text content))
  | _, _ => none

def transfer (isMoving : Bool) (arguments : List String) (process : Process) : Process :=
  match arguments.filter fun argument => !isOption argument with
  | [source, target] =>
      match copy? source target process with
      | some copied => (if isMoving then withFile copied source none else copied).endWith 0
      | none => process.endWith 1
  | _ => process.endWith 1

def list (arguments : List String) (process : Process) : Process :=
  let paths := arguments.filter fun argument => !isOption argument
  let found := paths.filter fun path => (process.file? path).isSome
  let written := process.print (joined (found.map String.toList))
  if found.length = paths.length then written else written.endWith 2

/-! ## All programs -/

/-- Run a program that is known to succeed or to fail on its own, with its arguments. -/
def run (name : String) (arguments : List String) (process : Process) : Process :=
  let options := (arguments.takeWhile isOption).flatMap (·.toList.drop 1)
  let plain := arguments.filter fun argument => !isOption argument
  match name with
  | "false" => process.endWith 1
  | "sleep" => sleep arguments process
  | "echo" =>
      process.print (match arguments with
        | "-n" :: words => " ".intercalate words
        | words => " ".intercalate words ++ "\n")
  | "printf" =>
      match arguments with
      | [] => process.endWith 1
      | format :: words =>
          let formatting := formatted format words
          let written := process.print (String.ofList formatting.text)
          if formatting.isSound && !formatting.isBroken then written else written.endWith 1
  | "cat" => filter String.ofList plain process
  | "sort" => filter (fun text =>
      let lines := (linesOf text).mergeSort fun left right =>
        !(String.ofList right < String.ofList left)
      joined (if options.contains 'u' then withoutRepetitions lines else lines)) plain process
  | "uniq" => filter (fun text => joined (withoutRepetitions (linesOf text))) plain process
  | "head" => head arguments process
  | "tail" => tail arguments process
  | "wc" => count arguments process
  | "tee" => tee arguments process
  | "seq" => sequence arguments process
  | "grep" => grep arguments process
  | "expr" => evaluate arguments process
  | "pwd" => process.print (process.directory ++ "\n")
  | "basename" =>
      match plain with
      | [] => process.endWith 1
      | path :: _ => process.print (lastStep path ++ "\n")
  | "dirname" =>
      match plain with
      | [] => process.endWith 1
      | path :: _ =>
          let front := (path.splitOn "/").dropLast
          process.print ((if front.isEmpty then "." else "/".intercalate front) ++ "\n")
  | "mkdir" => 
      forEach (if options.contains 'p' then makeDirectories? else makeDirectory?) plain process
  | "rmdir" => forEach (fun path current =>
      if current.file? path = some .directory then remove? false true path current else none)
      plain process
  | "rm" =>
      if plain.isEmpty && options.contains 'f' then process.endWith 0
      else
        forEach (remove? (options.contains 'f') (options.contains 'r' || options.contains 'R'))
          plain process
  | "touch" => forEach touch? plain process
  | "chmod" => forEach (fun path current => (current.file? path).map fun _ => current)
      (plain.drop 1) process
  | "cp" => transfer false arguments process
  | "mv" => transfer true arguments process
  | "ls" => list arguments process
  | _ => process.endWith 0

end Program

end TaskPlanner.Shell
