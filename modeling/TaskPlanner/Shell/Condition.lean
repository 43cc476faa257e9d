import TaskPlanner.Shell.Number

/-!
# Conditions of the shell

The language of `test`: whether texts, numbers and files are as its arguments say. Up to
four arguments, their number decides what they mean; beyond that an argument is an operator
wherever it can be one.
-/

set_option autoImplicit false

namespace TaskPlanner.Shell

/-- A property of a text or of the file that it names. -/
inductive Property where
  | isEmpty
  | isNotEmpty
  | isTerminal
  | exists
  | isFile
  | isDirectory
  | isDevice
  | isLarge
  | isReadable
  | isWritable
  | isExecutable
  | isPeculiar
deriving DecidableEq, Repr

/-- A relation between two texts. -/
inductive Relation where
  | same | different | before | after
  | equal | unequal | greater | greaterOrEqual | less | lessOrEqual
  | newer | older
  | sameFile
deriving DecidableEq, Repr

/-- What an argument is. -/
inductive Term where
  | property (property : Property)
  | relation (relation : Relation)
  | not
  | and
  | or
  | opening
  | closing
  | operand
  | none
deriving DecidableEq, Repr

namespace Condition

def term : String → Term
  | "-r" => .property .isReadable
  | "-w" => .property .isWritable
  | "-x" => .property .isExecutable
  | "-e" => .property .exists
  | "-f" => .property .isFile
  | "-d" => .property .isDirectory
  | "-c" => .property .isDevice
  | "-s" => .property .isLarge
  | "-t" => .property .isTerminal
  | "-z" => .property .isEmpty
  | "-n" => .property .isNotEmpty
  | "-O" | "-G" => .property .exists
  | "-b" | "-p" | "-u" | "-g" | "-k" | "-h" | "-L" | "-S" => .property .isPeculiar
  | "=" => .relation .same
  | "!=" => .relation .different
  | "<" => .relation .before
  | ">" => .relation .after
  | "-eq" => .relation .equal
  | "-ne" => .relation .unequal
  | "-gt" => .relation .greater
  | "-ge" => .relation .greaterOrEqual
  | "-lt" => .relation .less
  | "-le" => .relation .lessOrEqual
  | "-nt" => .relation .newer
  | "-ot" => .relation .older
  | "-ef" => .relation .sameFile
  | "!" => .not
  | "-a" => .and
  | "-o" => .or
  | "(" => .opening
  | ")" => .closing
  | _ => .operand

def relation? (argument : String) : Option Relation :=
  match term argument with
  | .relation relation => some relation
  | _ => none

/-- What the first of some arguments is. A property without a text behind it or in front of a
relation is an operand, and so is a parenthesis with nothing behind it. -/
def firstTerm : List String → Term
  | [] => .none
  | argument :: rest =>
      match term argument with
      | .property property =>
          match rest with
          | [] => .operand
          | [_] => .property property
          | next :: _ => if (relation? next).isSome then .operand else .property property
      | .opening => if rest.isEmpty then .operand else .opening
      | other => other

abbrev Facts := Property → String → Bool

def hasProperty? (facts : Facts) (property : Property) (text : String) : Option Bool :=
  match property with
  | .isEmpty => some text.isEmpty
  | .isNotEmpty => some !text.isEmpty
  | .isTerminal => (decimal? text).map fun _ => false
  | _ => some (facts property text)

/-- Whether two texts are in a relation. Numbers have to be numbers. -/
def holds? (facts : Facts) (relation : Relation) (left right : String) : Option Bool :=
  let numbers (compare : Int → Int → Bool) : Option Bool :=
    (decimal? left).bind fun first => (decimal? right).map fun second => compare first second
  match relation with
  | .same => some (left = right)
  | .different => some (left ≠ right)
  | .before => some (left < right)
  | .after => some (right < left)
  | .equal => numbers fun first second => first = second
  | .unequal => numbers fun first second => first ≠ second
  | .greater => numbers fun first second => second < first
  | .greaterOrEqual => numbers fun first second => second ≤ first
  | .less => numbers fun first second => first < second
  | .lessOrEqual => numbers fun first second => first ≤ second
  | .newer => some (facts .exists left && !facts .exists right)
  | .older => some (!facts .exists left && facts .exists right)
  | .sameFile => some (facts .exists left && left = right)

/-! ## Longer conditions

Each of these functions takes the arguments from the current one on, says whether the
condition holds, and gives the arguments from the last one of the condition on. -/

mutual

def either? (facts : Facts) : Nat → List String → Option (Bool × List String)
  | 0, _ => none
  | depth + 1, arguments =>
      (both? facts depth arguments).bind fun (left, last) =>
        if firstTerm (last.drop 1) = .or then
          (either? facts depth (last.drop 2)).map fun (right, rest) => (left || right, rest)
        else some (left, last)

def both? (facts : Facts) : Nat → List String → Option (Bool × List String)
  | 0, _ => none
  | depth + 1, arguments =>
      (negated? facts depth arguments).bind fun (left, last) =>
        if firstTerm (last.drop 1) = .and then
          (both? facts depth (last.drop 2)).map fun (right, rest) => (left && right, rest)
        else some (left, last)

def negated? (facts : Facts) : Nat → List String → Option (Bool × List String)
  | 0, _ => none
  | depth + 1, arguments =>
      if firstTerm arguments = .not then
        let inner := if arguments.length ≤ 1 then some (false, arguments)
          else negated? facts depth (arguments.drop 1)
        inner.map fun (value, last) => (!value, last)
      else primary? facts depth (firstTerm arguments) arguments

/-- A condition without connectives, whose first argument is the given one. -/
def primary? (facts : Facts) : Nat → Term → List String → Option (Bool × List String)
  | 0, _, _ => none
  | depth + 1, first, arguments =>
      match first, arguments with
      | .none, _ | _, [] => some (false, arguments)
      | .opening, _ :: inside =>
          if firstTerm inside = .closing then some (false, inside)
          else
            (either? facts depth inside).bind fun (value, last) =>
              if firstTerm (last.drop 1) = .closing then some (value, last.drop 1) else none
      | .property _, [_] => none
      | .property property, _ :: text :: rest =>
          (hasProperty? facts property text).map (·, text :: rest)
      | _, text :: rest =>
          match firstTerm rest, rest with
          | .relation relation, _ :: other :: after =>
              (holds? facts relation text other).map (·, other :: after)
          | .relation _, _ => none
          | _, _ => some (!text.isEmpty, text :: rest)

end

/-- Evaluate arguments from an operand or an operator on. Something must not be left. -/
def evaluate (facts : Facts) (isOperand : Bool) (arguments : List String) : Option Bool :=
  let depth := 8 * arguments.length + 20
  let result :=
    if isOperand then
      (primary? facts depth .operand arguments).bind fun (left, last) =>
        if firstTerm (last.drop 1) = .and then
          (both? facts depth (last.drop 2)).map fun (right, rest) => (left && right, rest)
        else if firstTerm (last.drop 1) = .or then
          (either? facts depth (last.drop 2)).map fun (right, rest) => (left || right, rest)
        else some (left, last)
    else either? facts depth arguments
  result.bind fun (value, last) => if 2 ≤ last.length then none else some value

/-- Whether a condition of at most three arguments holds; nothing if it is not well-formed. -/
def testThree? (facts : Facts) : List String → Option Bool
  | [first, second, third] =>
      if (relation? second).isSome then evaluate facts true [first, second, third]
      else if first = "(" && third = ")" then evaluate facts false [second]
      else if first = "!" then (evaluate facts false [second, third]).map (!·)
      else evaluate facts false [first, second, third]
  | [] => some false
  | arguments => evaluate facts false arguments

/-- Whether a condition holds; nothing if it is not well-formed. Of two exclamation marks in
front of two arguments only one counts. -/
def test? (facts : Facts) : List String → Option Bool
  | ["!", "!", second, third] =>
      if (relation? second).isSome then (testThree? facts ["!", second, third]).map (!·)
      else testThree? facts ["!", second, third]
  | ["!", first, second, third] => (testThree? facts [first, second, third]).map (!·)
  | ["(", first, second, ")"] => evaluate facts false [first, second]
  | [first, second, third] => testThree? facts [first, second, third]
  | [] => some false
  | arguments => evaluate facts false arguments

end Condition

end TaskPlanner.Shell
