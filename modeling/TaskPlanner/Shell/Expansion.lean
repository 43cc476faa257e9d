import TaskPlanner.Shell.Arithmetic
import TaskPlanner.Shell.Pattern
import TaskPlanner.Shell.Process

/-!
# Expansion of words

What words come to when a command runs: the values of parameters and expressions, the output
of commands, and the fields into which all that is divided.

Expansion may run commands, so it takes the way to run one as an argument.
-/

set_option autoImplicit false

namespace TaskPlanner.Shell

/-- Where a command stands. -/
structure Context where
  /-- Whether its status is asked for, so that a failure does not end a shell that ends with
  the first failure. -/
  isTested : Bool := false
  /-- Whether the shell has nothing to do behind it. -/
  isLast : Bool := false
deriving DecidableEq, Repr

abbrev Evaluation := Command → Context → Process → Process

/-- A piece of a word that has been expanded. -/
inductive Fragment where
  /-- A character, which may separate fields if `isDividing`. -/
  | letter (letter : Letter) (isDividing : Bool)
  /-- A quotation, which is a field even if it is empty. -/
  | quotation
  | boundary
deriving DecidableEq, Repr

def fragmentsOf (text : List Char) (isQuoted isDividing : Bool) : List Fragment :=
  (if isQuoted then [.quotation] else []) ++
    text.map fun character => .letter { character, isQuoted } (isDividing && !isQuoted)

def lettersOf (fragments : List Fragment) : List Letter :=
  fragments.filterMap fun fragment => match fragment with
    | .letter letter _ => some letter
    | .boundary => some { character := ' ', isQuoted := true }
    | .quotation => none

def textOf (letters : List Letter) : String :=
  String.ofList (letters.map (·.character))

/-! ## Fields -/

/-- Fields being gathered. -/
structure Gathering where
  /-- The fields that are complete, the latest first. -/
  fields : List (List Letter) := []
  /-- The letters of the current field, the latest first, if there is one. -/
  current : Option (List Letter) := none
  /-- Whether blanks have ended the latest field, so that a separator may still belong to
  them. -/
  isAfterBlank : Bool := false

namespace Gathering

def close (gathering : Gathering) : Gathering :=
  match gathering.current with
  | none => gathering
  | some letters =>
      { gathering with fields := letters.reverse :: gathering.fields, current := none }

def take (separators : List Char) (gathering : Gathering) : Fragment → Gathering
  | .quotation =>
      { gathering with current := some (gathering.current.getD []), isAfterBlank := false }
  | .boundary => { gathering.close with isAfterBlank := false }
  | .letter letter isDividing =>
      if isDividing && separators.contains letter.character then
        if [' ', '\t', '\n'].contains letter.character then
          { gathering.close with
            isAfterBlank := gathering.isAfterBlank || gathering.current.isSome }
        else if gathering.isAfterBlank then { gathering with isAfterBlank := false }
        else
          let opened := { gathering with current := some (gathering.current.getD []) }
          { opened.close with isAfterBlank := false }
      else
        { gathering with
          current := some (letter :: gathering.current.getD [])
          isAfterBlank := false }

end Gathering

def fieldsOf (separators : String) (fragments : List Fragment) : List (List Letter) :=
  (fragments.foldl (Gathering.take separators.toList) {}).close.fields.reverse

/-! ## Parameters -/

def isAll (name : String) : Bool := name = "@" || name = "*"

def valueFragments (process : Process) (name value : String) (isQuoted : Bool) :
    List Fragment :=
  if name = "@" || (name = "*" && !isQuoted) then
    let arguments := process.arguments.map fun argument =>
      fragmentsOf argument.toList isQuoted true
    [Fragment.boundary].intercalate arguments
  else fragmentsOf value.toList isQuoted true

/-- A text without the line breaks at its end. -/
def withoutLastBreaks (text : List Char) : List Char :=
  (text.reverse.dropWhile (· = '\n')).reverse

def outputOf (evaluate : Evaluation) (command : Command) (process : Process) :
    List Char × Process :=
  match command with
  | .nothing => ([], process)
  | _ =>
      let (number, world) := process.world.addStream []
      let child :=
        ({ process with world }.child).withChannel 1 (some (.stream number))
      let ended := evaluate command { isLast := true } child
      let after := process.await ended
      (withoutLastBreaks ((ended.world.stream number).filter (· ≠ '\x00')),
        { after with
          status := process.status
          substitutionStatus := after.status })

/-- The value of an arithmetic expression. One that has none ends the shell. -/
def arithmeticValue (text : String) (process : Process) : String × Process :=
  let lookup (name : String) : String := (process.parameter? name).getD ""
  match (Expression.parse? text).bind fun expression => expression.value? lookup [] with
  | none => ("", process.abort)
  | some (value, assigned) =>
      let changed := assigned.foldr
        (fun (name, number) current => current.assign name (toString number.toInt)) process
      (toString value.toInt, changed)

mutual

/-- Expand a part of a word. Inside the braces of a parameter, unquoted text is divided. -/
def expandPart (evaluate : Evaluation) (isInner : Bool) :
    Part → Process → List Fragment × Process
  | .text characters isQuoted, process =>
      (fragmentsOf characters isQuoted isInner, process)
  | .substitution command isQuoted, process =>
      if process.isOnward then
        let (output, after) := outputOf evaluate command process
        (fragmentsOf output isQuoted true, after)
      else ([], process)
  | .arithmetic expression isQuoted, process =>
      let (fragments, between) := expandParts evaluate false expression process
      if between.isOnward then
        let (value, after) := arithmeticValue (textOf (lettersOf fragments)) between
        (fragmentsOf value.toList isQuoted true, after)
      else ([], between)
  | .parameter name change word isQuoted, process =>
      let value := process.parameter? name
      let isSet (isStrict : Bool) : Bool := value.any fun text => !isStrict || !text.isEmpty
      let fragments (text : String) : List Fragment :=
        valueFragments process name text isQuoted
      let isMissing := value.isNone && process.options.contains 'u' && !isAll name
      let plain := if value.isNone && name = "@" then [] else fragments (value.getD "")
      match change with
      | .value => if isMissing then ([], process.abort) else (plain, process)
      | .length =>
          if isMissing then ([], process.abort)
          else
            let length := (value.getD "").utf8ByteSize
            (fragmentsOf (toString length).toList isQuoted true, process)
      | .default isStrict =>
          if isSet isStrict then (plain, process)
          else
            let (fragments, after) := expandParts evaluate true word process
            ((if isQuoted then [.quotation] else []) ++ fragments, after)
      | .alternative isStrict =>
          if isSet isStrict then
            let (fragments, after) := expandParts evaluate true word process
            ((if isQuoted then [.quotation] else []) ++ fragments, after)
          else (if isQuoted then [.quotation] else [], process)
      | .assign isStrict =>
          if isSet isStrict then (plain, process)
          else
            let (found, between) := expandParts evaluate false word process
            let text := textOf (lettersOf found)
            if isName name.toList then
              let after := if between.isOnward then between.assign name text else between
              (fragmentsOf text.toList isQuoted true, after)
            else ([], between.abort)
      | .require isStrict =>
          if isSet isStrict then (plain, process)
          else
            let (_, between) := expandParts evaluate false word process
            ([], between.abort)
      | .withoutStart isLongest =>
          if isMissing then ([], process.abort)
          else
            let (found, after) := expandParts evaluate false word process
            let kept :=
              withoutStart isLongest (patternOf (lettersOf found)) (value.getD "").toList
            (fragmentsOf kept isQuoted true, after)
      | .withoutEnd isLongest =>
          if isMissing then ([], process.abort)
          else
            let (found, after) := expandParts evaluate false word process
            let kept :=
              withoutEnd isLongest (patternOf (lettersOf found)) (value.getD "").toList
            (fragmentsOf kept isQuoted true, after)
      | .unknown => ([], process.abort)

def expandParts (evaluate : Evaluation) (isInner : Bool) :
    List Part → Process → List Fragment × Process
  | [], process => ([], process)
  | part :: parts, process =>
      let (first, between) := expandPart evaluate isInner part process
      let (others, after) := expandParts evaluate isInner parts between
      (first ++ others, after)

end

/-! ## Words -/

/-- A word with the home directory instead of a tilde in front. -/
def withHome (process : Process) : List Part → List Part
  | .text ('~' :: characters) false :: parts =>
      if (characters.isEmpty && parts.isEmpty) || characters.head? = some '/' then
        match process.parameter? "HOME" with
        | some home => .text home.toList true :: .text characters false :: parts
        | none => .text ('~' :: characters) false :: parts
      else .text ('~' :: characters) false :: parts
  | parts => parts

def expandLetters (evaluate : Evaluation) (word : List Part) (process : Process) :
    List Letter × Process :=
  let (fragments, after) := expandParts evaluate false (withHome process word) process
  (lettersOf fragments, after)

def expandText (evaluate : Evaluation) (word : List Part) (process : Process) :
    String × Process :=
  let (letters, after) := expandLetters evaluate word process
  (textOf letters, after)

def expandWords (evaluate : Evaluation) : List (List Part) → Process → List String × Process
  | [], process => ([], process)
  | word :: words, process =>
      let (fragments, between) := expandParts evaluate false (withHome process word) process
      let fields := (fieldsOf between.separators fragments).map textOf
      let (others, after) := expandWords evaluate words between
      (fields ++ others, after)

end TaskPlanner.Shell
