import TaskPlanner.Shell.Command
import TaskPlanner.Shell.Number

/-!
# Arithmetic of the shell

Expressions over whole numbers of 64 bits, which overflow without notice. A variable that
is not set counts as zero.
-/

set_option autoImplicit false

namespace TaskPlanner.Shell

/-- An operation on two numbers. -/
inductive Operation where
  | multiply | divide | remainder
  | add | subtract
  | shiftLeft | shiftRight
  | less | lessOrEqual | greater | greaterOrEqual
  | equal | unequal
  | bitAnd | bitXor | bitOr
deriving DecidableEq, Repr

/-- An operation on one number. -/
inductive Modifier where
  | negate | invert | complement
deriving DecidableEq, Repr

/-- An expression. -/
inductive Expression where
  | number (value : Int64)
  | reference (name : String)
  | modified (modifier : Modifier) (operand : Expression)
  | combined (operation : Operation) (left right : Expression)
  | both (left right : Expression)
  | either (left right : Expression)
  | choice (condition consequence alternative : Expression)
  /-- The variable takes the value, combined with the one it has if there is an operation. -/
  | assignment (name : String) (operation : Option Operation) (value : Expression)
deriving DecidableEq, Repr

namespace Operation

def truth (condition : Bool) : Int64 := if condition then 1 else 0

/-- Carry out an operation. Nothing can be divided by zero. -/
def result? (operation : Operation) (left right : Int64) : Option Int64 :=
  match operation with
  | multiply => some (Int64.mul left right)
  | divide => if right = 0 then none else some (Int64.div left right)
  | remainder => if right = 0 then none else some (Int64.mod left right)
  | add => some (Int64.add left right)
  | subtract => some (Int64.sub left right)
  | shiftLeft => some (Int64.shiftLeft left right)
  | shiftRight => some (Int64.shiftRight left right)
  | less => some (truth (left.toInt < right.toInt))
  | lessOrEqual => some (truth (left.toInt ≤ right.toInt))
  | greater => some (truth (right.toInt < left.toInt))
  | greaterOrEqual => some (truth (right.toInt ≤ left.toInt))
  | equal => some (truth (left = right))
  | unequal => some (truth (left ≠ right))
  | bitAnd => some (Int64.land left right)
  | bitXor => some (Int64.xor left right)
  | bitOr => some (Int64.lor left right)

/-- The operators of two characters and of one, with how tightly they bind: the lower, the
tighter. -/
def spellings : List (List Char × Operation × Nat) :=
  [ (['<', '<'], shiftLeft, 2), (['>', '>'], shiftRight, 2),
    (['<', '='], lessOrEqual, 3), (['>', '='], greaterOrEqual, 3),
    (['=', '='], equal, 4), (['!', '='], unequal, 4),
    (['*'], multiply, 0), (['/'], divide, 0), (['%'], remainder, 0),
    (['+'], add, 1), (['-'], subtract, 1),
    (['<'], less, 3), (['>'], greater, 3),
    (['&'], bitAnd, 5), (['^'], bitXor, 6), (['|'], bitOr, 7) ]

def loosest : Nat := 7

def isAssigning (operation : Operation) (binding : Nat) : Bool :=
  binding ≤ 2 || operation = bitAnd || operation = bitXor || operation = bitOr

end Operation

namespace Expression

/-! ## Reading -/

def skipSpace (text : List Char) : List Char := text.dropWhile isNumberBlank

/-- The operation in front, its binding and what follows it. Operators that assign and those
of conditions are none. -/
def operation? (text : List Char) : Option (Operation × Nat × List Char) :=
  let space := skipSpace text
  match Operation.spellings.find? (fun (spelling, _, _) => spelling.isPrefixOf space) with
  | none => none
  | some (spelling, operation, binding) =>
      let after := space.drop spelling.length
      let isCondition :=
        (operation = .bitAnd || operation = .bitOr) && after.head? = spelling.head?
      if isCondition || (operation.isAssigning binding && after.head? = some '=') then none
      else some (operation, binding, after)

/-- The assignment in front: the operation that goes with it, and what follows. -/
def assigning? (text : List Char) : Option (Option Operation × List Char) :=
  match skipSpace text with
  | '=' :: '=' :: _ => none
  | '=' :: after => some (none, after)
  | space =>
      match Operation.spellings.find? (fun (spelling, _, _) => spelling.isPrefixOf space) with
      | some (spelling, operation, binding) =>
          match space.drop spelling.length with
          | '=' :: after =>
              if operation.isAssigning binding then some (some operation, after) else none
          | _ => none
      | none => none

mutual

/-- Read an expression. The first argument bounds the depth. -/
def read? : Nat → List Char → Option (Expression × List Char)
  | 0, _ => none
  | depth + 1, text =>
      let space := skipSpace text
      let name := space.takeWhile isNameCharacter
      let assignment := if isName name then assigning? (space.drop name.length) else none
      match assignment with
      | some (operation, after) =>
          (read? depth after).map fun (value, rest) =>
            (.assignment (String.ofList name) operation value, rest)
      | none =>
          (readEither? depth text).bind fun (condition, rest) =>
            match skipSpace rest with
            | '?' :: after =>
                (read? depth after).bind fun (consequence, behind) =>
                  match skipSpace behind with
                  | ':' :: last =>
                      (readConditional? depth last).map fun (alternative, remaining) =>
                        (.choice condition consequence alternative, remaining)
                  | _ => none
            | _ => some (condition, rest)

def readConditional? : Nat → List Char → Option (Expression × List Char)
  | 0, _ => none
  | depth + 1, text =>
      (readEither? depth text).bind fun (condition, rest) =>
        match skipSpace rest with
        | '?' :: after =>
            (read? depth after).bind fun (consequence, behind) =>
              match skipSpace behind with
              | ':' :: last =>
                  (readConditional? depth last).map fun (alternative, remaining) =>
                    (.choice condition consequence alternative, remaining)
              | _ => none
        | _ => some (condition, rest)

def readEither? : Nat → List Char → Option (Expression × List Char)
  | 0, _ => none
  | depth + 1, text =>
      (readBoth? depth text).bind fun (left, rest) =>
        match skipSpace rest with
        | '|' :: '|' :: after =>
            (readEither? depth after).map fun (right, remaining) =>
              (.either left right, remaining)
        | _ => some (left, rest)

def readBoth? : Nat → List Char → Option (Expression × List Char)
  | 0, _ => none
  | depth + 1, text =>
      (readOperand? depth text).bind fun (first, behind) =>
        (readOperations? depth Operation.loosest first behind).bind fun (left, rest) =>
          match skipSpace rest with
          | '&' :: '&' :: after =>
              (readBoth? depth after).map fun (right, remaining) =>
                (.both left right, remaining)
          | _ => some (left, rest)

/-- Read operations behind an operand, as far as they bind at least as tightly as
`binding`. -/
def readOperations? : Nat → Nat → Expression → List Char → Option (Expression × List Char)
  | 0, _, _, _ => none
  | depth + 1, binding, left, text =>
      match operation? text with
      | none => some (left, text)
      | some (operation, own, after) =>
          if binding < own then some (left, text)
          else
            (readOperand? depth after).bind fun (operand, behind) =>
              let tighter :=
                if own = 0 then some (operand, behind)
                else readOperations? depth (own - 1) operand behind
              tighter.bind fun (right, rest) =>
                readOperations? depth binding (.combined operation left right) rest

def readOperand? : Nat → List Char → Option (Expression × List Char)
  | 0, _ => none
  | depth + 1, text =>
      match skipSpace text with
      | '(' :: after =>
          (read? depth after).bind fun (inner, behind) =>
            match skipSpace behind with
            | ')' :: rest => some (inner, rest)
            | _ => none
      | '+' :: after => readOperand? depth after
      | '-' :: after =>
          (readOperand? depth after).map fun (operand, rest) =>
            (.modified .negate operand, rest)
      | '~' :: after =>
          (readOperand? depth after).map fun (operand, rest) =>
            (.modified .complement operand, rest)
      | '!' :: after =>
          (readOperand? depth after).map fun (operand, rest) =>
            (.modified .invert operand, rest)
      | space =>
          if space.head?.any isDigit then
            let (digits, base, rest) := splitConstant space
            let value := min (valueOf base digits) 9223372036854775807
            some (.number (Int64.ofNat value), rest)
          else
            let name := space.takeWhile isNameCharacter
            if name.isEmpty then none
            else some (.reference (String.ofList name), space.drop name.length)

end

def parse? (text : String) : Option Expression :=
  match read? (20 * text.length + 100) text.toList with
  | some (expression, rest) => if (skipSpace rest).isEmpty then some expression else none
  | none => none

/-! ## Values -/

/-- The value of a variable, which may have got one in the same expression. -/
def variableValue? (lookup : String → String) (assigned : List (String × Int64))
    (name : String) : Option Int64 :=
  match assigned.lookup name with
  | some value => some value
  | none => (constant? (lookup name)).map Int64.ofInt

/-- The value of an expression, and the variables that have got a value, the latest first.
There is none if something is divided by zero or a variable holds no number. -/
def value? (lookup : String → String) :
    Expression → List (String × Int64) → Option (Int64 × List (String × Int64))
  | number value, assigned => some (value, assigned)
  | reference name, assigned =>
      (variableValue? lookup assigned name).map (·, assigned)
  | modified modifier operand, assigned =>
      (value? lookup operand assigned).map fun (value, next) =>
        match modifier with
        | .negate => (Int64.neg value, next)
        | .invert => (Operation.truth (value = 0), next)
        | .complement => (Int64.complement value, next)
  | combined operation left right, assigned =>
      (value? lookup left assigned).bind fun (first, between) =>
        (value? lookup right between).bind fun (second, next) =>
          (operation.result? first second).map (·, next)
  | both left right, assigned =>
      (value? lookup left assigned).bind fun (first, between) =>
        if first = 0 then some (0, between)
        else (value? lookup right between).map fun (second, next) =>
          (Operation.truth (second ≠ 0), next)
  | either left right, assigned =>
      (value? lookup left assigned).bind fun (first, between) =>
        if first ≠ 0 then some (1, between)
        else (value? lookup right between).map fun (second, next) =>
          (Operation.truth (second ≠ 0), next)
  | choice condition consequence alternative, assigned =>
      (value? lookup condition assigned).bind fun (chosen, between) =>
        if chosen ≠ 0 then value? lookup consequence between
        else value? lookup alternative between
  | assignment name operation operand, assigned =>
      (value? lookup operand assigned).bind fun (value, between) =>
        match operation with
        | none => some (value, (name, value) :: between)
        | some operation =>
            (variableValue? lookup between name).bind fun current =>
              (operation.result? current value).map fun result =>
                (result, (name, result) :: between)

end Expression

end TaskPlanner.Shell
