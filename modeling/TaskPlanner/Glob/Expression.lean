/-!
# Byte expressions

What a glob means: a regular expression over bytes without repetition, except for the
part that matches any bytes. An expression is matched against all bytes of a text.

`Expression.advance` follows all ways of matching at once: it turns the positions where
a match may begin into those where it may end, so matching takes no backtracking.
-/

set_option autoImplicit false

namespace TaskPlanner.Glob

/-- A set of byte sequences. -/
inductive Expression where
  | byte (value : UInt8)
  /-- This byte or nothing. -/
  | maybe (value : UInt8)
  | anyByte
  | anyBytes
  /-- One byte within one of the ranges, or, negated, outside all of them. -/
  | oneOf (isNegated : Bool) (ranges : List (UInt8 × UInt8))
  /-- Whatever one of the rows matches. The parts of a row match one after the other. -/
  | group (rows : List (List Expression))

namespace Expression

/-! ## Matching -/

def inRanges (ranges : List (UInt8 × UInt8)) (value : UInt8) : Bool :=
  ranges.any fun (low, high) => decide (low ≤ value) && decide (value ≤ high)

/-- The positions behind an accepted byte, given those in front of it. -/
def stepOver (accepted : UInt8 → Bool) (text : List UInt8) (positions : List Bool) : List Bool :=
  false :: List.zipWith (fun isMarked value => isMarked && accepted value) positions text

/-- All positions from the first that is marked; with `isMarked`, all positions. -/
def onward : Bool → List Bool → List Bool
  | _, [] => []
  | isMarked, head :: rest => (isMarked || head) :: onward (isMarked || head) rest

def union (left right : List Bool) : List Bool := List.zipWith (· || ·) left right

mutual

/-- The positions of `text` where a match may end, given those where it may begin. -/
def advance (text : List UInt8) : Expression → List Bool → List Bool
  | byte value, positions => stepOver (· == value) text positions
  | maybe value, positions => union positions (stepOver (· == value) text positions)
  | anyByte, positions => stepOver (fun _ => true) text positions
  | anyBytes, positions => onward false positions
  | oneOf isNegated ranges, positions =>
      stepOver (fun value => inRanges ranges value != isNegated) text positions
  | group rows, positions => advanceAny text rows positions

def advanceRow (text : List UInt8) : List Expression → List Bool → List Bool
  | [], positions => positions
  | part :: rest, positions => advanceRow text rest (advance text part positions)

def advanceAny (text : List UInt8) : List (List Expression) → List Bool → List Bool
  | [], positions => positions.map fun _ => false
  | row :: rest, positions =>
      union (advanceRow text row positions) (advanceAny text rest positions)

end

/-- Whether the parts in a row match all of `text`. -/
def matchesAll (parts : List Expression) (text : List UInt8) : Bool :=
  (advanceRow text parts (true :: text.map fun _ => false)).getLastD false

/-! ## Nesting -/

mutual

/-- How deep an expression nests. Groups, alternatives, rows, repetitions and the members of
a class count. -/
def depth : Expression → Nat
  | byte _ | anyByte => 0
  | maybe _ | anyBytes => 1
  | oneOf _ ranges => if ranges.length = 1 then 1 else 2
  | group rows => 1 + (if rows.length = 1 then 0 else 1) + depthAny rows

def depthRow : List Expression → Nat
  | [] => 0
  | part :: rest => max (depth part) (depthRow rest)

/-- How deep the deepest of several rows nests. A row of several parts counts itself. -/
def depthAny : List (List Expression) → Nat
  | [] => 0
  | row :: rest =>
      max ((if row.length ≤ 1 then 0 else 1) + depthRow row) (depthAny rest)

end

def depthLimit : Nat := 250

/-- Whether the expression of a glob, which counts itself, nests too deep. -/
def isTooDeep (parts : List Expression) : Bool := depthLimit < 1 + depthRow parts

/-! ## Notation -/

def isMeta (character : Char) : Bool := "\\.+*?()|[]\x7b\x7d^$#&-~".toList.contains character

def hexDigit (value : Nat) : Char :=
  if value < 10 then Char.ofNat (48 + value) else Char.ofNat (87 + value)

def byteNotation (value : UInt8) : String :=
  if value < 128 then
    let character := Char.ofNat value.toNat
    if isMeta character then "\\" ++ String.singleton character else String.singleton character
  else
    "\\x" ++ String.ofList [hexDigit (value.toNat / 16), hexDigit (value.toNat % 16)]

def rangeNotation (range : UInt8 × UInt8) : String :=
  if range.1 = range.2 then byteNotation range.1
  else byteNotation range.1 ++ "-" ++ byteNotation range.2

mutual

def text : Expression → String
  | byte value => byteNotation value
  | maybe value => byteNotation value ++ "?"
  | anyByte => "."
  | anyBytes => ".*"
  | oneOf isNegated ranges =>
      "[" ++ (if isNegated then "^" else "") ++ String.join (ranges.map rangeNotation) ++ "]"
  | group rows => "(?:" ++ String.intercalate "|" (textsAny rows) ++ ")"

def textRow : List Expression → String
  | [] => ""
  | part :: rest => text part ++ textRow rest

def textsAny : List (List Expression) → List String
  | [] => []
  | row :: rest => textRow row :: textsAny rest

end

def fullText (parts : List Expression) : String := "(?-u)^" ++ textRow parts ++ "$"

end Expression

end TaskPlanner.Glob
