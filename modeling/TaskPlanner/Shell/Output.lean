import TaskPlanner.Shell.Number

/-!
# Texts that commands write

The escapes of `echo`, and the formats of `printf`.
-/

set_option autoImplicit false

namespace TaskPlanner.Shell

/-- The character behind a backslash, for the escapes of a single letter. -/
def escapedLetter? : Char → Option Char
  | 'a' => some '\x07'
  | 'b' => some '\x08'
  | 'f' => some '\x0c'
  | 'n' => some '\n'
  | 'r' => some '\r'
  | 't' => some '\t'
  | 'v' => some '\x0b'
  | '\\' => some '\\'
  | _ => none

/-- Replace the escapes of a text, and say whether it ended early. In an argument, a number to
the base eight comes behind a zero, and `\c` ends the text. The count is at least the number
of characters. -/
def unescaped (isArgument : Bool) : Nat → List Char → List Char × Bool
  | 0, _ => ([], false)
  | _ + 1, [] => ([], false)
  | count + 1, '\\' :: letter :: text =>
      if isArgument && letter = 'c' then ([], true)
      else
        match escapedLetter? letter with
        | some character =>
            let (rest, isEnded) := unescaped isArgument count text
            (character :: rest, isEnded)
        | none =>
            let start := if isArgument && letter = '0' then text else letter :: text
            let digits := (start.take 3).takeWhile (isDigitOf 8)
            if (isArgument && letter = '0') || (!isArgument && !digits.isEmpty) then
              let (rest, isEnded) := unescaped isArgument count (start.drop digits.length)
              (Char.ofNat (valueOf 8 digits % 256) :: rest, isEnded)
            else
              let (rest, isEnded) := unescaped isArgument count text
              ('\\' :: letter :: rest, isEnded)
  | count + 1, head :: text =>
      let (rest, isEnded) := unescaped isArgument count text
      (head :: rest, isEnded)

def echoed (arguments : List String) : String :=
  let (isBroken, words) := match arguments with
    | "-n" :: words => (false, words)
    | words => (true, words)
  let joined := (" ".intercalate words).toList
  let (text, isEnded) := unescaped true (joined.length + 1) joined
  String.ofList (if isBroken && !isEnded then text ++ ['\n'] else text)

def padded (width : Nat) (isLeft isZeroed : Bool) (text : List Char) : List Char :=
  let missing := width - text.length
  if isLeft then text ++ List.replicate missing ' '
  else
    match isZeroed, text with
    | true, '-' :: digits => '-' :: (List.replicate missing '0' ++ digits)
    | true, digits => List.replicate missing '0' ++ digits
    | false, _ => List.replicate missing ' ' ++ text

/-- The number that an argument of a format stands for, and whether it is one. -/
def formatNumber (argument : String) : Int × Bool :=
  match argument.toList with
  | '\'' :: character :: _ | '"' :: character :: _ => (character.toNat, true)
  | _ =>
      match constant? argument with
      | some value => (value, true)
      | none => (0, false)

def formatDigits (conversion : Char) (value : Int) : List Char :=
  let unsigned : Nat :=
    if value < 0 then (value + 18446744073709551616).toNat else value.toNat
  match conversion with
  | 'o' => Nat.toDigits 8 unsigned
  | 'x' => Nat.toDigits 16 unsigned
  | 'X' => (Nat.toDigits 16 unsigned).map Char.toUpper
  | 'u' => (toString unsigned).toList
  | _ => (toString value).toList

/-- What a format has come to. -/
structure Formatting where
  text : List Char := []
  arguments : List String
  isSound : Bool := true
  isEnded : Bool := false
  /-- Whether the format has a conversion that does not exist. -/
  isBroken : Bool := false
  isFed : Bool := false

namespace Formatting

def add (formatting : Formatting) (text : List Char) : Formatting :=
  { formatting with text := formatting.text ++ text }

/-- Take the next argument; an empty one if none is left. -/
def next (formatting : Formatting) : String × Formatting :=
  match formatting.arguments with
  | [] => ("", { formatting with isFed := true })
  | argument :: arguments => (argument, { formatting with arguments, isFed := true })

/-- Write an argument as a conversion says; nothing if there is no such conversion. -/
def convert? (formatting : Formatting) (flags : List Char) (width : Nat)
    (precision : Option Nat) (conversion : Char) : Option Formatting :=
  let (argument, taken) := formatting.next
  let fill := padded width (flags.contains '-')
  match conversion with
  | 's' =>
      let shown := match precision with
        | some limit => argument.toList.take limit
        | none => argument.toList
      some (taken.add (fill false shown))
  | 'c' => some (taken.add (fill false [argument.toList.head?.getD '\x00']))
  | 'b' =>
      let (text, isEnded) := unescaped true (argument.length + 1) argument.toList
      some { taken.add (fill false text) with isEnded }
  | 'd' | 'i' | 'u' | 'o' | 'x' | 'X' =>
      let (value, isNumber) := formatNumber argument
      let digits := formatDigits conversion value
      let signed := if flags.contains '+' && 0 ≤ value then '+' :: digits else digits
      let full := match precision with
        | some limit => padded limit false true signed
        | none => signed
      some { taken.add (fill (flags.contains '0' && precision.isNone) full) with
        isSound := taken.isSound && isNumber }
  | 'e' | 'E' | 'f' | 'F' | 'g' | 'G' | 'a' | 'A' =>
      some (taken.add (fill false argument.toList))
  | _ => none

def once : Nat → List Char → Formatting → Formatting
  | 0, _, formatting => formatting
  | _ + 1, [], formatting => formatting
  | count + 1, '%' :: '%' :: text, formatting => once count text (formatting.add ['%'])
  | count + 1, '%' :: text, formatting =>
      let flags := text.takeWhile ['-', '+', ' ', '0', '#'].contains
      let behindFlags := text.drop flags.length
      let width := behindFlags.takeWhile (isDigitOf 10)
      let behindWidth := behindFlags.drop width.length
      let (precision, behind) := match behindWidth with
        | '.' :: after =>
            let digits := after.takeWhile (isDigitOf 10)
            (some (valueOf 10 digits), after.drop digits.length)
        | _ => (none, behindWidth)
      match behind with
      | [] => { formatting with isBroken := true }
      | conversion :: rest =>
          match formatting.convert? flags (valueOf 10 width) precision conversion with
          | none => { formatting with isBroken := true }
          | some next => if next.isEnded then next else once count rest next
  | count + 1, head :: text, formatting => once count text (formatting.add [head])

/-- Go through a format as long as there are arguments and the format takes some. -/
def whole (format : List Char) : Nat → Formatting → Formatting
  | 0, formatting => formatting
  | count + 1, formatting =>
      let next := once (format.length + 1) format { formatting with isFed := false }
      if next.isEnded || next.isBroken || !next.isFed || next.arguments.isEmpty then next
      else whole format count next

end Formatting

def formatted (format : String) (arguments : List String) : Formatting :=
  let (text, _) := unescaped false (format.length + 1) format.toList
  Formatting.whole text (arguments.length + 1) { arguments }

end TaskPlanner.Shell
