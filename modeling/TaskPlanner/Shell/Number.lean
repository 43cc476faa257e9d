/-!
# Numbers in the shell

Whole numbers as commands and arithmetic expressions take them: 64 bits, with a sign and
with blanks around them.
-/

set_option autoImplicit false

namespace TaskPlanner.Shell

def isNumberBlank (character : Char) : Bool :=
  character = ' ' || ('\t' ≤ character && character ≤ '\x0d')

def digitValue? (character : Char) : Option Nat :=
  if '0' ≤ character && character ≤ '9' then some (character.toNat - 48)
  else if 'a' ≤ character && character ≤ 'z' then some (character.toNat - 87)
  else if 'A' ≤ character && character ≤ 'Z' then some (character.toNat - 55)
  else none

def isDigitOf (base : Nat) (character : Char) : Bool :=
  (digitValue? character).any (· < base)

/-- The digits to a base in front of a text, with what follows them. -/
def splitDigits (base : Nat) (text : List Char) : List Char × List Char :=
  (text.takeWhile (isDigitOf base), text.dropWhile (isDigitOf base))

def valueOf (base : Nat) (digits : List Char) : Nat :=
  digits.foldl (fun sum digit => sum * base + (digitValue? digit).getD 0) 0

def splitSign : List Char → Bool × List Char
  | '-' :: text => (true, text)
  | '+' :: text => (false, text)
  | text => (false, text)

def isLong (value : Int) : Bool :=
  -9223372036854775808 ≤ value && value ≤ 9223372036854775807

/-- A number without sign whose start gives the base: sixteen behind `0x`, eight behind `0`,
ten otherwise. What follows comes with it. -/
def splitConstant : List Char → List Char × Nat × List Char
  | '0' :: mark :: text =>
      if (mark = 'x' || mark = 'X') && text.head?.any (isDigitOf 16) then
        let (digits, after) := splitDigits 16 text
        (digits, 16, after)
      else
        let (digits, after) := splitDigits 8 ('0' :: mark :: text)
        (digits, 8, after)
  | text =>
      let (digits, after) := splitDigits 10 text
      (digits, 10, after)

/-- A number with a sign, without the blanks around it. -/
def signed? (isNegative : Bool) (value : Nat) (after : List Char) : Option Int :=
  let result : Int := if isNegative then -(value : Int) else value
  if after.all isNumberBlank && isLong result then some result else none

def decimal? (text : String) : Option Int :=
  let (isNegative, behind) := splitSign (text.toList.dropWhile isNumberBlank)
  match splitDigits 10 behind with
  | ([], _) => none
  | (digits, after) => signed? isNegative (valueOf 10 digits) after

/-- Read a decimal number that is not negative and fits in 31 bits. -/
def natural? (text : String) : Option Nat :=
  (decimal? text).bind fun value =>
    if 0 ≤ value && value ≤ 2147483647 then some value.toNat else none

/-- Read the number that a variable holds. Blanks alone are zero. -/
def constant? (text : String) : Option Int :=
  let characters := text.toList.dropWhile isNumberBlank
  if characters.isEmpty then some 0
  else
    let (isNegative, behind) := splitSign characters
    match splitConstant behind with
    | ([], _, _) => none
    | (digits, base, after) => signed? isNegative (valueOf base digits) after

end TaskPlanner.Shell
