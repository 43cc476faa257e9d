import TaskPlanner.Toml.Value

/-!
# TOML scalars

Numbers, booleans, dates and times: the values that are written without quotes or
brackets. Each is read from the word that spells it.
-/

set_option autoImplicit false

namespace TaskPlanner.Toml

def digit? (radix : Nat) (character : Char) : Option Nat :=
  let value :=
    if '0' ≤ character && character ≤ '9' then character.toNat - 48
    else if 'a' ≤ character && character ≤ 'f' then character.toNat - 87
    else if 'A' ≤ character && character ≤ 'F' then character.toNat - 55
    else radix
  if value < radix then some value else none

def isDigit (character : Char) : Bool := (digit? 10 character).isSome

/-- Read digits, with single underscores between them. `wantsDigit` says that an underscore
or the end may not come next. -/
def digits (radix : Nat) : Bool → Nat → List Char → Option Nat
  | true, _, [] => none
  | false, value, [] => some value
  | wantsDigit, value, head :: rest =>
      match digit? radix head with
      | some next => digits radix false (value * radix + next) rest
      | none => if head = '_' && !wantsDigit then digits radix true value rest else none

/-- Read a decimal number without sign, which has no needless zero in front. -/
def decimal? (word : List Char) : Option Nat :=
  match word with
  | '0' :: _ :: _ => none
  | _ => digits 10 true 0 word

/-- Take the sign off a word; the flag says that it was a minus. -/
def unsigned : List Char → Bool × List Char
  | '+' :: rest => (false, rest)
  | '-' :: rest => (true, rest)
  | word => (false, word)

/-- Whether an integer has at most 128 bits. -/
def fitsWords (value : Int) : Bool :=
  -170141183460469231731687303715884105728 ≤ value &&
    value < 340282366920938463463374607431768211456

def integer? (word : List Char) : Option Int :=
  match word with
  | '0' :: 'x' :: rest => (digits 16 true 0 rest).map Int.ofNat
  | '0' :: 'o' :: rest => (digits 8 true 0 rest).map Int.ofNat
  | '0' :: 'b' :: rest => (digits 2 true 0 rest).map Int.ofNat
  | _ =>
      let (isNegative, rest) := unsigned word
      (decimal? rest).map fun value => if isNegative then -Int.ofNat value else Int.ofNat value

def isExponent (word : List Char) : Bool := (digits 10 true 0 (unsigned word).2).isSome

def isFloat (word : List Char) : Bool :=
  let rest := (unsigned word).2
  if rest = ['i', 'n', 'f'] || rest = ['n', 'a', 'n'] then true
  else
    let isMark (character : Char) : Bool := character = 'e' || character = 'E'
    let mantissa := rest.takeWhile (!isMark ·)
    let power := rest.dropWhile (!isMark ·)
    let whole := mantissa.takeWhile (· ≠ '.')
    let fraction := mantissa.dropWhile (· ≠ '.')
    (decimal? whole).isSome &&
      (fraction.isEmpty || (digits 10 true 0 fraction.tail).isSome) &&
      (power.isEmpty || isExponent power.tail) &&
      !(fraction.isEmpty && power.isEmpty)

def doubleLimit : Nat := Nat.pow 2 1024 - Nat.pow 2 970

/-- Whether the decimal number that the digits spell, times ten to the power `exponent`, is
too large for 64-bit floating point. The number has `magnitude` digits in front of the point,
and the limit has 309. -/
def isTooLarge (digitsOfNumber : List Char) (exponent : Int) : Bool :=
  let significant := digitsOfNumber.dropWhile (· = '0')
  let magnitude := significant.length + exponent
  if significant.isEmpty || magnitude < 309 then false
  else if 309 < magnitude then true
  else
    let number := (digits 10 true 0 significant).getD 0
    if 0 ≤ exponent then doubleLimit ≤ number * Nat.pow 10 exponent.toNat
    else doubleLimit * Nat.pow 10 (-exponent).toNat ≤ number

/-- Whether a word that spells a float spells one that floating point can hold. -/
def fitsDouble (word : List Char) : Bool :=
  let rest := (unsigned word).2
  let isMark (character : Char) : Bool := character = 'e' || character = 'E'
  let mantissa := rest.takeWhile (!isMark ·)
  let (isNegative, power) := unsigned (rest.dropWhile (!isMark ·)).tail
  let exponent : Int := (digits 10 true 0 power).getD 0
  let fraction := (mantissa.dropWhile (· ≠ '.')).filter isDigit
  !isTooLarge (mantissa.filter isDigit)
    ((if isNegative then -exponent else exponent) - fraction.length)

mutual

/-- Whether all numbers in a value are within the limits of integers and floats. -/
def Value.fits : Value → Bool
  | .integer value => fitsWords value
  | .float written => fitsDouble written.toList
  | .array items => fitAll items
  | .table _ entries => fitEntries entries
  | .tables elements => fitTables elements
  | .text _ | .boolean _ | .dateTime _ => true

def fitAll : List Value → Bool
  | [] => true
  | item :: rest => item.fits && fitAll rest

def fitEntries : List (String × Value) → Bool
  | [] => true
  | (_, value) :: rest => value.fits && fitEntries rest

def fitTables : List (List (String × Value)) → Bool
  | [] => true
  | entries :: rest => fitEntries entries && fitTables rest

end

/-! ## Dates and times -/

/-- Read a number of exactly `count` digits; the rest follows. -/
def fixed? (count : Nat) (word : List Char) : Option (Nat × List Char) :=
  let front := word.take count
  if front.length = count && front.all isDigit then
    (digits 10 true 0 front).map fun value => (value, word.drop count)
  else none

def daysIn (year month : Nat) : Nat :=
  if month = 2 then
    if year % 4 = 0 && (year % 100 ≠ 0 || year % 400 = 0) then 29 else 28
  else if month = 4 || month = 6 || month = 9 || month = 11 then 30
  else 31

def date? (word : List Char) : Option (List Char) :=
  match fixed? 4 word with
  | some (year, '-' :: afterYear) =>
      match fixed? 2 afterYear with
      | some (month, '-' :: afterMonth) =>
          match fixed? 2 afterMonth with
          | some (day, rest) =>
              if 1 ≤ month && month ≤ 12 && 1 ≤ day && day ≤ daysIn year month then some rest
              else none
          | none => none
      | _ => none
  | _ => none

def minutes? (word : List Char) : Option (List Char) :=
  match fixed? 2 word with
  | some (hour, ':' :: afterHour) =>
      match fixed? 2 afterHour with
      | some (minute, rest) => if hour ≤ 23 && minute ≤ 59 then some rest else none
      | none => none
  | _ => none

/-- Read the fraction of a second, if there is one; the rest follows. -/
def fraction? (word : List Char) : Option (List Char) :=
  match word with
  | '.' :: rest => if rest.head?.any isDigit then some (rest.dropWhile isDigit) else none
  | _ => some word

def time? (word : List Char) : Option (List Char) :=
  match minutes? word with
  | some (':' :: afterMinutes) =>
      match fixed? 2 afterMinutes with
      | some (second, rest) => if second ≤ 60 then fraction? rest else none
      | none => none
  | other => other

/-- Whether a word spells an offset from universal time, or is empty. -/
def isOffset (word : List Char) : Bool :=
  match word with
  | [] => true
  | ['Z'] | ['z'] => true
  | '+' :: rest => minutes? rest = some []
  | '-' :: rest => minutes? rest = some []
  | _ => false

def isDateTime (word : List Char) : Bool :=
  match date? word with
  | some [] => true
  | some (mark :: rest) =>
      (mark = 'T' || mark = 't' || mark = ' ') && (time? rest).any isOffset
  | none => time? word = some []

/-! ## Words -/

def isWordCharacter (character : Char) : Bool :=
  isDigit character || ('a' ≤ character && character ≤ 'z') ||
    ('A' ≤ character && character ≤ 'Z') || character = '_' || character = '-' ||
    character = '+' || character = '.' || character = ':'

/-- Read the word in front. A blank between a date and a time belongs to the word. -/
def word (text : List Char) : List Char × List Char :=
  let front := text.takeWhile isWordCharacter
  match text.dropWhile isWordCharacter with
  | ' ' :: rest =>
      if date? front = some [] && rest.head?.any isDigit then
        (front ++ ' ' :: rest.takeWhile isWordCharacter, rest.dropWhile isWordCharacter)
      else (front, ' ' :: rest)
  | rest => (front, rest)

def scalar? (word : List Char) : Option Value :=
  if word = ['t', 'r', 'u', 'e'] then some (.boolean true)
  else if word = ['f', 'a', 'l', 's', 'e'] then some (.boolean false)
  else
    match integer? word with
    | some value => some (.integer value)
    | none =>
        if isFloat word then some (.float (String.ofList word))
        else if isDateTime word then some (.dateTime (String.ofList word))
        else none

end TaskPlanner.Toml
