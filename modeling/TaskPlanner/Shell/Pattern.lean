/-!
# Shell patterns

Patterns of texts, as they stand in a choice or in a change of a parameter. A quoted
character means itself.
-/

set_option autoImplicit false

namespace TaskPlanner.Shell

/-- A character of a word. -/
structure Letter where
  character : Char
  isQuoted : Bool
deriving DecidableEq, Repr

/-- A range or a class of characters between brackets. -/
inductive Member where
  | range (first last : Char)
  | category (name : String)
deriving DecidableEq, Repr

/-- What a part of a pattern matches. -/
inductive Atom where
  | exactly (character : Char)
  | anyCharacter
  | anyText
  | oneOf (isNegated : Bool) (members : List Member)
deriving DecidableEq, Repr

def isInCategory (name : String) (character : Char) : Bool :=
  let isPrintable := '!' ≤ character && character ≤ '~'
  match name with
  | "alpha" => character.isAlpha
  | "digit" => character.isDigit
  | "alnum" => character.isAlphanum
  | "upper" => character.isUpper
  | "lower" => character.isLower
  | "space" => character = ' ' || ('\t' ≤ character && character ≤ '\x0d')
  | "blank" => character = ' ' || character = '\t'
  | "punct" => isPrintable && !character.isAlphanum
  | "graph" => isPrintable
  | "print" => isPrintable || character = ' '
  | "cntrl" => character < ' ' || character = '\x7f'
  | "xdigit" =>
      character.isDigit || ('a' ≤ character && character ≤ 'f') ||
        ('A' ≤ character && character ≤ 'F')
  | _ => false

namespace Member

def contains (character : Char) : Member → Bool
  | range first last => first ≤ character && character ≤ last
  | category name => isInCategory name character

/-- Read members up to the closing bracket, with what follows it. -/
def readAll : Nat → List Letter → Option (List Member × List Letter)
  | 0, _ => none
  | _ + 1, [] => none
  | _ + 1, ⟨']', false⟩ :: letters => some ([], letters)
  | count + 1, first :: letters =>
      let name := (letters.drop 1).takeWhile (·.character.isAlpha)
      match first, letters, letters.drop (1 + name.length) with
      | ⟨'[', false⟩, ⟨':', _⟩ :: _, ⟨':', _⟩ :: ⟨']', _⟩ :: after =>
          (readAll count after).map fun (members, rest) =>
            (.category (String.ofList (name.map (·.character))) :: members, rest)
      | _, ⟨'-', false⟩ :: last :: after, _ =>
          if last = ⟨']', false⟩ then
            (readAll count letters).map fun (members, rest) =>
              (.range first.character first.character :: members, rest)
          else
            (readAll count after).map fun (members, rest) =>
              (.range first.character last.character :: members, rest)
      | _, _, _ =>
          (readAll count letters).map fun (members, rest) =>
            (.range first.character first.character :: members, rest)

/-- Read members behind the opening bracket. A closing bracket in front is a member. -/
def readBrackets (letters : List Letter) : Option (List Member × List Letter) :=
  match letters with
  | ⟨']', _⟩ :: after =>
      (readAll (letters.length + 1) after).map fun (members, rest) =>
        (.range ']' ']' :: members, rest)
  | _ => readAll (letters.length + 1) letters

end Member

namespace Atom

/-- The atoms of a pattern. The count is at least the number of letters. -/
def readAll : Nat → List Letter → List Atom
  | 0, _ => []
  | _ + 1, [] => []
  | count + 1, ⟨'*', false⟩ :: letters => anyText :: readAll count letters
  | count + 1, ⟨'?', false⟩ :: letters => anyCharacter :: readAll count letters
  | count + 1, ⟨'\\', false⟩ :: letter :: letters =>
      exactly letter.character :: readAll count letters
  | count + 1, ⟨'[', false⟩ :: letters =>
      let (isNegated, inside) := match letters with
        | ⟨'!', false⟩ :: after | ⟨'^', false⟩ :: after => (true, after)
        | _ => (false, letters)
      match Member.readBrackets inside with
      | some (members, after) => oneOf isNegated members :: readAll count after
      | none => exactly '[' :: readAll count letters
  | count + 1, letter :: letters => exactly letter.character :: readAll count letters

def accepts (character : Char) : Atom → Bool
  | exactly expected => character = expected
  | anyCharacter | anyText => true
  | oneOf isNegated members => (members.any (·.contains character)) != isNegated

end Atom

def ends : List Char → List (List Char)
  | [] => [[]]
  | head :: text => (head :: text) :: ends text

def matchesAtoms : List Atom → List Char → Bool
  | [], text => text.isEmpty
  | .anyText :: atoms, text => (ends text).any (matchesAtoms atoms)
  | atom :: atoms, text =>
      match text with
      | [] => false
      | head :: rest => atom.accepts head && matchesAtoms atoms rest

def bytesOf (character : Char) : List Char :=
  (String.singleton character).toUTF8.toList.map fun byte => Char.ofNat byte.toNat

/-- Whether a text as a whole matches a pattern. A single character of a pattern stands for a
byte. -/
def matchesPattern (pattern : List Letter) (text : List Char) : Bool :=
  let letters := pattern.flatMap fun letter =>
    (bytesOf letter.character).map fun character => { letter with character }
  matchesAtoms (Atom.readAll (letters.length + 1) letters) (text.flatMap bytesOf)

def patternOf (letters : List Letter) : List Atom := Atom.readAll (letters.length + 1) letters

def starts (text : List Char) : List (List Char) :=
  (List.range (text.length + 1)).map (text.take ·)

/-- A text without a start that matches, the shortest or the longest. -/
def withoutStart (isLongest : Bool) (pattern : List Atom) (text : List Char) : List Char :=
  let candidates := if isLongest then (starts text).reverse else starts text
  match candidates.find? (matchesAtoms pattern) with
  | some front => text.drop front.length
  | none => text

/-- A text without an end that matches, the shortest or the longest. -/
def withoutEnd (isLongest : Bool) (pattern : List Atom) (text : List Char) : List Char :=
  let candidates := if isLongest then ends text else (ends text).reverse
  match candidates.find? (matchesAtoms pattern) with
  | some last => text.take (text.length - last.length)
  | none => text

end TaskPlanner.Shell
