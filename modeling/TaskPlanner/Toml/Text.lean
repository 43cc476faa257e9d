import TaskPlanner.Toml.Scalar

/-!
# TOML strings

Strings in double quotes have escapes, strings in single quotes do not. In three quotes
of either kind they span lines; a line feed right behind the opening quotes does not
count. All readers take the characters behind the opening quotes and return what
follows the closing ones.
-/

set_option autoImplicit false

namespace TaskPlanner.Toml

/-- Whether a character may stand in a string or comment: no control character except the
tab. -/
def isPlain (character : Char) : Bool :=
  character = '\t' || (32 ≤ character.toNat && character.toNat ≠ 127)

def numbered? (count : Nat) (text : List Char) : Option (Char × List Char) :=
  let front := text.take count
  if front.length = count && front.all fun character => (digit? 16 character).isSome then
    (digits 16 true 0 front).bind fun value =>
      if value.isValidChar then some (Char.ofNat value, text.drop count) else none
  else none

def escape? : List Char → Option (Char × List Char)
  | 'b' :: rest => some ('\x08', rest)
  | 't' :: rest => some ('\t', rest)
  | 'n' :: rest => some ('\n', rest)
  | 'f' :: rest => some ('\x0c', rest)
  | 'r' :: rest => some ('\r', rest)
  | 'e' :: rest => some ('\x1b', rest)
  | '"' :: rest => some ('"', rest)
  | '\\' :: rest => some ('\\', rest)
  | 'x' :: rest => numbered? 2 rest
  | 'u' :: rest => numbered? 4 rest
  | 'U' :: rest => numbered? 8 rest
  | _ => none

/-- Take one line break off the front, if there is one. -/
def dropBreak : List Char → List Char
  | '\n' :: rest => rest
  | '\r' :: '\n' :: rest => rest
  | text => text

def startsWithBreak : List Char → Bool
  | '\n' :: _ => true
  | '\r' :: '\n' :: _ => true
  | _ => false

def isBlank (character : Char) : Bool := character = ' ' || character = '\t'

/-- Skip blanks and line breaks, for at most the given number of characters. -/
def skipSpace : Nat → List Char → List Char
  | 0, text => text
  | count + 1, text =>
      match text with
      | ' ' :: rest => skipSpace count rest
      | '\t' :: rest => skipSpace count rest
      | '\n' :: rest => skipSpace count rest
      | '\r' :: '\n' :: rest => skipSpace count rest
      | _ => text

/-- Read a string on one line. `content` holds what was read, the latest first. -/
def line (quote : Char) : Nat → List Char → List Char → Option (List Char × List Char)
  | 0, _, _ => none
  | _ + 1, _, [] => none
  | count + 1, content, head :: rest =>
      if head = quote then some (content.reverse, rest)
      else if head = '\\' && quote = '"' then
        match escape? rest with
        | some (character, after) => line quote count (character :: content) after
        | none => none
      else if isPlain head then line quote count (head :: content) rest
      else none

/-- Read a string that spans lines. Up to two quotes in a row belong to the string; the
last three of at most five close it. A backslash at the end of a line joins it to the next
text. -/
def block (quote : Char) : Nat → List Char → List Char → Option (List Char × List Char)
  | 0, _, _ => none
  | _ + 1, _, [] => none
  | count + 1, content, head :: rest =>
      if head = quote then
        let others := rest.takeWhile (· = quote)
        let after := rest.dropWhile (· = quote)
        if 5 ≤ others.length then none
        else if 2 ≤ others.length then
          some ((others.drop 2 ++ content).reverse, after)
        else block quote count (head :: content) rest
      else if head = '\\' && quote = '"' then
        let joined := rest.dropWhile isBlank
        if startsWithBreak joined then block quote count content (skipSpace joined.length joined)
        else
          match escape? rest with
          | some (character, after) => block quote count (character :: content) after
          | none => none
      else if head = '\n' then block quote count ('\n' :: content) rest
      else if head = '\r' then
        match rest with
        | '\n' :: after => block quote count ('\n' :: '\r' :: content) after
        | _ => none
      else if isPlain head then block quote count (head :: content) rest
      else none

def quotedLine? (text : List Char) : Option (String × List Char) :=
  match text with
  | '"' :: rest => (line '"' (rest.length + 1) [] rest).map fun (content, after) =>
      (String.ofList content, after)
  | '\'' :: rest => (line '\'' (rest.length + 1) [] rest).map fun (content, after) =>
      (String.ofList content, after)
  | _ => none

/-- Read a string of any kind whose opening quotes are in front. -/
def quoted? (text : List Char) : Option (String × List Char) :=
  match text with
  | '"' :: '"' :: '"' :: rest =>
      let inside := dropBreak rest
      (block '"' (inside.length + 1) [] inside).map fun (content, after) =>
        (String.ofList content, after)
  | '\'' :: '\'' :: '\'' :: rest =>
      let inside := dropBreak rest
      (block '\'' (inside.length + 1) [] inside).map fun (content, after) =>
        (String.ofList content, after)
  | _ => quotedLine? text

end TaskPlanner.Toml
