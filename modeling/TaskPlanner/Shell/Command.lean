/-!
# Shell commands

The commands of the shell language, as they are read from a script.

A word is a list of parts. What a part stands for is known only when the command runs;
whether it was quoted decides what happens to it then: a quoted part is never split into
fields, and its characters mean nothing in a pattern.
-/

set_option autoImplicit false

namespace TaskPlanner.Shell

/-- What is made of the value of a parameter. With `isStrict`, an empty parameter counts as
one that is not set. -/
inductive Change where
  | value
  | length
  /-- The word, if the parameter is not set. -/
  | default (isStrict : Bool)
  /-- The word, which becomes the value, if the parameter is not set. -/
  | assign (isStrict : Bool)
  /-- An error, if the parameter is not set. -/
  | require (isStrict : Bool)
  /-- The word, if the parameter is set. -/
  | alternative (isStrict : Bool)
  /-- The value without a start that matches the word, the shortest or the longest. -/
  | withoutStart (isLongest : Bool)
  /-- The value without an end that matches the word, the shortest or the longest. -/
  | withoutEnd (isLongest : Bool)
  /-- A change that does not exist. -/
  | unknown
deriving DecidableEq, Repr, Inhabited

mutual

/-- A part of a word. -/
inductive Part where
  | text (characters : List Char) (isQuoted : Bool)
  | parameter (name : String) (change : Change) (word : List Part) (isQuoted : Bool)
  | substitution (command : Command) (isQuoted : Bool)
  | arithmetic (expression : List Part) (isQuoted : Bool)

/-- Where the input of a command comes from or where its output goes. -/
inductive Redirection where
  | write (descriptor : Nat) (file : List Part)
  | append (descriptor : Nat) (file : List Part)
  | read (descriptor : Nat) (file : List Part)
  /-- The descriptor becomes the same as another one; a dash closes it. -/
  | duplicate (descriptor : Nat) (other : List Part)
  | document (descriptor : Nat) (content : List Part)

/-- A command. -/
inductive Command where
  | nothing
  | simple (assignments : List (String × List Part)) (words : List (List Part))
      (redirections : List Redirection)
  /-- Commands that run side by side, each reading what the one before it writes. -/
  | pipeline (commands : List Command)
  | negation (command : Command)
  | background (command : Command)
  | sequence (first second : Command)
  /-- The second command runs if the first succeeds. -/
  | both (first second : Command)
  /-- The second command runs if the first fails. -/
  | either (first second : Command)
  | subshell (command : Command)
  | redirected (command : Command) (redirections : List Redirection)
  | branch (condition consequence alternative : Command)
  /-- The body runs as long as the condition succeeds or, with `isUntil`, fails. -/
  | loop (isUntil : Bool) (condition body : Command)
  | each (name : String) (words : List (List Part)) (body : Command)
  /-- The first body runs one of whose patterns matches the subject. -/
  | choice (subject : List Part) (cases : List (List (List Part) × Command))
  | define (name : String) (body : Command)

end

instance : Inhabited Part := ⟨.text [] false⟩

instance : Inhabited Command := ⟨.nothing⟩

def keywords : List String :=
  ["!", "case", "do", "done", "elif", "else", "esac", "fi", "for", "if", "in", "then",
    "until", "while", "\x7b", "\x7d"]

/-- The commands that belong to the shell itself: an error in one of them ends it. -/
def specialCommands : List String :=
  [".", ":", "break", "continue", "eval", "exec", "exit", "export", "local", "readonly",
    "return", "set", "shift", "times", "trap", "unset"]

/-- The text of a word that consists of characters without quotes. -/
def bareText? : List Part → Option String
  | [.text characters false] => some (String.ofList characters)
  | _ => none

def Command.andThen (first : Command) : Command → Command
  | .nothing => first
  | second => .sequence first second

def isNameStart (character : Char) : Bool :=
  ('a' ≤ character && character ≤ 'z') || ('A' ≤ character && character ≤ 'Z') || character = '_'

def isDigit (character : Char) : Bool := '0' ≤ character && character ≤ '9'

def isNameCharacter (character : Char) : Bool := isNameStart character || isDigit character

def isName (characters : List Char) : Bool :=
  characters.head?.any isNameStart && characters.all isNameCharacter

def number (digits : List Char) : Nat :=
  digits.foldl (fun sum digit => sum * 10 + (digit.toNat - 48)) 0

end TaskPlanner.Shell
