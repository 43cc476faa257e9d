import TaskPlanner.Shell.Command

/-!
# Reading shell commands

A script is read a line at a time, so a line that is not well-formed does no harm to the
lines before it. A line goes on as long as a command is open.

All readers take the characters that are left and give what they read with the characters
behind it, or nothing if there is no well-formed text. Their first argument bounds the depth
of the text; the number of characters, with a small factor, is always enough.
-/

set_option autoImplicit false

namespace TaskPlanner.Shell

abbrev Reader := StateT (List Char) Option

namespace Reader

/-! ## Characters -/

def fault {α : Type} : Reader α := fun _ => none

def rest : Reader (List Char) := get

/-- Skip blanks, line continuations and a comment. -/
def skippedBlanks : List Char → List Char
  | ' ' :: text => skippedBlanks text
  | '\t' :: text => skippedBlanks text
  | '\\' :: '\n' :: text => skippedBlanks text
  | '#' :: text => text.dropWhile (· ≠ '\n')
  | text => text

/-- Skip blanks, line continuations, comments and line breaks. -/
def skippedLines (isComment : Bool) : List Char → List Char
  | '\n' :: text => skippedLines false text
  | ' ' :: text => skippedLines isComment text
  | '\t' :: text => skippedLines isComment text
  | '\\' :: '\n' :: text =>
      if isComment then skippedLines false text else skippedLines isComment text
  | '#' :: text => skippedLines true text
  | head :: text => if isComment then skippedLines true text else head :: text
  | [] => []

def skipBlanks : Reader Unit := modify skippedBlanks

def skipLines : Reader Unit := modify (skippedLines false)

def isSeparator (character : Char) : Bool :=
  [' ', '\t', '\n', ';', '&', '|', '<', '>', '(', ')'].contains character

/-- The operator in front, with what follows it. The end of the text is an operator without
characters. -/
def operator? : List Char → Option (String × List Char)
  | [] => some ("", [])
  | '\n' :: text => some ("\n", text)
  | ';' :: ';' :: text => some (";;", text)
  | ';' :: text => some (";", text)
  | '&' :: '&' :: text => some ("&&", text)
  | '&' :: text => some ("&", text)
  | '|' :: '|' :: text => some ("||", text)
  | '|' :: text => some ("|", text)
  | '(' :: text => some ("(", text)
  | ')' :: text => some (")", text)
  | _ => none

def peekOperator? : Reader (Option String) := do
  skipBlanks
  return (operator? (← rest)).map (·.1)

def take (operator : String) : Reader Bool := do
  skipBlanks
  match operator? (← rest) with
  | some (found, after) =>
      if found = operator then set after; return true else return false
  | none => return false

def expect (operator : String) : Reader Unit := do
  if ← take operator then return () else fault

def closers : List String := ["do", "done", "elif", "else", "esac", "fi", "then", "\x7d"]

/-- The keyword in front, with what follows it. -/
def keyword? (text : List Char) : Option (String × List Char) :=
  let word := text.takeWhile (!isSeparator ·)
  let found := String.ofList word
  if keywords.contains found then some (found, text.drop word.length) else none

def peekKeyword? : Reader (Option String) := do
  skipBlanks
  return (keyword? (← rest)).map (·.1)

def takeKeyword (keyword : String) : Reader Bool := do
  skipBlanks
  match keyword? (← rest) with
  | some (found, after) =>
      if found = keyword then set after; return true else return false
  | none => return false

def expectKeyword (keyword : String) : Reader Unit := do
  if ← takeKeyword keyword then return () else fault

/-! ## Words -/

/-- Where parts of a word end. -/
inductive Closing where
  | separator
  | brace
  | quote
  | text
  /-- At two closing parentheses, with the number of those that are open. -/
  | parentheses (count : Nat)
deriving DecidableEq, Repr

def put (character : Char) (isQuoted : Bool) : List Part → List Part
  | .text characters quoted :: parts =>
      if quoted = isQuoted then .text (character :: characters) quoted :: parts
      else .text [character] isQuoted :: .text characters quoted :: parts
  | parts => .text [character] isQuoted :: parts

/-- Whether a backslash in double quotes takes away the meaning of a character. -/
def isEscaped (closing : Closing) (character : Char) : Bool :=
  character = '$' || character = '\x60' || character = '\\' ||
    (character = '"' && closing ≠ .text) || (character = '\x7d' && closing = .brace)

def untilQuote : Reader (List Char) := do
  let text ← rest
  let quoted := text.takeWhile (· ≠ '\'')
  match text.drop quoted.length with
  | _ :: after => set after; return quoted
  | [] => fault

/-- Take the characters up to the next back quote and that quote. Backslashes in front of a
back quote, a dollar sign or a backslash are lost. -/
def backquoted (isQuoted : Bool) : List Char → Option (List Char × List Char)
  | [] => none
  | '\x60' :: text => some ([], text)
  | '\\' :: head :: text =>
      (backquoted isQuoted text).map fun (content, after) =>
        if head = '\x60' || head = '$' || head = '\\' || (isQuoted && head = '"') then
          (head :: content, after)
        else ('\\' :: head :: content, after)
  | head :: text =>
      (backquoted isQuoted text).map fun (content, after) => (head :: content, after)

/-- Take the name of a parameter: a name, a number or a single character. -/
def parameterName? (isBraced : Bool) : Reader (Option String) := do
  match ← rest with
  | [] => return none
  | head :: text =>
      if isNameStart head then
        let name := (head :: text).takeWhile isNameCharacter
        set ((head :: text).drop name.length)
        return some (String.ofList name)
      else if isDigit head then
        let name := if isBraced then (head :: text).takeWhile isDigit else [head]
        set ((head :: text).drop name.length)
        return some (String.ofList name)
      else if ['@', '*', '#', '?', '-', '$', '!'].contains head then
        set text
        return some (String.singleton head)
      else return none

/-- Take what is made of a parameter, behind its name. The closing brace is not taken. -/
def change : Reader Change := do
  match ← rest with
  | '\x7d' :: _ => return .value
  | ':' :: '-' :: text => set text; return .default true
  | ':' :: '=' :: text => set text; return .assign true
  | ':' :: '?' :: text => set text; return .require true
  | ':' :: '+' :: text => set text; return .alternative true
  | '-' :: text => set text; return .default false
  | '=' :: text => set text; return .assign false
  | '?' :: text => set text; return .require false
  | '+' :: text => set text; return .alternative false
  | '#' :: '#' :: text => set text; return .withoutStart true
  | '#' :: text => set text; return .withoutStart false
  | '%' :: '%' :: text => set text; return .withoutEnd true
  | '%' :: text => set text; return .withoutEnd false
  | _ => return .unknown

/-- Whether the word behind a change is a pattern, in which quotes mean the same inside
double quotes as outside. -/
def isPatternChange : Change → Bool
  | .withoutStart _ | .withoutEnd _ => true
  | _ => false

/-! ## Documents -/

/-- Split off the rest of the current line, which a line break in quotes does not end. -/
def splitLine (quote : Option Char) : List Char → List Char × List Char
  | [] => ([], [])
  | '\\' :: head :: text =>
      let (line, after) := splitLine quote text
      ('\\' :: head :: line, after)
  | ' ' :: '#' :: text =>
      if quote.isNone then ([], (text.dropWhile (· ≠ '\n')).drop 1)
      else
        let (line, after) := splitLine quote text
        (' ' :: '#' :: line, after)
  | head :: text =>
      if head = '\n' && quote.isNone then ([], text)
      else
        let quoted :=
          if quote = some head then none
          else if quote.isNone && (head = '\'' || head = '"') then some head
          else quote
        let (line, after) := splitLine quoted text
        (head :: line, after)

/-- The lines of a document, with what follows the line that ends it. -/
def documentLines (limit : List Char) (isIndented : Bool) :
    Nat → List Char → List Char × List Char
  | 0, text => ([], text)
  | _ + 1, [] => ([], [])
  | count + 1, text =>
      let full := text.takeWhile (· ≠ '\n')
      let line := if isIndented then full.dropWhile (· = '\t') else full
      let after := (text.drop full.length).drop 1
      if line = limit then ([], after)
      else
        let (lines, rest) := documentLines limit isIndented count after
        (line ++ '\n' :: lines, rest)

def spelling (parts : List Part) : List Char :=
  parts.flatMap fun part => match part with
    | .text characters _ => characters
    | .parameter name _ _ _ => '$' :: name.toList
    | _ => []

def isQuotedPart : Part → Bool
  | .text _ isQuoted | .parameter _ _ _ isQuoted => isQuoted
  | .substitution _ isQuoted | .arithmetic _ isQuoted => isQuoted

/-! ## Commands -/

def assignment? : List Part → Option (String × List Part)
  | .text characters false :: parts =>
      let name := characters.takeWhile (· ≠ '=')
      match characters.drop name.length with
      | _ :: value =>
          if isName name then
            some (String.ofList name,
              if value.isEmpty then parts else .text value false :: parts)
          else none
      | [] => none
  | _ => none

def redirectionOperator? : Reader (Option (Option Nat × String)) := do
  skipBlanks
  let text ← rest
  let (descriptor, behind) := match text with
    | digit :: after =>
        if isDigit digit then (some (number [digit]), after) else (none, text)
    | [] => (none, [])
  match behind with
  | '<' :: '<' :: '-' :: after => set after; return some (descriptor, "<<-")
  | '<' :: '<' :: after => set after; return some (descriptor, "<<")
  | '<' :: '&' :: after => set after; return some (descriptor, "<&")
  | '<' :: '>' :: after => set after; return some (descriptor, "<>")
  | '<' :: after => set after; return some (descriptor, "<")
  | '>' :: '>' :: after => set after; return some (descriptor, ">>")
  | '>' :: '&' :: after => set after; return some (descriptor, ">&")
  | '>' :: '|' :: after => set after; return some (descriptor, ">")
  | '>' :: after => set after; return some (descriptor, ">")
  | _ => return none

mutual

def parts : Nat → Bool → Closing → Reader (List Part)
  | 0, _, _ => fault
  | depth + 1, isQuoted, closing => do
      match ← rest with
      | [] => if closing = .separator || closing = .text then return [] else fault
      | head :: text =>
          if closing = .separator && isSeparator head then return []
          else
            set text
            match head, closing with
            | '\x7d', .brace => return []
            | '"', .quote => return []
            | '(', .parentheses count =>
                return put '(' isQuoted (← parts depth isQuoted (.parentheses (count + 1)))
            | ')', .parentheses 0 =>
                match text with
                | ')' :: after => set after; return []
                | _ => return put ')' isQuoted (← parts depth isQuoted closing)
            | ')', .parentheses (count + 1) =>
                return put ')' isQuoted (← parts depth isQuoted (.parentheses count))
            | '\\', _ =>
                match text with
                | [] => return put '\\' isQuoted (← parts depth isQuoted closing)
                | '\n' :: after => set after; parts depth isQuoted closing
                | next :: after =>
                    if !isQuoted || isEscaped closing next then
                      set after
                      return put next true (← parts depth isQuoted closing)
                    else return put '\\' true (← parts depth isQuoted closing)
            | '\'', _ =>
                if isQuoted then return put '\'' true (← parts depth isQuoted closing)
                else
                  let quoted ← untilQuote
                  return .text quoted true :: (← parts depth isQuoted closing)
            | '"', .text => return put '"' true (← parts depth isQuoted closing)
            | '"', .parentheses _ => parts depth isQuoted closing
            | '"', _ =>
                let quoted ← parts depth true .quote
                let following ← parts depth isQuoted closing
                return (if quoted.isEmpty then [.text [] true] else quoted) ++ following
            | '$', _ =>
                let part ← dollar depth isQuoted
                let following ← parts depth isQuoted closing
                return match part with
                  | some part => part :: following
                  | none => put '$' isQuoted following
            | '\x60', _ =>
                match backquoted isQuoted text with
                | none => fault
                | some (content, after) =>
                    set content
                    let command ← commands depth false
                    set after
                    return .substitution command isQuoted :: (← parts depth isQuoted closing)
            | _, _ => return put head isQuoted (← parts depth isQuoted closing)

/-- Read what a dollar sign introduces, if it introduces something. -/
def dollar : Nat → Bool → Reader (Option Part)
  | 0, _ => fault
  | depth + 1, isQuoted => do
      match ← rest with
      | '(' :: '(' :: text =>
          set text
          return some (.arithmetic (← parts depth true (.parentheses 0)) isQuoted)
      | '(' :: text =>
          set text
          let command ← commands depth false
          expect ")"
          return some (.substitution command isQuoted)
      | '\x7b' :: '#' :: '\x7d' :: text =>
          set text
          return some (.parameter "#" .value [] isQuoted)
      | '\x7b' :: '#' :: text =>
          set text
          match ← parameterName? true, ← rest with
          | some name, '\x7d' :: after =>
              set after
              return some (.parameter name .length [] isQuoted)
          | _, _ => set ('#' :: text); braced depth isQuoted
      | '\x7b' :: text => set text; braced depth isQuoted
      | _ => return (← parameterName? false).map (.parameter · .value [] isQuoted)

/-- Read a parameter in braces, behind the opening one. -/
def braced : Nat → Bool → Reader (Option Part)
  | 0, _ => fault
  | depth + 1, isQuoted => do
      match ← parameterName? true with
      | none => fault
      | some name =>
          let change ← change
          let word ← parts depth (isQuoted && !isPatternChange change) .brace
          return some (.parameter name change word isQuoted)

/-- Read a word, which has to be there. A digit in front of a redirection is none. -/
def word : Nat → Reader (List Part)
  | 0 => fault
  | depth + 1 => do
      skipBlanks
      match ← rest with
      | [] => fault
      | head :: text =>
          let isDescriptor := isDigit head && (text.head? = some '<' || text.head? = some '>')
          if isSeparator head || isDescriptor then fault else parts depth false .separator

/-- Read a redirection if there is one. The document that belongs to it is taken out of the
lines behind the current one. -/
def redirection? : Nat → Reader (Option Redirection)
  | 0 => fault
  | depth + 1 => do
      match ← redirectionOperator? with
      | none => return none
      | some (descriptor, operator) =>
          let target ← word depth
          match operator with
          | "<<" | "<<-" =>
              let text ← rest
              let (line, behind) := splitLine none text
              let (content, after) :=
                documentLines (spelling target) (operator = "<<-") (behind.length + 1) behind
              let parts ←
                if target.any isQuotedPart then pure [Part.text content true]
                else do
                  set content
                  parts depth true .text
              set (line ++ if after.isEmpty && behind.isEmpty then [] else '\n' :: after)
              return some (.document (descriptor.getD 0) parts)
          | "<" | "<>" => return some (.read (descriptor.getD 0) target)
          | ">>" => return some (.append (descriptor.getD 1) target)
          | "<&" => return some (.duplicate (descriptor.getD 0) target)
          | ">&" => return some (.duplicate (descriptor.getD 1) target)
          | _ => return some (.write (descriptor.getD 1) target)

def redirections : Nat → Reader (List Redirection)
  | 0 => fault
  | depth + 1 => do
      match ← redirection? depth with
      | none => return []
      | some redirection => return redirection :: (← redirections depth)

def words : Nat → Reader (List (List Part))
  | 0 => fault
  | depth + 1 => do
      skipBlanks
      match ← rest with
      | [] => return []
      | head :: _ =>
          if isSeparator head then return []
          else
            let first ← word depth
            return first :: (← words depth)

/-- Read a simple command behind the assignments, words and redirections that it has so far,
or a definition. -/
def simple : Nat → List (String × List Part) → List (List Part) → List Redirection →
    Reader Command
  | 0, _, _, _ => fault
  | depth + 1, assignments, found, redirections => do
      match ← redirection? depth with
      | some redirection => simple depth assignments found (redirections ++ [redirection])
      | none =>
          match ← peekOperator?, found, assignments, redirections with
          | some "(", [name], [], [] =>
              expect "("
              expect ")"
              match bareText? name with
              | none => fault
              | some name =>
                  if isName name.toList && !specialCommands.contains name then
                    skipLines
                    return .define name (← command depth)
                  else fault
          | some _, _, _, _ => return .simple assignments found redirections
          | none, _, _, _ =>
              let next ← word depth
              match found, assignment? next with
              | [], some assignment =>
                  simple depth (assignments ++ [assignment]) found redirections
              | _, _ => simple depth assignments (found ++ [next]) redirections

/-- Read what stands behind the keyword of a branch, with its end. -/
def branch : Nat → Reader Command
  | 0 => fault
  | depth + 1 => do
      let condition ← commands depth true
      expectKeyword "then"
      let consequence ← commands depth true
      if ← takeKeyword "elif" then
        return .branch condition consequence (← branch depth)
      else if ← takeKeyword "else" then
        let alternative ← commands depth true
        expectKeyword "fi"
        return .branch condition consequence alternative
      else
        expectKeyword "fi"
        return .branch condition consequence .nothing

def body : Nat → Reader Command
  | 0 => fault
  | depth + 1 => do
      expectKeyword "do"
      let commands ← commands depth true
      expectKeyword "done"
      return commands

def patterns : Nat → Reader (List (List Part))
  | 0 => fault
  | depth + 1 => do
      let first ← word depth
      if ← take "|" then return first :: (← patterns depth) else return [first]

def cases : Nat → Reader (List (List (List Part) × Command))
  | 0 => fault
  | depth + 1 => do
      skipLines
      if ← takeKeyword "esac" then return []
      else
        let _ ← take "("
        let patterns ← patterns depth
        expect ")"
        let body ← commands depth false
        if ← take ";;" then return (patterns, body) :: (← cases depth)
        else
          skipLines
          expectKeyword "esac"
          return [(patterns, body)]

def loop : Nat → Bool → Reader Command
  | 0, _ => fault
  | depth + 1, isUntil => do
      let condition ← commands depth true
      return .loop isUntil condition (← body depth)

/-- Read a loop over words behind its keyword. Without words it runs over the arguments. -/
def each : Nat → Reader Command
  | 0 => fault
  | depth + 1 => do
      match bareText? (← word depth) with
      | none => fault
      | some name =>
          if !isName name.toList then fault
          else
            skipLines
            if ← takeKeyword "in" then
              let words ← words depth
              if !(← take ";") then expect "\n"
              skipLines
              return .each name words (← body depth)
            else
              let _ ← take ";"
              skipLines
              return .each name [[.parameter "@" .value [] true]] (← body depth)

def choice : Nat → Reader Command
  | 0 => fault
  | depth + 1 => do
      let subject ← word depth
      skipLines
      expectKeyword "in"
      return .choice subject (← cases depth)

def group : Nat → Reader Command
  | 0 => fault
  | depth + 1 => do
      let commands ← commands depth true
      expectKeyword "\x7d"
      return commands

def command : Nat → Reader Command
  | 0 => fault
  | depth + 1 => do
      match ← peekKeyword? with
      | some keyword =>
          expectKeyword keyword
          let compound ← match keyword with
            | "if" => branch depth
            | "while" => loop depth false
            | "until" => loop depth true
            | "for" => each depth
            | "case" => choice depth
            | "\x7b" => group depth
            | _ => fault
          match ← redirections depth with
          | [] => return compound
          | redirections => return .redirected compound redirections
      | none =>
          match ← peekOperator? with
          | some "(" =>
              expect "("
              let commands ← commands depth true
              expect ")"
              match ← redirections depth with
              | [] => return .subshell commands
              | redirections => return .subshell (.redirected commands redirections)
          | some _ => fault
          | none => simple depth [] [] []

def pipes : Nat → Reader (List Command)
  | 0 => fault
  | depth + 1 => do
      let first ← command depth
      if ← take "|" then
        skipLines
        return first :: (← pipes depth)
      else return [first]

def pipeline : Nat → Reader Command
  | 0 => fault
  | depth + 1 => do
      let isNegated ← takeKeyword "!"
      let pipeline ← match ← pipes depth with
        | [command] => pure command
        | commands => pure (.pipeline commands)
      return if isNegated then .negation pipeline else pipeline

def conditional : Nat → Command → Reader Command
  | 0, _ => fault
  | depth + 1, first => do
      if ← take "&&" then
        skipLines
        conditional depth (.both first (← pipeline depth))
      else if ← take "||" then
        skipLines
        conditional depth (.either first (← pipeline depth))
      else return first

/-- Read commands inside another one. Some commands need at least one. -/
def commands : Nat → Bool → Reader Command
  | 0, _ => fault
  | depth + 1, isNeeded => do
      skipLines
      let isAtEnd := match ← peekOperator?, ← peekKeyword? with
        | some "", _ => true
        | some operator, _ => !isNeeded && (operator = ")" || operator = ";;")
        | none, some keyword => !isNeeded && closers.contains keyword
        | none, none => false
      if isAtEnd then return .nothing
      else
        let first ← conditional depth (← pipeline depth)
        if ← take "&" then return (Command.background first).andThen (← commands depth false)
        else if ← take ";" then return first.andThen (← commands depth false)
        else if ← take "\n" then return first.andThen (← commands depth false)
        else return first

end

def line : Nat → Reader Command
  | 0 => fault
  | depth + 1 => do
      if ← take "\n" then return .nothing
      else if ← take "" then return .nothing
      else
        let first ← conditional depth (← pipeline depth)
        if ← take "&" then return (Command.background first).andThen (← line depth)
        else if ← take ";" then return first.andThen (← line depth)
        else if ← take "\n" then return first
        else
          expect ""
          return first

end Reader

/-- Read the first line of a script, with the lines behind it. -/
def line? (script : List Char) : Option (Command × List Char) :=
  (Reader.line (20 * script.length + 100)).run script

end TaskPlanner.Shell
