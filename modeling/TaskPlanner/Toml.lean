import TaskPlanner.Toml.Text

/-!
# TOML documents

A reader for TOML 1.1. It tells the entries of a document, or that the text is not one.
Arrays and inline tables nest at most eighty deep, and a key has at most eighty parts.
-/

set_option autoImplicit false

namespace TaskPlanner.Toml

/-! ## Between values -/

def skipBlanks (text : List Char) : List Char := text.dropWhile isBlank

def skipComment? (text : List Char) : Option (List Char) :=
  match text with
  | '#' :: rest =>
      let content := rest.takeWhile (· ≠ '\n')
      let after := rest.dropWhile (· ≠ '\n')
      let (body, remaining) :=
        if !after.isEmpty && content.getLast? = some '\r' then
          (content.dropLast, '\r' :: after)
        else (content, after)
      if body.all isPlain then some remaining else none
  | _ => some text

/-- Skip blanks and a comment up to the end of the line, and the line break. -/
def endLine? (text : List Char) : Option (List Char) :=
  match skipComment? (skipBlanks text) with
  | none => none
  | some [] => some []
  | some rest => if startsWithBreak rest then some (dropBreak rest) else none

/-- Skip blanks, comments and line breaks. Each round skips at least one character. -/
def skipLines? : Nat → List Char → Option (List Char)
  | 0, text => some text
  | rounds + 1, text =>
      match skipComment? (skipBlanks text) with
      | none => none
      | some rest =>
          if startsWithBreak rest then skipLines? rounds (dropBreak rest) else some rest

def skipAll? (text : List Char) : Option (List Char) := skipLines? (text.length + 1) text

/-! ## Keys -/

def isKeyCharacter (character : Char) : Bool :=
  isDigit character || ('a' ≤ character && character ≤ 'z') ||
    ('A' ≤ character && character ≤ 'Z') || character = '_' || character = '-'

def keyPart? (text : List Char) : Option (String × List Char) :=
  match text with
  | '"' :: _ => quotedLine? text
  | '\'' :: _ => quotedLine? text
  | _ =>
      let front := text.takeWhile isKeyCharacter
      if front.isEmpty then none
      else some (String.ofList front, text.dropWhile isKeyCharacter)

/-- Read a dotted key: the parts in front of the last one, and the last one. -/
def key? : Nat → List String → List Char → Option ((List String × String) × List Char)
  | 0, _, _ => none
  | rounds + 1, path, text =>
      match keyPart? (skipBlanks text) with
      | none => none
      | some (part, rest) =>
          match skipBlanks rest with
          | '.' :: after => key? rounds (path ++ [part]) after
          | after => if path.length < 80 then some ((path, part), after) else none

/-- Read a dotted key and the equals sign behind it, with the blanks around the sign. -/
def assigned? (skip? : List Char → Option (List Char)) (text : List Char) :
    Option ((List String × String) × List Char) :=
  match key? (text.length + 1) [] text with
  | none => none
  | some (key, afterKey) =>
      match skip? afterKey with
      | some ('=' :: rest) => (skip? rest).map fun start => (key, start)
      | _ => none

/-! ## Values -/

/-- A reader of a value, which returns what follows. -/
abbrev ValueReader := List Char → Option (Value × List Char)

/-- Read the items of an array up to its closing bracket. Each round reads an item. -/
def items? (value? : ValueReader) : Nat → List Value → List Char →
    Option (List Value × List Char)
  | 0, _, _ => none
  | rounds + 1, items, text =>
      match skipAll? text with
      | none => none
      | some (']' :: rest) => some (items.reverse, rest)
      | some start =>
          match value? start with
          | none => none
          | some (item, after) =>
              match skipAll? after with
              | some (',' :: rest) => items? value? rounds (item :: items) rest
              | some (']' :: rest) => some ((item :: items).reverse, rest)
              | _ => none

/-- Read the entries of an inline table up to its closing brace. A line may end anywhere in
it but within a key. Each round reads an entry. -/
def inlineEntries? (value? : ValueReader) : Nat → Entries → List Char →
    Option (Entries × List Char)
  | 0, _, _ => none
  | rounds + 1, entries, text =>
      match skipAll? text with
      | none => none
      | some ('}' :: rest) => some (entries, rest)
      | some start =>
          match assigned? skipAll? start with
          | none => none
          | some ((path, key), afterKey) =>
              match value? afterKey with
              | none => none
              | some (value, afterValue) =>
                  match Entries.addValue path key value .inlined entries with
                  | none => none
                  | some extended =>
                      match skipAll? afterValue with
                      | some (',' :: rest) => inlineEntries? value? rounds extended rest
                      | some ('}' :: rest) => some (extended, rest)
                      | _ => none

/-- Read a value in which arrays and inline tables nest at most as deep as given. -/
def value? : Nat → ValueReader
  | depth, text =>
      match text with
      | '"' :: _ => (quoted? text).map fun (content, rest) => (.text content, rest)
      | '\'' :: _ => (quoted? text).map fun (content, rest) => (.text content, rest)
      | '[' :: rest =>
          match depth with
          | 0 => none
          | inner + 1 =>
              (items? (value? inner) (rest.length + 1) [] rest).map fun (items, after) =>
                (.array items, after)
      | '{' :: rest =>
          match depth with
          | 0 => none
          | inner + 1 =>
              (inlineEntries? (value? inner) (rest.length + 1) [] rest).map
                fun (entries, after) => (.table .inlined entries, after)
      | _ =>
          let (front, rest) := word text
          (scalar? front).map fun value => (value, rest)

/-! ## Statements -/

/-- A document being read. -/
structure Reader where
  /-- The table that the last header names. -/
  header : List String := []
  entries : Entries := []

/-- Read a header behind its opening brackets, up to the end of its line. -/
def header? (isDouble : Bool) (reader : Reader) (text : List Char) :
    Option (Reader × List Char) :=
  match key? (text.length + 1) [] text with
  | none => none
  | some ((path, key), afterKey) =>
      let closed := match isDouble, afterKey with
        | true, ']' :: ']' :: rest => endLine? rest
        | false, ']' :: rest => endLine? rest
        | _, _ => none
      let entries :=
        if isDouble then Entries.addElement path key reader.entries
        else Entries.addTable path key reader.entries
      match closed, entries with
      | some rest, some entries => some ({ header := path ++ [key], entries }, rest)
      | _, _ => none

/-- Read a key with its value, up to the end of its line. -/
def keyValue? (reader : Reader) (text : List Char) : Option (Reader × List Char) :=
  match assigned? (fun rest => some (skipBlanks rest)) text with
  | none => none
  | some ((path, key), afterKey) =>
      match value? 80 afterKey with
      | none => none
      | some (value, afterValue) =>
          match endLine? afterValue, Entries.addBelow reader.header path key value reader.entries with
          | some rest, some entries => some ({ reader with entries }, rest)
          | _, _ => none

/-- Read statements until nothing is left. Each round reads one. -/
def statements? : Nat → Reader → List Char → Option Reader
  | 0, _, _ => none
  | rounds + 1, reader, text =>
      match skipAll? text with
      | none => none
      | some [] => some reader
      | some ('[' :: '[' :: rest) =>
          (header? true reader rest).bind fun (next, after) => statements? rounds next after
      | some ('[' :: rest) =>
          (header? false reader rest).bind fun (next, after) => statements? rounds next after
      | some start =>
          (keyValue? reader start).bind fun (next, after) => statements? rounds next after

/-- The entries of a document. A byte order mark in front is skipped. -/
def parse? (text : String) : Option Entries :=
  let characters := match text.toList with
    | '\ufeff' :: rest => rest
    | characters => characters
  (statements? (characters.length + 1) {} characters).map (·.entries)

end TaskPlanner.Toml
