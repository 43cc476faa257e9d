import TaskPlanner.Glob.Expression

/-!
# Globs

A glob is a pattern for task names. It is read character by character and matched
against the UTF-8 bytes of a whole name.

* `?` matches one byte, `*` any bytes, `[..]` one byte of a class, which `!` or `^`
  negates. A backslash makes the next character literal.
* `{a,b}` matches what one of its alternatives matches. An alternative that says
  nothing is ignored.
* Two stars that stand for whole directories match any number of them: at the start,
  between slashes, and at the end. Elsewhere they are two single stars.

A name whose last component is `..` names a directory, so it has no file name. A glob that
is about file names or their extensions does not match it.
-/

set_option autoImplicit false

namespace TaskPlanner

/-- Why a glob could not be read. -/
inductive GlobFault where
  | unclosedClass
  /-- The first character of a range comes behind its last. -/
  | invalidRange (first last : Char)
  | unopenedAlternates
  | unclosedAlternates
  | danglingEscape
deriving DecidableEq, Repr

def GlobFault.message : GlobFault → String
  | unclosedClass => "unclosed character class; missing ']'"
  | invalidRange first last =>
      "invalid range; '" ++ String.singleton first ++ "' > '" ++ String.singleton last ++ "'"
  | unopenedAlternates =>
      "unopened alternate group; missing '\x7b' (maybe escape '\x7d' with '[\x7d]'?)"
  | unclosedAlternates =>
      "unclosed alternate group; missing '\x7d' (maybe escape '\x7b' with '[\x7b]'?)"
  | danglingEscape => "dangling '\\'"

/-- The text of the fault of the glob `text`. -/
def GlobFault.messageFor (fault : GlobFault) (text : String) : String :=
  "error parsing glob '" ++ text ++ "': " ++ fault.message

namespace Glob

/-- What a glob is made of. -/
inductive Piece where
  | character (value : Char)
  | anyByte
  | anyRun
  | oneOf (isNegated : Bool) (ranges : List (Char × Char))
  | leadingDirectories
  | trailingDirectories
  | innerDirectories
  | group (rows : List (List Expression))

end Glob

/-- A glob, as it was written and as it was read. -/
structure Glob where
  text : String
  pieces : List Glob.Piece

namespace Glob

/-! ## Meaning -/

/-- The bytes that a range of characters stands for: those of its ends, with a range
between the neighbouring bytes of the two. -/
def byteRanges (range : Char × Char) : List (UInt8 × UInt8) :=
  let first := String.utf8EncodeChar range.1
  let last := String.utf8EncodeChar range.2
  if range.1 = range.2 then first.map fun byte => (byte, byte)
  else
    (first.dropLast.map fun byte => (byte, byte)) ++
      (first.getLastD 0, last.headD 0) :: last.tail.map fun byte => (byte, byte)

def slash : Expression := .byte 47

/-- What a piece means, as parts of a row. -/
def Piece.parts : Piece → List Expression
  | character value => (String.utf8EncodeChar value).map .byte
  | anyByte => [.anyByte]
  | anyRun => [.anyBytes]
  | oneOf isNegated ranges => [.oneOf isNegated (ranges.flatMap byteRanges)]
  | leadingDirectories => [.group [[.maybe 47], [.anyBytes, slash]]]
  | trailingDirectories => [slash, .anyBytes]
  | innerDirectories => [.group [[slash], [slash, .anyBytes, slash]]]
  | group rows => if rows.isEmpty then [] else [.group rows]

def parts (glob : Glob) : List Expression :=
  match glob.pieces with
  | [.leadingDirectories] => [.anyBytes]
  | pieces => pieces.flatMap Piece.parts

/-! ## File names -/

/-- The character that a piece stands for, if it is literal. -/
def Piece.literal? : Piece → Option Char
  | character value => some value
  | _ => none

/-- Whether a piece is any one literal character but those listed. -/
def Piece.isLiteralBut (excluded : List Char) (piece : Piece) : Bool :=
  piece.literal?.any fun character => !excluded.contains character

/-- Pieces without directories in front. -/
def withoutLeading : List Piece → List Piece
  | .leadingDirectories :: rest => rest
  | pieces => pieces

/-- Pieces without a single star in front. -/
def withoutRun : List Piece → List Piece
  | .anyRun :: rest => rest
  | pieces => pieces

/-- Whether pieces ask for an extension and nothing else of the file name. -/
def isExtension (pieces : List Piece) : Bool :=
  match withoutLeading pieces with
  | .anyRun :: .character '.' :: rest => rest.all (Piece.isLiteralBut ['.', '/'])
  | _ => false

def hasExtension (pieces : List Piece) : Bool :=
  match pieces.reverse.dropWhile (Piece.isLiteralBut ['.', '/']) with
  | .character '.' :: _ => true
  | _ => false

/-- How names that match a glob are found. -/
inductive Strategy where
  | fileName
  | literal
  | extension
  | start
  | ending
  /-- The extension of the file name is given, and the rest by an expression. -/
  | extended
  | expression
deriving DecidableEq, Repr

def isStart (pieces : List Piece) : Bool :=
  match pieces.reverse with
  | .anyRun :: front => !front.isEmpty && front.all (Piece.isLiteralBut [])
  | .trailingDirectories :: front => front.all (Piece.isLiteralBut [])
  | _ => false

/-- Whether pieces give the end of a name, which is more than a slash. -/
def isEnding (pieces : List Piece) : Bool :=
  match pieces with
  | .leadingDirectories :: .character _ :: rest => rest.all (Piece.isLiteralBut [])
  | _ =>
      let rest := withoutRun (withoutLeading pieces)
      !rest.isEmpty && rest.all (Piece.isLiteralBut []) &&
        decide (rest.map Piece.literal? ≠ [some '/'])

/-- How names that match a glob are found: the first way that applies. -/
def strategy (glob : Glob) : Strategy :=
  let isFileName := match glob.pieces with
    | .leadingDirectories :: name => !name.isEmpty && name.all (Piece.isLiteralBut ['/'])
    | _ => false
  if isFileName then .fileName
  else if !glob.pieces.isEmpty && glob.pieces.all (Piece.isLiteralBut []) then .literal
  else if isExtension glob.pieces then .extension
  else if isStart glob.pieces then .start
  else if isEnding glob.pieces then .ending
  else if hasExtension glob.pieces then .extended
  else .expression

def isAboutFileNames (glob : Glob) : Bool :=
  match glob.strategy with
  | .fileName | .extension | .extended => true
  | .literal | .start | .ending | .expression => false

/-- Whether the last component of a name is `..`. -/
def lacksFileName (name : String) : Bool :=
  decide (name.toList.reverse.takeWhile (· ≠ '/') = ['.', '.'])

def isMatch (glob : Glob) (name : String) : Bool :=
  !(glob.isAboutFileNames && lacksFileName name) &&
    Expression.matchesAll glob.parts (name.toList.flatMap String.utf8EncodeChar)

/-! ## Reading -/

/-- A group that has been opened and not closed. -/
structure OpenGroup where
  /-- The pieces in front of the group, the latest first. -/
  before : List Piece
  /-- The finished alternatives, in order. -/
  alternatives : List (List Expression) := []

/-- A glob being read. -/
structure Reader where
  /-- The open groups, the innermost first. -/
  groups : List OpenGroup := []
  /-- The pieces of the current alternative, the latest first. -/
  pieces : List Piece := []
  /-- The character read last. -/
  previous : Option Char := none

namespace Reader

def push (reader : Reader) (piece : Piece) (last : Char) : Reader :=
  { reader with pieces := piece :: reader.pieces, previous := some last }

/-- Read two stars, with `rest` behind them, as directories or as single stars. -/
def stars (reader : Reader) (rest : List Char) : Reader × List Char :=
  let single := (reader.push .anyRun '*').push .anyRun '*'
  let isInGroup := !reader.groups.isEmpty
  match reader.pieces with
  | [] =>
      match rest with
      | [] => (reader.push .leadingDirectories '*', [])
      | '/' :: after => (reader.push .leadingDirectories '/', after)
      | _ => (single, rest)
  | last :: pieces =>
      let atBoundary := reader.previous = some '/' ||
        (isInGroup && (reader.previous = some ',' || reader.previous = some '{'))
      let behind (piece : Piece) : Piece :=
        match last with
        | .leadingDirectories | .trailingDirectories => last
        | _ => piece
      let reopened := { reader with pieces }
      if !atBoundary then (single, rest)
      else
        match rest with
        | [] => (reopened.push (behind .trailingDirectories) '*', [])
        | '/' :: after => (reopened.push (behind .innerDirectories) '/', after)
        | head :: _ =>
            if isInGroup && (head = ',' || head = '}') then
              (reopened.push (behind .trailingDirectories) '*', rest)
            else (single, rest)

/-- Read the members of a class up to its closing bracket. A bracket or dash that comes
first, and a dash that comes last, stand for themselves. The ranges are given the
latest first. -/
def members : Bool → Bool → List (Char × Char) → List Char →
    Except GlobFault (List (Char × Char) × List Char)
  | _, _, _, [] => .error .unclosedClass
  | isFirst, isRange, ranges, head :: rest =>
      if head = ']' && !isFirst then
        .ok ((if isRange then ('-', '-') :: ranges else ranges).reverse, rest)
      else if head = '-' && !isFirst && !isRange then members false true ranges rest
      else
        match isRange, ranges with
        | true, (first, _) :: others =>
            if head < first then .error (.invalidRange first head)
            else members false false ((first, head) :: others) rest
        | _, _ => members false false ((head, head) :: ranges) rest

def readClass (rest : List Char) : Except GlobFault (Piece × List Char) :=
  let (isNegated, inside) := match rest with
    | '!' :: inside => (true, inside)
    | '^' :: inside => (true, inside)
    | inside => (false, inside)
  (members true false [] inside).map fun (ranges, after) => (.oneOf isNegated ranges, after)

/-- The current alternative, with those before it that say anything. -/
def endAlternative (reader : Reader) (group : OpenGroup) : List (List Expression) :=
  let row := reader.pieces.reverse.flatMap Piece.parts
  if row.isEmpty then group.alternatives else group.alternatives ++ [row]

def closeGroup (reader : Reader) : Except GlobFault Reader :=
  match reader.groups with
  | [] => .error .unopenedAlternates
  | group :: groups =>
      .ok
        { groups
          pieces := .group (reader.endAlternative group) :: group.before
          previous := some '}' }

def comma (reader : Reader) : Reader :=
  match reader.groups with
  | [] => reader.push (.character ',') ','
  | group :: groups =>
      { groups := { group with alternatives := reader.endAlternative group } :: groups
        pieces := []
        previous := some ',' }

/-- Read characters until none is left. Each round reads at least one, so as many rounds as
there are characters suffice. -/
def read : Nat → List Char → Reader → Except GlobFault Reader
  | 0, _, reader => .ok reader
  | _ + 1, [], reader => .ok reader
  | rounds + 1, head :: rest, reader =>
      match head with
      | '?' => read rounds rest (reader.push .anyByte '?')
      | '*' =>
          match rest with
          | '*' :: after =>
              let (next, remaining) := reader.stars after
              read rounds remaining next
          | _ => read rounds rest (reader.push .anyRun '*')
      | '[' =>
          match readClass rest with
          | .error fault => .error fault
          | .ok (piece, remaining) => read rounds remaining (reader.push piece ']')
      | '{' =>
          read rounds rest
            { groups := { before := reader.pieces } :: reader.groups
              pieces := []
              previous := some '{' }
      | '}' =>
          match reader.closeGroup with
          | .error fault => .error fault
          | .ok next => read rounds rest next
      | ',' => read rounds rest reader.comma
      | '\\' =>
          match rest with
          | [] => .error .danglingEscape
          | escaped :: after => read rounds after (reader.push (.character escaped) escaped)
      | _ => read rounds rest (reader.push (.character head) head)

end Reader

def parse (text : String) : Except GlobFault Glob :=
  let characters := text.toList
  match Reader.read characters.length characters {} with
  | .error fault => .error fault
  | .ok reader =>
      if reader.groups.isEmpty then .ok { text, pieces := reader.pieces.reverse }
      else .error .unclosedAlternates

/-- Read several globs, up to the first with a fault, which is reported with its text. -/
def parseAll : List String → Except (String × GlobFault) (List Glob)
  | [] => .ok []
  | text :: rest =>
      match parse text with
      | .error fault => .error (text, fault)
      | .ok glob => (parseAll rest).map (glob :: ·)

end Glob

end TaskPlanner
