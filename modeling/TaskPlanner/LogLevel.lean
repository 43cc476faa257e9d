/-!
# Log levels

How much is logged: what the command line says, else what the environment says, else
the default.
-/

set_option autoImplicit false

namespace TaskPlanner

/-- How much is logged. -/
inductive LogLevel where
  | error
  | warn
  | info
  | debug
  | trace
deriving DecidableEq, Repr, Inhabited

namespace LogLevel

def all : List LogLevel := [error, warn, info, debug, trace]

def name : LogLevel → String
  | error => "error"
  | warn => "warn"
  | info => "info"
  | debug => "debug"
  | trace => "trace"

def ofName? (text : String) : Option LogLevel := all.find? (·.name = text)

/-- Whether a character is white space by the Unicode property of that name. -/
def isWhiteSpace (character : Char) : Bool :=
  let code := character.toNat
  (9 ≤ code && code ≤ 13) || code = 32 || code = 0x85 || code = 0xA0 || code = 0x1680 ||
    (0x2000 ≤ code && code ≤ 0x200A) || code = 0x2028 || code = 0x2029 || code = 0x202F ||
    code = 0x205F || code = 0x3000

def trim (text : List Char) : List Char :=
  ((text.dropWhile isWhiteSpace).reverse.dropWhile isWhiteSpace).reverse

/-- The level that a text from the environment names, in letters of either case. No letter
outside ASCII has a letter of these names as its lower case. -/
def ofEnvironment? (text : String) : Option LogLevel :=
  let word := String.ofList ((trim text.toList).map Char.toLower)
  if word = "warning" then some warn else ofName? word

def resolve (flag : Option LogLevel) (environment : Option String) : LogLevel :=
  (flag.or (environment.bind ofEnvironment?)).getD info

end LogLevel

end TaskPlanner
