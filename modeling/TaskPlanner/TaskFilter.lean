import TaskPlanner.Glob

/-!
# Task filters

A task filter says which tasks of the build at hand a plan may hold. One kind rejects what
a set of globs matches.

A glob whose names are found by an expression is refused if the expression nests too deep.
An expression that is looked for among others is named by its position among them.
-/

set_option autoImplicit false

namespace TaskPlanner

/-- Why a set of globs is no filter. -/
inductive FilterFault where
  | invalid (text : String) (fault : GlobFault)
  /-- The expression, which has an extension of its own, nests too deep. -/
  | tooDeepAlone (expression : String)
  | tooDeep (position : Nat)
deriving DecidableEq, Repr

def FilterFault.message : FilterFault → String
  | invalid text fault => "'" ++ text ++ "': " ++ fault.messageFor text
  | tooDeepAlone expression => "error parsing glob '" ++ expression ++ "': error parsing pattern 0"
  | tooDeep position => "error parsing pattern " ++ toString position

namespace TaskFilter

def foundBy (globs : List Glob) (strategy : Glob.Strategy) : List Glob :=
  globs.filter (·.strategy = strategy)

/-- What is wrong with a set of globs. Those with an extension come first. -/
def fault? (globs : List Glob) : Option FilterFault :=
  match (foundBy globs .extended).find? fun glob => Glob.Expression.isTooDeep glob.parts with
  | some glob => some (.tooDeepAlone (Glob.Expression.fullText glob.parts))
  | none =>
      ((foundBy globs .expression).findIdx? fun glob => Glob.Expression.isTooDeep glob.parts).map
        .tooDeep

def excluding (globs : List Glob) (task : String) : Bool := !globs.any (·.isMatch task)

/-- The filter that accepts the listed tasks only. -/
def only (tasks : List String) (task : String) : Bool := decide (task ∈ tasks)

def globs (texts : List String) : Except FilterFault (List Glob) :=
  match Glob.parseAll texts with
  | .error (text, fault) => .error (.invalid text fault)
  | .ok globs =>
      match fault? globs with
      | some fault => .error fault
      | none => .ok globs

end TaskFilter

end TaskPlanner
