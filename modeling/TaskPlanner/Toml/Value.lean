/-!
# TOML values

The values of a TOML document, and the rules by which statements add to a document
that is being read: no key is defined twice, an inline table is never extended, and a
table that a dotted key made is extended by dotted keys only.

Floats, dates and times are kept as they are written.
-/

set_option autoImplicit false

namespace TaskPlanner.Toml

/-- How a table came to be. -/
inductive Origin where
  | header
  | implied
  | dotted
  | inlined
deriving DecidableEq, Repr, Inhabited

/-- A TOML value. -/
inductive Value where
  | text (content : String)
  | integer (value : Int)
  | float (written : String)
  | boolean (value : Bool)
  /-- A date, a time, or both. -/
  | dateTime (written : String)
  | array (items : List Value)
  | table (origin : Origin) (entries : List (String × Value))
  /-- Tables that headers add one after the other, the latest first. -/
  | tables (elements : List (List (String × Value)))
deriving Repr, Inhabited

/-- The contents of a table: distinct keys with their values. -/
abbrev Entries := List (String × Value)

namespace Entries

def put (key : String) (value : Value) : Entries → Entries
  | [] => [(key, value)]
  | (other, present) :: rest =>
      if other = key then (key, value) :: rest else (other, present) :: put key value rest

/-- Change the table that a path leads to, making the tables on the way that are missing.
The path of a dotted key stays out of tables that headers name. -/
def amend (isDotted : Bool) (change : Origin → Entries → Option Entries) :
    List String → Origin → Entries → Option Entries
  | [], origin, entries => change origin entries
  | key :: path, _, entries =>
      match entries.lookup key with
      | none =>
          let origin := if isDotted then Origin.dotted else Origin.implied
          (amend isDotted change path origin []).map fun inner =>
            put key (.table origin inner) entries
      | some (.table origin inner) =>
          if origin = .inlined || (isDotted && origin = .header) then none
          else
            (amend isDotted change path origin inner).map fun changed =>
              put key (.table origin changed) entries
      | some (.tables (inner :: earlier)) =>
          (amend isDotted change path .header inner).map fun changed =>
            put key (.tables (changed :: earlier)) entries
      | some _ => none

def addValue (path : List String) (key : String) (value : Value) (origin : Origin)
    (entries : Entries) : Option Entries :=
  amend true
    (fun reached inner =>
      if !path.isEmpty && reached ≠ .dotted then none
      else if (inner.lookup key).isSome then none
      else some (put key value inner))
    path origin entries

def addTable (path : List String) (key : String) (entries : Entries) : Option Entries :=
  amend false
    (fun _ inner => match inner.lookup key with
      | none => some (put key (.table .header []) inner)
      | some (.table .implied present) => some (put key (.table .header present) inner)
      | some _ => none)
    path .header entries

def addElement (path : List String) (key : String) (entries : Entries) : Option Entries :=
  amend false
    (fun _ inner => match inner.lookup key with
      | none => some (put key (.tables [[]]) inner)
      | some (.tables elements) => some (put key (.tables ([] :: elements)) inner)
      | some _ => none)
    path .header entries

/-- Add a value at a dotted key below the table that the last header names. -/
def addBelow (header path : List String) (key : String) (value : Value) (entries : Entries) :
    Option Entries :=
  amend false (fun origin inner => addValue path key value origin inner) header .header entries

end Entries

end TaskPlanner.Toml
