import TaskPlanner.BuildFile
import TaskPlanner.Toml

/-!
# Reading build files

A build file is written in TOML. Keys that mean nothing here are ignored, but the numbers
below them must be within the limits of TOML. A section may also be written as an array of
its settings in their order, where items behind the last setting are not looked at; a date
says nothing about any setting.
-/

set_option autoImplicit false

namespace TaskPlanner

/-- Why a build file could not be loaded. -/
inductive LoadError where
  | unreadable
  /-- The text is no TOML document, or not one that describes a build. -/
  | malformed
  | invalid (fault : BuildFault)
deriving DecidableEq, Repr

namespace BuildFile

open Toml (Value Entries)

/-! ## Values -/

def text? : Value → Option String
  | .text content => some content
  | _ => none

def flag? : Value → Option Bool
  | .boolean value => some value
  | _ => none

/-- A number of 64 bits without sign. -/
def count? : Value → Option Nat
  | .integer value => if 0 ≤ value && value < 18446744073709551616 then some value.toNat else none
  | _ => none

def texts? : Value → Option (List String)
  | .array items => items.mapM text?
  | _ => none

/-- The values of entries with the given names, in the order of the names. The other entries
must be within the limits. -/
def entriesFor? (names : List String) (entries : Entries) : Option (List (Option Value)) :=
  if Toml.fitEntries (entries.filter fun entry => decide (entry.1 ∉ names)) then
    some (names.map fun name => entries.lookup name)
  else none

/-- The settings of a section with the given names, in the order of the names. -/
def settings? (names : List String) : Value → Option (List (Option Value))
  | .table _ entries => entriesFor? names entries
  | .array items => some ((List.range names.length).map fun position => items[position]?)
  | .dateTime _ => some (names.map fun _ => none)
  | _ => none

/-- A setting that may be missing; `none` if it is there but means nothing. -/
def setting? {α : Type} (read : Value → Option α) (missing : α) (settings : List (Option Value))
    (position : Nat) : Option α :=
  match settings[position]?.join with
  | none => some missing
  | some value => read value

/-! ## Sections -/

def buildSection? (value : Value) : Option BuildSection := do
  let settings ← settings? ["name", "continue_on_failure", "exclude", "max_workers"] value
  let name ← setting? text? "build" settings 0
  let continueOnFailure ← setting? flag? false settings 1
  let exclude ← setting? texts? [] settings 2
  let maxWorkers ← setting? (fun value => (count? value).map some) none settings 3
  return { name, continueOnFailure, exclude, maxWorkers }

def includedBuild? (value : Value) : Option IncludedBuild := do
  let settings ← settings? ["tasks", "executed"] value
  let tasks ← setting? texts? [] settings 0
  let executed ← setting? texts? [] settings 1
  return { tasks, executed }

/-- The definition of a task. Its command must be there. -/
def taskDefinition? (value : Value) : Option TaskDefinition := do
  let settings ← settings? ["cmd", "depends_on", "finalized_by", "locks"] value
  let command ← settings[0]?.join.bind text?
  let dependsOn ← setting? texts? [] settings 1
  let finalizedBy ← setting? texts? [] settings 2
  let locks ← setting? texts? [] settings 3
  return { command, dependsOn, finalizedBy, locks }

def sections? {α : Type} (read : Value → Option α) : Option Value → Option (List (String × α))
  | none => some []
  | some (.table _ entries) => entries.mapM fun (name, value) =>
      (read value).map fun result => (name, result)
  | some _ => none

def ofEntries? (entries : Entries) : Option BuildFile := do
  let settings ← entriesFor? ["build", "included", "task"] entries
  let build ← setting? buildSection? {} settings 0
  let included ← sections? includedBuild? settings[1]?.join
  let tasks ← sections? taskDefinition? settings[2]?.join
  return .ofParts build included tasks

/-! ## Loading -/

def load (text : String) : Except LoadError ValidBuildFile :=
  match (Toml.parse? text).bind ofEntries? with
  | none => .error .malformed
  | some file =>
      match file.validate with
      | .error fault => .error (.invalid fault)
      | .ok valid => .ok valid

/-- Load a build file from its bytes, which must be UTF-8. -/
def loadBytes (bytes : ByteArray) : Except LoadError ValidBuildFile :=
  match String.fromUTF8? bytes with
  | none => .error .unreadable
  | some text => load text

end BuildFile

end TaskPlanner
