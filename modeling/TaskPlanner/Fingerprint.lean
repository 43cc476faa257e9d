import TaskPlanner.Blake3

/-!
# Fingerprints

A fingerprint tells whether two lists of names are the same without showing them.
-/

set_option autoImplicit false

namespace TaskPlanner.Fingerprint

/-- The digest of the names, each ended by a line feed. -/
def ofNames (names : List String) : String :=
  Blake3.hexDigest ((names.flatMap fun name => (name ++ "\n").toUTF8.data.toList))

end TaskPlanner.Fingerprint
