import Nftables.Text.Fields

/-!
# Paths

The normal form of a path.
-/

namespace Nftables.Path

open Text (split join)

/-- Where a path starts: two slashes in front, unlike any other number, are not the same as one. -/
def root : List Char → List Char
  | '/' :: '/' :: '/' :: _ => ['/']
  | '/' :: '/' :: _ => ['/', '/']
  | '/' :: _ => ['/']
  | _ => []

/-- The steps of a path, without the ones that stay where they are. -/
def steps (path : List Char) : List (List Char) :=
  (split '/' path).filter fun step => step ≠ [] ∧ step ≠ ['.']

/-- The path with one slash between steps and none at its end. -/
def normal (path : List Char) : List Char :=
  match root path ++ join ['/'] (steps path) with
  | [] => ['.']
  | path => path

end Nftables.Path
