import Mathlib.Data.List.Basic

/-! Paths as lists of names: empty and current-directory segments drop out. -/

namespace Hugit

def namedSegments (path : List Char) : List (List Char) :=
  (path.splitOn '/').filter fun s => s ≠ [] ∧ s ≠ ['.']

theorem namedSegments_append_slash (xs ys : List Char) :
    namedSegments (xs ++ '/' :: ys) = namedSegments xs ++ namedSegments ys := by
  have hsplit : (xs ++ '/' :: ys).splitOn '/' = xs.splitOn '/' ++ ys.splitOn '/' :=
    List.splitOnP_append_cons xs ys (by decide)
  rw [namedSegments, hsplit, List.filter_append]
  rfl

/-- One segment of a path read from its directory: a parent segment climbs, but not out of the root. -/
def climb (absolute : Bool) (names : List (List Char)) (s : List Char) : List (List Char) :=
  if s = ['.', '.'] then
    if names.getLast? = none ∨ names.getLast? = some s then if absolute then names else names ++ [s]
    else names.dropLast
  else names ++ [s]

def isAbsolute (path : List Char) : Bool :=
  path.head? = some '/'

def resolved (path : List Char) : List (List Char) :=
  (namedSegments path).foldl (climb (isAbsolute path)) []

def Inside (directory path : List Char) : Prop :=
  isAbsolute directory = isAbsolute path ∧
    ∃ rest, resolved path = resolved directory ++ rest ∧ ['.', '.'] ∉ rest

end Hugit
