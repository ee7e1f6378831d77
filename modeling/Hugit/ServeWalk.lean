import Hugit.Fallible
import Hugit.GitObjects
import Hugit.Reachability

/-! The read path: objects from a content-addressed store, and the clock that is
read on the way. -/

namespace Hugit

inductive PackError where
  | missingObject (oid : Oid)
  | invalidOid (detail : String)
  | addressMismatch (stored actual : Oid)
  | hash (detail : String)
  | encode (detail : String)
  | write (detail : String)
  | source (detail : String)
  | deadline
  deriving DecidableEq

structure CasObjectSource where
  objects : List (Oid × GitObject)
  deriving DecidableEq

namespace CasObjectSource

/-- The bytes filed under an id must hash to it. -/
def get (g : GitCodec) (source : CasObjectSource) (oid : Oid) : Except PackError (Option GitObject) :=
  match source.objects.lookup oid with
  | none => .ok none
  | some object =>
    match g.computeHash object.kind object.data with
    | .error e => .error (.hash e)
    | .ok actual => if actual ≠ oid then .error (.addressMismatch oid actual) else .ok (some object)

end CasObjectSource

/-- The readings of the clock, in order: whether the deadline has passed. -/
abbrev Clock := Nat → Bool

end Hugit
