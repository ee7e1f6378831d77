import Hugit.Framing

/-! Git objects and what the git libraries read from them. Parsing and hashing
stay abstract. -/

namespace Hugit

abbrev Oid := String

inductive ObjectKind where
  | commit
  | tree
  | blob
  | tag
  deriving DecidableEq

structure GitObject where
  kind : ObjectKind
  data : Bytes
  deriving DecidableEq

/-- A tree entry; `isCommit` marks a link to a submodule. -/
structure TreeEntry where
  isCommit : Bool
  oid : Oid
  deriving DecidableEq

/-- The functions of `gix_object`: `compute_hash`, `CommitRefIter::tree_id` and
`parent_ids`, `TreeRefIter::entries`, `TagRefIter::target_id`. -/
structure GitCodec where
  computeHash : ObjectKind → Bytes → Except String Oid
  treeId : Bytes → Except String Oid
  parentIds : Bytes → List Oid
  entries : Bytes → Except String (List TreeEntry)
  targetId : Bytes → Except String Oid

namespace GitCodec

/-- What an object refers to, in the order in which every walk of the source
visits it: the tree of a commit and then its parents, the entries of a tree but
for submodules, the target of a tag. -/
def references (g : GitCodec) (object : GitObject) : Except String (List Oid) :=
  match object.kind with
  | .blob => .ok []
  | .commit => (g.treeId object.data).map fun tree => tree :: g.parentIds object.data
  | .tree => (g.entries object.data).map fun entries =>
      (entries.filter fun e => !e.isCommit).map TreeEntry.oid
  | .tag => (g.targetId object.data).map fun target => [target]

def children (g : GitCodec) (object : GitObject) : List Oid :=
  match g.references object with
  | .ok oids => oids
  | .error _ => []

theorem children_of_ok {g : GitCodec} {object : GitObject} {oids : List Oid}
    (h : g.references object = .ok oids) : g.children object = oids := by
  simp [children, h]

end GitCodec

end Hugit
