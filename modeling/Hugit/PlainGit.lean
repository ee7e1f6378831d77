import Hugit.PackContents

/-! A git codec to evaluate the model at: an object spells out whatever it refers
to, and its id spells out the object. -/

namespace Hugit

namespace PlainGit

def code : ObjectKind → UInt8
  | .blob => 0
  | .tree => 1
  | .commit => 2
  | .tag => 3

def ofCode (code : UInt8) : ObjectKind :=
  if code = 0 then .blob else if code = 1 then .tree else if code = 2 then .commit else .tag

def oid (kind : ObjectKind) (data : Bytes) : Oid :=
  hexEncode (code kind :: data)

theorem oid_injective {kind kind' : ObjectKind} {data data' : Bytes} (h : oid kind data = oid kind' data') :
    kind = kind' ∧ data = data' := by
  obtain ⟨hc, hd⟩ := List.cons.inj (hexEncode_injective h)
  refine ⟨?_, hd⟩
  cases kind <;> cases kind' <;> first | rfl | exact absurd hc (by decide)

def readObjects : Nat → Bytes → List GitObject
  | fuel + 1, kind :: len :: rest =>
    ⟨ofCode kind, rest.take len.toNat⟩ :: readObjects fuel (rest.drop len.toNat)
  | _, _ => []

def writeObject (object : GitObject) : Bytes :=
  code object.kind :: object.data.length.toUInt8 :: object.data

def refs (data : Bytes) : List GitObject :=
  readObjects data.length data

def first (data : Bytes) : Except String Oid :=
  match refs data with
  | [] => .error "empty"
  | object :: _ => .ok (oid object.kind object.data)

end PlainGit

open PlainGit

def GitCodec.plain : GitCodec where
  computeHash kind data := .ok (oid kind data)
  treeId := first
  parentIds data := (refs data).tail.map fun o => oid o.kind o.data
  entries data := .ok ((refs data).map fun o => ⟨o.kind = .commit, oid o.kind o.data⟩)
  targetId := first

def PackCodec.plain : PackCodec where
  entries pack := .ok ((refs (pack.drop 12)).map fun o =>
    .ok ⟨.base o.kind, 0, o.data.length, some (0x78 :: o.data)⟩)
  inflate bytes := if bytes.head? = some 0x78 then .ok bytes.tail else .error "not a zlib stream"
  writeAll _ := .ok ()
  finish framing := .ok (0x78 :: framing)

theorem PackCodec.plain_sound : PackCodec.plain.Sound := by
  refine ⟨?_, ?_⟩ <;> rintro framing bytes h <;> obtain rfl := Except.ok.inj h <;> rfl

namespace PlainGit

def packOf (objects : List GitObject) : Bytes :=
  [80, 65, 67, 75, 0, 0, 0, 2, 0, 0, 0] ++ objects.length.toUInt8 :: objects.flatMap writeObject

def blob (body : Bytes) : GitObject := ⟨.blob, body⟩

def tree (entries : List GitObject) : GitObject := ⟨.tree, entries.flatMap writeObject⟩

def commit (tree : GitObject) (parents : List GitObject) : GitObject :=
  ⟨.commit, (tree :: parents).flatMap writeObject⟩

def idOf (object : GitObject) : Oid := oid object.kind object.data

end PlainGit

end Hugit
