import Hugit.ServeWalk

/-! The line counts of a changed blob in the diff of two trees: the lines on both
sides are counted by a common subsequence, row after row, until the deadline. -/

namespace Hugit

def maxDiffBlobBytes : Nat := 1024 * 1024

def maxDiffBlobLines : Nat := 8192

def splitLines (data : Bytes) : List Bytes :=
  if data = [] then []
  else if data.getLast? = some 10 then (data.splitOn 10).dropLast
  else data.splitOn 10

def lcsRow (ai : Bytes) : List Bytes → List Nat → Nat → List Nat
  | bj :: b, diagonal :: above :: prev, left =>
    let cell := if ai = bj then diagonal + 1 else max above left
    cell :: lcsRow ai b (above :: prev) cell
  | _, _, _ => []

/-- Row after row. The clock is read before every sixty-fourth. -/
def lcsRows (clock : Clock) (b : List Bytes) : List (Bytes × Nat) → List Nat → Nat → Option (List Nat) × Nat
  | [], prev, ticks => (some prev, ticks)
  | (ai, i) :: a, prev, ticks =>
    if i % 64 = 0 then
      if clock ticks then (none, ticks + 1)
      else lcsRows clock b a (0 :: lcsRow ai b prev 0) (ticks + 1)
    else lcsRows clock b a (0 :: lcsRow ai b prev 0) ticks

def lcsLen (clock : Clock) (a b : List Bytes) (ticks : Nat) : Option Nat × Nat :=
  if a = [] ∨ b = [] then (some 0, ticks)
  else
    let (a, b) := if b.length ≤ a.length then (a, b) else (b, a)
    let last := lcsRows clock b a.zipIdx (List.replicate (b.length + 1) 0) ticks
    (last.1.map fun row => row.getLastD 0, last.2)

section

variable (g : GitCodec) (r : TreeReader) (clock : Clock) (source : CasObjectSource)

def blobNumstat (oldOid newOid : Oid) (ticks : Nat) : Except PackError (Option (Nat × Nat) × Nat) := do
  match ← source.get g oldOid with
  | none => return (some (0, 0), ticks)
  | some old =>
    match ← source.get g newOid with
    | none => return (some (0, 0), ticks)
    | some new =>
      if maxDiffBlobBytes < old.data.length ∨ maxDiffBlobBytes < new.data.length ∨
          0 ∈ old.data ∨ 0 ∈ new.data then
        return (some (0, 0), ticks)
      else if maxDiffBlobLines < old.data.count 10 ∨ maxDiffBlobLines < new.data.count 10 then
        return (some (0, 0), ticks)
      else
        let lcs := lcsLen clock (splitLines old.data) (splitLines new.data) ticks
        return (lcs.1.map fun n => (((splitLines new.data).length - n) % 2 ^ 32,
          ((splitLines old.data).length - n) % 2 ^ 32), lcs.2)

end

end Hugit
