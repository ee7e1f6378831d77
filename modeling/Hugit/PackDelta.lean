import Hugit.Fallible
import Hugit.GitObjects

/-! Git binary deltas: a header with two sizes, then commands that copy from the
base or insert literal bytes. -/

namespace Hugit

inductive ReceiveError where
  | writePathDisabled
  | oversizedPack (len max : Nat)
  | decompressionBomb (detail : String)
  | malformedPack (detail : String)
  | refUpdateTampered (refName : String) (target : Oid)
  | unreachableTarget (refName : String) (target : Oid)
  | casLookupBudgetExceeded (max : Nat)
  | staleRef (refName : String) (expected actual : Option Oid)
  | missingAttribution
  | io (detail : String)
  deriving DecidableEq

/-- Seven bits a byte, low bits first. The accumulator is a 64-bit word: bits
shifted past its top are lost. -/
def readDeltaSize : Bytes → Nat → Nat → Nat → Except ReceiveError (Nat × Nat)
  | [], _, _, _ => .error (.malformedPack "truncated delta size varint")
  | b :: rest, size, shift, consumed =>
    let size := size ||| ((b.toNat &&& 0x7f) <<< shift) % 2 ^ 64
    if b.toNat &&& 0x80 = 0 then .ok (size, consumed + 1)
    else if 64 ≤ shift + 7 then .error (.malformedPack "delta size varint overflows u64")
    else readDeltaSize rest size (shift + 7) (consumed + 1)

def decodeDeltaSize (d : Bytes) (start : Nat) : Except ReceiveError (Nat × Nat) :=
  readDeltaSize (d.drop start) 0 0 0

/-- The operand bytes of a copy: each command bit that is set announces one byte
and the shift at which it enters the number. -/
def readOperand (detail : String) (cmd : UInt8) :
    List (Nat × Nat) → Nat → Bytes → Except ReceiveError (Nat × Bytes)
  | [], value, rest => .ok (value, rest)
  | (bit, shift) :: fields, value, rest =>
    if cmd.toNat &&& 1 <<< bit = 0 then readOperand detail cmd fields value rest
    else
      match rest with
      | [] => .error (.malformedPack detail)
      | b :: rest => readOperand detail cmd fields (value ||| b.toNat <<< shift) rest

def deltaCommand (base : Bytes) (cmd : UInt8) (rest : Bytes) : Except ReceiveError (Bytes × Bytes) :=
  if cmd.toNat &&& 0x80 ≠ 0 then do
    let offset ← readOperand "truncated copy offset" cmd [(0, 0), (1, 8), (2, 16), (3, 24)] 0 rest
    let size ← readOperand "truncated copy size" cmd [(4, 0), (5, 8), (6, 16)] 0 offset.2
    let copySize := if size.1 = 0 then 0x10000 else size.1
    refuseIf (base.length < offset.1 + copySize) (.malformedPack "copy runs off the base object")
    return ((base.drop offset.1).take copySize, size.2)
  else if cmd ≠ 0 then
    if rest.length < cmd.toNat then .error (.malformedPack "truncated insert literal")
    else .ok (rest.take cmd.toNat, rest.drop cmd.toNat)
  else .error (.malformedPack "reserved delta command code 0x00")

/-- The commands in order. Each one consumes its own byte, so the length of the
delta is enough fuel. -/
def runDelta (base : Bytes) (targetSize : Nat) : Nat → Bytes → Bytes → Except ReceiveError Bytes
  | _, [], out =>
    if out.length ≠ targetSize then .error (.malformedPack "delta produced fewer bytes than declared")
    else .ok out
  | 0, _ :: _, _ => .error (.malformedPack "delta commands left over")
  | fuel + 1, cmd :: rest, out => do
    let step ← deltaCommand base cmd rest
    refuseIf (targetSize < (out ++ step.1).length)
      (.malformedPack "delta produced more bytes than declared")
    runDelta base targetSize fuel step.2 (out ++ step.1)

def applyDelta (base delta : Bytes) (maxInflated : Nat) : Except ReceiveError Bytes := do
  let declared ← decodeDeltaSize delta 0
  refuseIf (declared.1 ≠ base.length) (.malformedPack "delta base size does not match the base object")
  let target ← decodeDeltaSize delta declared.2
  refuseIf (maxInflated < target.1) (.decompressionBomb ("delta resolves to " ++ toString target.1 ++
    " bytes, exceeds ceiling " ++ toString maxInflated ++ " bytes"))
  runDelta base target.1 delta.length (delta.drop (declared.2 + target.2)) []

example : applyDelta [10, 11, 12] [3, 4, 0x91, 1, 2, 2, 7, 8] 100 = .ok [11, 12, 7, 8] := by
  decide +kernel

end Hugit
