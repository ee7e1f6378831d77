import Hugit.EventLog

/-! Intents as events of the log: one landed intent is one record. -/

namespace Hugit

def intentLandedKind : String := "intent.landed"

def rawPushKinds : List String := ["ref.update", "ref.delete"]

structure Intent where
  seq : Nat
  intentId : String
  refName : String
  target : String
  charter : String
  principalChain : List String
  recordedAt : Nat
  deriving DecidableEq

structure IntentLog where
  intents : List Intent
  deriving DecidableEq

inductive IntentModelError where
  | badIntentPayload (seq : Nat)
  deriving DecidableEq

def parseIntent (c : Crates) (record : EventRecord) : Except IntentModelError Intent := do
  let bad := IntentModelError.badIntentPayload record.seq
  let v ← okOr (c.fromStr record.payload) bad
  let intentId ← okOr (v.fieldStr "intent_id") bad
  let refName ← okOr (v.fieldStr "ref") bad
  let target ← okOr (v.fieldStr "target") bad
  let charter ← okOr (v.fieldStr "charter") bad
  return { seq := record.seq, intentId, refName, target, charter,
           principalChain := record.principalChain, recordedAt := record.recordedAt }

def parseIntents (c : Crates) : List EventRecord → Except IntentModelError (List Intent)
  | [] => .ok []
  | record :: records =>
    if record.kind = intentLandedKind then do
      let intent ← parseIntent c record
      return intent :: (← parseIntents c records)
    else parseIntents c records

def intentsFromRecords (c : Crates) (records : List EventRecord) :
    Except IntentModelError IntentLog :=
  (parseIntents c records).map IntentLog.mk

def isRawPush (kind : String) : Bool :=
  rawPushKinds.contains kind

end Hugit
