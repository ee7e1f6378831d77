import Hugit.Authz
import Hugit.IntentModel

/-! Import of an intent sidecar: one landed intent under the sidecar's own id,
restricted to the intent namespace. -/

namespace Hugit

structure IntentSidecar where
  intentId : String
  charter : String
  deriving DecidableEq

inductive ImportError where
  | emptyIntentId
  | duplicateIntentId (intentId : String)
  | protectedRef (refName : String)
  | denied (reason : DenyReason)
  deriving DecidableEq

def isIntentNamespace (refName : String) : Bool :=
  (stripPrefix "refs/hugit/".toList refName.toList).isSome

def alreadyLanded (c : Crates) (log : EventLog) (intentId : String) : Bool :=
  log.records.any fun r => r.kind == intentLandedKind &&
    ((c.fromStr r.payload).bind fun v => (v.fieldStr "intent_id").map (· == intentId)).getD false

def importPayload (c : Crates) (sidecar : IntentSidecar) (refName target : String) : String :=
  c.print (.object [("intent_id", .string sidecar.intentId), ("ref", .string refName),
    ("target", .string target), ("charter", .string sidecar.charter)])

def actorClass (principalChain : List String) : PrincipalClass :=
  (principalChain.getLast?.bind PrincipalClass.classify).getD .worker

def importSidecar (c : Crates) (log : EventLog) (sidecar : IntentSidecar) (refName target : String)
    (principalChain : List String) (recordedAt : Nat) : Except ImportError EventRecord × EventLog :=
  if ¬ isIntentNamespace refName then (.error (.protectedRef refName), log)
  else if sidecar.intentId = "" then (.error .emptyIntentId, log)
  else if alreadyLanded c log sidecar.intentId then
    (.error (.duplicateIntentId sidecar.intentId), log)
  else
    match log.appendAuthorized c (actorClass principalChain) .push intentLandedKind principalChain
        (importPayload c sidecar refName target) recordedAt with
    | (.ok record, log) => (.ok record, log)
    | (.error denied, log) => (.error (.denied denied.reason), log)

end Hugit
