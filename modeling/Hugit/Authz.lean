import Hugit.EventLog
import Hugit.Text

/-! The permission matrix in front of the mutating verbs. A denial appends an
audit record in place of the requested event. -/

namespace Hugit

inductive Endpoint where
  | push
  | land
  | undo
  | policy
  deriving DecidableEq

def Endpoint.asStr : Endpoint → String
  | push => "push"
  | land => "land"
  | undo => "undo"
  | policy => "policy"

inductive PrincipalClass where
  | human
  | orchestrator
  | worker
  | model
  deriving DecidableEq

namespace PrincipalClass

def asStr : PrincipalClass → String
  | human => "human"
  | orchestrator => "orchestrator"
  | worker => "worker"
  | model => "model"

/-- The class named by an identity's prefix. An unknown prefix, a missing colon
or an empty identity has no class. -/
def classify (identity : String) : Option PrincipalClass :=
  match splitOnce ':' identity.toList with
  | none => none
  | some (pre, rest) =>
    if rest = [] then none
    else
      let pre := String.ofList pre
      if pre = "human" ∨ pre = "user" then some human
      else if pre = "orchestrator" ∨ pre = "orch" then some orchestrator
      else if pre = "worker" ∨ pre = "agent" then some worker
      else if pre = "model" then some model
      else none

end PrincipalClass

inductive DenyReason where
  | unrecognizedPrincipal
  | notPermitted (principal : PrincipalClass)
  deriving DecidableEq

def DenyReason.code : DenyReason → String
  | unrecognizedPrincipal => "unrecognized_principal"
  | notPermitted _ => "not_permitted"

inductive Decision where
  | allow
  | deny (reason : DenyReason)
  deriving DecidableEq

def matrix : PrincipalClass → Endpoint → Bool
  | _, .push => true
  | .orchestrator, .land => true
  | _, .land => false
  | .human, .undo => true
  | _, .undo => false
  | .human, .policy => true
  | _, .policy => false

def authorizeClass (principal : PrincipalClass) (endpoint : Endpoint) : Decision :=
  if matrix principal endpoint then .allow else .deny (.notPermitted principal)

def authorize (principalChain : List String) (endpoint : Endpoint) : Decision :=
  match principalChain.getLast? with
  | none => .deny .unrecognizedPrincipal
  | some actor =>
    match PrincipalClass.classify actor with
    | none => .deny .unrecognizedPrincipal
    | some principal => authorizeClass principal endpoint

def authzDeniedKind : String := "authz.denied"

def denialPayload (c : Crates) (endpoint : Endpoint) : DenyReason → String
  | .unrecognizedPrincipal =>
    c.print (.object [("endpoint", .string endpoint.asStr),
      ("reason", .string DenyReason.unrecognizedPrincipal.code)])
  | .notPermitted principal =>
    c.print (.object [("endpoint", .string endpoint.asStr),
      ("reason", .string (DenyReason.notPermitted principal).code),
      ("class", .string principal.asStr)])

def auditedAuthorize (c : Crates) (log : EventLog) (principalChain : List String)
    (endpoint : Endpoint) (recordedAt : Nat) : Decision × Option EventRecord × EventLog :=
  match authorize principalChain endpoint with
  | .allow => (.allow, none, log)
  | .deny reason =>
    let (record, log) :=
      log.append c authzDeniedKind principalChain (denialPayload c endpoint reason) recordedAt
    (.deny reason, some record, log)

structure AuthzDenied where
  reason : DenyReason
  audit : EventRecord
  deriving DecidableEq

namespace EventLog

def appendAuthorized (c : Crates) (log : EventLog) (principal : PrincipalClass)
    (endpoint : Endpoint) (kind : String) (principalChain : List String) (payload : String)
    (recordedAt : Nat) : Except AuthzDenied EventRecord × EventLog :=
  match authorizeClass principal endpoint with
  | .allow =>
    let (record, log) := log.append c kind principalChain payload recordedAt
    (.ok record, log)
  | .deny reason =>
    let (audit, log) :=
      log.append c authzDeniedKind principalChain (denialPayload c endpoint reason) recordedAt
    (.error ⟨reason, audit⟩, log)

end EventLog

theorem authorize_undo_eq_allow {principalChain : List String} :
    authorize principalChain .undo = .allow ↔
      ∃ actor, principalChain.getLast? = some actor ∧
        PrincipalClass.classify actor = some .human := by
  unfold authorize
  cases principalChain.getLast? with
  | none => simp
  | some actor =>
    cases hc : PrincipalClass.classify actor with
    | none => simp [hc]
    | some principal => cases principal <;> simp [hc, authorizeClass, matrix]

example : PrincipalClass.classify "user:a:b" = some .human ∧ PrincipalClass.classify "human:" = none := by
  decide +kernel

end Hugit
