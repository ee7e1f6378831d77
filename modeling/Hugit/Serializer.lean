import Hugit.IntentImport
import Hugit.Undo

/-! The calls of the serializer and what each does while it holds the writer:
it appends its own record, or the audit of its denial, or nothing. -/

namespace Hugit

structure Op where
  kind : String
  principalChain : List String
  payload : String
  recordedAt : Nat
  deriving DecidableEq

inductive SubmitError where
  | backpressure (capacity : Nat)
  | writerPoisoned
  | denied (reason : String)
  deriving DecidableEq

inductive UndoSubmitError where
  | submit (e : SubmitError)
  | undo (e : UndoError)
  deriving DecidableEq

inductive ImportSubmitError where
  | submit (e : SubmitError)
  | importing (e : ImportError)
  deriving DecidableEq

def submitLocked (c : Crates) (log : EventLog) (op : Op) :
    Except SubmitError EventRecord × EventLog :=
  match auditedAuthorize c log op.principalChain .push op.recordedAt with
  | (.allow, _, log) =>
    let (record, log) := log.append c op.kind op.principalChain op.payload op.recordedAt
    (.ok record, log)
  | (.deny reason, _, log) => (.error (.denied reason.code), log)

def undoLocked (c : Crates) (log : EventLog) (target : Nat) (principalChain : List String)
    (recordedAt : Nat) : Except UndoSubmitError EventRecord × EventLog :=
  match computeCompensation c log target with
  | .error e => (.error (.undo e), log)
  | .ok comp =>
    match auditedAuthorize c log principalChain .undo recordedAt with
    | (.allow, _, log) =>
      let (record, log) := log.append c comp.kind principalChain comp.payload recordedAt
      (.ok record, log)
    | (.deny reason, _, log) => (.error (.undo (.denied reason)), log)

def importLocked (c : Crates) (log : EventLog) (sidecar : IntentSidecar) (refName target : String)
    (principalChain : List String) (recordedAt : Nat) :
    Except ImportSubmitError EventRecord × EventLog :=
  match importSidecar c log sidecar refName target principalChain recordedAt with
  | (.ok record, log) => (.ok record, log)
  | (.error e, log) => (.error (.importing e), log)

inductive Call where
  | submit (op : Op)
  | undo (target : Nat) (principalChain : List String) (recordedAt : Nat)
  | importSidecar (sidecar : IntentSidecar) (refName target : String)
      (principalChain : List String) (recordedAt : Nat)

inductive CallError where
  | submit (e : SubmitError)
  | undo (e : UndoSubmitError)
  | importSidecar (e : ImportSubmitError)
  deriving DecidableEq

namespace CallError

def isDenial : CallError → Bool
  | submit (.denied _) => true
  | undo (.undo (.denied _)) => true
  | importSidecar (.importing (.denied _)) => true
  | _ => false

end CallError

namespace Call

def refused : Call → SubmitError → CallError
  | submit _, e => .submit e
  | undo .., e => .undo (.submit e)
  | importSidecar .., e => .importSidecar (.submit e)

def locked (c : Crates) (log : EventLog) : Call → Except CallError EventRecord × EventLog
  | submit op =>
    let (result, log) := submitLocked c log op
    (result.mapError .submit, log)
  | undo target principalChain recordedAt =>
    let (result, log) := undoLocked c log target principalChain recordedAt
    (result.mapError .undo, log)
  | importSidecar sidecar refName target principalChain recordedAt =>
    let (result, log) := importLocked c log sidecar refName target principalChain recordedAt
    (result.mapError .importSidecar, log)

end Call

/-- What a call can leave behind: its own record, the audit record of its
denial, or the log as it was. -/
inductive Accounted (c : Crates) (log : EventLog) : Except CallError EventRecord → EventLog → Prop
  | record (kind : String) (principalChain : List String) (payload : String) (recordedAt : Nat) :
      Accounted c log (.ok (log.append c kind principalChain payload recordedAt).1)
        (log.append c kind principalChain payload recordedAt).2
  | denial {e : CallError} (he : e.isDenial = true) (principalChain : List String)
      (payload : String) (recordedAt : Nat) :
      Accounted c log (.error e) (log.append c authzDeniedKind principalChain payload recordedAt).2
  | nothing {e : CallError} (he : e.isDenial = false) : Accounted c log (.error e) log

theorem Accounted.extended {c : Crates} {log log' : EventLog} {result : Except CallError EventRecord}
    (h : Accounted c log result log') : log.Extended c log' := by
  cases h with
  | record kind principalChain payload recordedAt => exact .appended _ _ _ _
  | denial he principalChain payload recordedAt => exact .appended _ _ _ _
  | nothing he => exact .same

theorem Call.locked_accounted (c : Crates) (log : EventLog) (call : Call) :
    Accounted c log (call.locked c log).1 (call.locked c log).2 := by
  cases call with
  | submit op =>
    cases ha : authorize op.principalChain .push with
    | allow =>
      simp only [locked, submitLocked, auditedAuthorize, ha]
      exact .record _ _ _ _
    | deny reason =>
      simp only [locked, submitLocked, auditedAuthorize, ha]
      exact .denial rfl _ _ _
  | undo target principalChain recordedAt =>
    rcases computeCompensation_cases c log target with ⟨e, hc, hne⟩ | ⟨_, _, _, _, _, _, _, _, hc⟩
    · simp only [locked, undoLocked, hc]
      cases e with
      | denied reason => exact absurd rfl (hne reason)
      | _ => exact .nothing rfl
    · cases ha : authorize principalChain .undo with
      | allow =>
        simp only [locked, undoLocked, hc, auditedAuthorize, ha]
        exact .record _ _ _ _
      | deny reason =>
        simp only [locked, undoLocked, hc, auditedAuthorize, ha]
        exact .denial rfl _ _ _
  | importSidecar sidecar refName target principalChain recordedAt =>
    simp only [locked, importLocked, Hugit.importSidecar]
    split_ifs with hn hid hdup
    · exact .nothing rfl
    · exact .nothing rfl
    · cases ha : authorizeClass (actorClass principalChain) .push with
      | allow =>
        simp only [EventLog.appendAuthorized, ha]
        exact .record _ _ _ _
      | deny reason =>
        simp only [EventLog.appendAuthorized, ha]
        exact .denial rfl _ _ _
    · exact .nothing rfl

theorem undoLocked_snd (c : Crates) (log : EventLog) (target : Nat) (principalChain : List String)
    (recordedAt : Nat) : (undoLocked c log target principalChain recordedAt).2 =
      (undo c log target principalChain recordedAt).2 := by
  cases hc : computeCompensation c log target with
  | error e => simp [undoLocked, undo, hc]
  | ok comp => cases ha : authorize principalChain .undo <;>
      simp [undoLocked, undo, hc, auditedAuthorize, ha]

theorem importLocked_snd (c : Crates) (log : EventLog) (sidecar : IntentSidecar)
    (refName target : String) (principalChain : List String) (recordedAt : Nat) :
    (importLocked c log sidecar refName target principalChain recordedAt).2 =
      (importSidecar c log sidecar refName target principalChain recordedAt).2 := by
  rw [importLocked]
  rcases importSidecar c log sidecar refName target principalChain recordedAt with ⟨_ | _, _⟩ <;> rfl

end Hugit
