import Hugit.Durable
import Hugit.SealGuard
import Hugit.UnionEvaluation

/-! The receipts that an attempt to land the queue leaves beside the log. -/

namespace Hugit.Attempts

open Durable

def schema : String := "hugit.queue-attempt/1"

def simulationScope : String := "simulation_only"

def maxRecordBytes : Nat := 8192

inductive Outcome where
  | applied
  | held
  | failed
  deriving DecidableEq

def Outcome.asStr : Outcome → String
  | applied => "applied"
  | held => "held"
  | failed => "failed"

structure Previous where
  operationId : String
  disposition : String
  deriving DecidableEq

structure Started where
  schema : String
  operationId : String
  baseId : String
  configId : String
  scope : String
  previous : Option Previous
  deriving DecidableEq

structure Current where
  schema : String
  operationId : String
  deriving DecidableEq

structure Finished where
  schema : String
  operationId : String
  outcome : Outcome
  deriving DecidableEq

structure Invalidated where
  schema : String
  operationId : String
  reason : String
  priorEffects : String
  deriving DecidableEq

section Records

def outcomeSerde : Serde Outcome where
  toValue outcome := .string outcome.asStr
  ofValue v := v.unitVariant.bind fun name => [Outcome.applied, .held, .failed].find? (·.asStr = name)

def previousSerde : Serde Previous :=
  .record ["operation_id", "disposition"] true (fun p => [.string p.operationId, .string p.disposition]) fun vs =>
    match vs with
    | [id, disposition] => do return ⟨← id.asStr, ← disposition.asStr⟩
    | _ => none

/-- An object without the key is read as if the key were null. -/
def withNull (key : String) : Value → Value
  | .object fields => if (fields.lookup key).isSome then .object fields else .object (fields ++ [(key, .null)])
  | v => v

def startedFields : Serde Started :=
  .record ["schema", "operation_id", "base_id", "config_id", "scope", "previous"] true
    (fun s => [.string s.schema, .string s.operationId, .string s.baseId, .string s.configId, .string s.scope,
      previousSerde.option.toValue s.previous])
    fun vs =>
      match vs with
      | [schema, id, base, config, scope, previous] => do
        return ⟨← schema.asStr, ← id.asStr, ← base.asStr, ← config.asStr, ← scope.asStr,
          ← previousSerde.option.ofValue previous⟩
      | _ => none

def startedSerde : Serde Started where
  toValue := startedFields.toValue
  ofValue v := startedFields.ofValue (withNull "previous" v)

def currentSerde : Serde Current :=
  .record ["schema", "operation_id"] true (fun c => [.string c.schema, .string c.operationId]) fun vs =>
    match vs with
    | [schema, id] => do return ⟨← schema.asStr, ← id.asStr⟩
    | _ => none

def finishedSerde : Serde Finished :=
  .record ["schema", "operation_id", "outcome"] true
    (fun f => [.string f.schema, .string f.operationId, outcomeSerde.toValue f.outcome]) fun vs =>
    match vs with
    | [schema, id, outcome] => do return ⟨← schema.asStr, ← id.asStr, ← outcomeSerde.ofValue outcome⟩
    | _ => none

def invalidatedSerde : Serde Invalidated :=
  .record ["schema", "operation_id", "reason", "prior_effects"] true
    (fun i => [.string i.schema, .string i.operationId, .string i.reason, .string i.priorEffects]) fun vs =>
    match vs with
    | [schema, id, reason, effects] => do return ⟨← schema.asStr, ← id.asStr, ← reason.asStr, ← effects.asStr⟩
    | _ => none

end Records

inductive ReceiptKind where
  | started
  | finished
  | invalidated
  deriving DecidableEq

inductive JournalFile where
  | current
  | receipt (operationId : String) (kind : ReceiptKind)
  deriving DecidableEq

/-- The directory of the journal, and the text of each of its files. -/
structure Store where
  dir : Bool
  files : JournalFile → Option String

def Store.put (s : Store) (file : JournalFile) (text : String) : Store :=
  { s with files := Function.update s.files file (some text) }

abbrev Journaled (α : Type) : Type := Durable Store PorcelainError α

def journalError (message : String) : PorcelainError :=
  ⟨"queue_journal_error", message, "preserve the attempt receipts and current corpus; resolve the I/O or corruption " ++
    "before retrying; do not replay old results", []⟩

def validId (id : String) : Bool :=
  (stripPrefix "queue-".toList id.toList).any fun suffix =>
    suffix.length = 32 && suffix.all fun c => ('0' ≤ c && c ≤ '9') || ('a' ≤ c && c ≤ 'f')

def validIdentity (value : String) : Bool :=
  !(trim value.toList).isEmpty && value.utf8ByteSize ≤ 512 && !value.toList.any isControl

def recordPath (id : String) (kind : ReceiptKind) : Except PorcelainError JournalFile :=
  if validId id then .ok (.receipt id kind)
  else .error (journalError "invalid operation ID in queue attempt receipt")

def readRecord {α : Type} (serde : Serde α) (file : JournalFile) : Journaled (Option α) := do
  match ← read (·.files file) with
  | none => return none
  | some text =>
    if maxRecordBytes < text.utf8ByteSize then fail (journalError "queue receipt is not a bounded regular file")
    else
      match (readJson text).bind serde.ofValue with
      | none => fail (journalError "invalid queue attempt receipt; no new evaluation admitted")
      | some record => return some record

def encode {α : Type} (serde : Serde α) (record : α) : Except PorcelainError String :=
  if maxRecordBytes < (printJson (serde.toValue record)).utf8ByteSize then
    .error (journalError "queue receipt exceeds its write limit")
  else .ok (printJson (serde.toValue record))

def createRecord {α : Type} (serde : Serde α) (file : JournalFile) (record : α) : Journaled Unit := do
  let text ← ofExcept (encode serde record)
  if (← read (·.files file)).isSome then
    fail (journalError "cannot create queue receipt: File exists (os error 17)")
  else write (·.put file text)

def openDir : Journaled Bool := do
  if ← read (·.dir) then return false
  else
    write fun s => { s with dir := true }
    return true

def invalidation (id : String) : Invalidated :=
  ⟨schema, id, "interrupted_attempt_never_replayed", "unknown_preserve_current_corpus"⟩

/-- How the attempt ended. An attempt that did not is marked as interrupted. -/
def disposition (id : String) : Journaled String := do
  let finished ← readRecord finishedSerde (← ofExcept (recordPath id .finished))
  let path ← ofExcept (recordPath id .invalidated)
  let invalidated ← readRecord invalidatedSerde path
  match finished with
  | some finished =>
    if finished.schema ≠ schema ∨ finished.operationId ≠ id ∨ invalidated.isSome then
      fail (journalError "conflicting queue terminal receipts")
    else return finished.outcome.asStr
  | none =>
    match invalidated with
    | some observed =>
      let text ← ofExcept (encode invalidatedSerde observed)
      if text ≠ (← ofExcept (encode invalidatedSerde (invalidation id))) then
        fail (journalError "conflicting queue invalidation receipt")
      else return "invalidated"
    | none =>
      createRecord invalidatedSerde path (invalidation id)
      return "invalidated"

def Started.Matches (s : Started) (id : String) : Prop :=
  s.schema = Attempts.schema ∧ s.operationId = id ∧ s.scope = simulationScope ∧ validIdentity s.baseId = true ∧
    validIdentity s.configId = true

instance (s : Started) (id : String) : Decidable (s.Matches id) :=
  inferInstanceAs (Decidable (_ ∧ _))

def previousAttempt (context : EvaluationContext) (created : Bool) : Journaled (Option Previous) := do
  match ← readRecord currentSerde .current with
  | none =>
    if created then return none
    else fail (journalError "existing queue journal is missing its current pointer")
  | some current =>
    if current.schema ≠ schema ∨ current.operationId = context.operationId then
      fail (journalError "invalid or reused queue attempt identity")
    else
      match ← readRecord startedSerde (← ofExcept (recordPath current.operationId .started)) with
      | none => fail (journalError "current queue attempt is missing its start receipt")
      | some started =>
        if started.Matches current.operationId then
          return some ⟨current.operationId, ← disposition current.operationId⟩
        else fail (journalError "current queue attempt does not match its start receipt")

/-- The context of a live attempt. -/
def Live (context : EvaluationContext) : Bool :=
  validId context.operationId && context.scope = simulationScope && validIdentity context.baseId &&
    validIdentity context.configId

def startOf (context : EvaluationContext) (previous : Option Previous) : Started :=
  ⟨schema, context.operationId, context.baseId, context.configId, context.scope, previous⟩

/-- The attempt is admitted when the pointer names it. -/
def begin (context : EvaluationContext) : Journaled String := do
  if !Live context then fail (journalError "invalid live queue attempt context")
  else
    let created ← openDir
    let previous ← previousAttempt context created
    createRecord startedSerde (← ofExcept (recordPath context.operationId .started)) (startOf context previous)
    let pointer ← ofExcept (encode currentSerde ⟨schema, context.operationId⟩)
    write (·.put .current pointer)
    return context.operationId

def finish (operationId : String) (outcome : Outcome) : Journaled Unit := do
  createRecord finishedSerde (← ofExcept (recordPath operationId .finished)) ⟨schema, operationId, outcome⟩

end Hugit.Attempts
