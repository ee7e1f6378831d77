import Hugit.IntentImport
import Hugit.JsonRecords
import Mathlib.Data.String.Basic

/-! The envelope an export writes, its JSON form and its check against the frozen
schema. -/

namespace Hugit

def exportFormatVersion : String := "1.0.0"

def firstClassObjectClasses : List String :=
  ["refs", "intents", "events", "ledger", "verdicts", "journals", "policy", "provenance_links"]

def outOfScopeClasses : List String := []

def outOfScopeMark : String := "!out-of-scope:"

structure ExportSchema where
  version : String
  objectClasses : List String
  redactionManifest : String
  deriving DecidableEq

structure RefEntry where
  name : String
  target : String
  deriving DecidableEq

structure ExportSidecar extends IntentSidecar where
  acceptance : List String
  contextRef : String
  authoritative : Bool
  deriving DecidableEq

structure LedgerEntry where
  entryId : String
  subject : String
  amountCents : UInt64
  deriving DecidableEq

inductive Verdict where
  | approve
  | fixFirst
  | reject
  deriving DecidableEq

structure VerdictObject where
  intent : String
  treeHash : String
  lens : String
  model : String
  promptDigest : String
  verdict : Verdict
  claimsChecked : List String
  evidenceRefs : List String
  deriving DecidableEq

structure JournalEntry where
  journalId : String
  intentId : String
  body : String
  deriving DecidableEq

structure PolicyObject where
  policyId : String
  gates : String
  deriving DecidableEq

structure ProvenanceLink where
  objectId : String
  eventSeq : UInt64
  deriving DecidableEq

structure AttestationChain where
  tree : String
  definition : String
  runner : String
  model : String
  principal : List String
  sig : String
  deriving DecidableEq

structure ExportEnvelope where
  schema : ExportSchema
  refs : List RefEntry
  intents : List ExportSidecar
  events : List EventRecord
  ledger : List LedgerEntry
  verdicts : List VerdictObject
  journals : List JournalEntry
  policy : List PolicyObject
  provenanceLinks : List ProvenanceLink
  attestations : List AttestationChain
  deriving DecidableEq

inductive SchemaError where
  | missingVersion
  | missingRedactionManifest
  | objectClassMismatch (expected got : List String)
  | undeclaredOmission (cls : String)
  | danglingProvenanceLink (objectId : String) (eventSeq : UInt64)
  deriving DecidableEq

namespace ExportEnvelope

def buildSchema (redactionManifest : String) : ExportSchema where
  version := exportFormatVersion
  objectClasses := firstClassObjectClasses ++ outOfScopeClasses.map (outOfScopeMark ++ ·)
  redactionManifest := redactionManifest

def declaredOutOfScope (schema : ExportSchema) : List String :=
  schema.objectClasses.filterMap fun cls =>
    (stripPrefix outOfScopeMark.toList cls.toList).map String.ofList

def leastDifference (expected declared : List String) : Option String :=
  (expected.filter (· ∉ declared) ++ declared.filter (· ∉ expected)).min?

def validate (e : ExportEnvelope) : Except SchemaError Unit :=
  let declaredFirstClass := e.schema.objectClasses.filter fun cls =>
    !outOfScopeMark.toList.isPrefixOf cls.toList
  if trim e.schema.version.toList = [] then .error .missingVersion
  else if trim e.schema.redactionManifest.toList = [] then .error .missingRedactionManifest
  else if declaredFirstClass ≠ firstClassObjectClasses then
    .error (.objectClassMismatch firstClassObjectClasses declaredFirstClass)
  else
    match leastDifference outOfScopeClasses (declaredOutOfScope e.schema) with
    | some missing => .error (.undeclaredOmission missing)
    | none =>
      match e.provenanceLinks.find? fun link => ¬ e.events.any fun r => r.seq = link.eventSeq.toNat with
      | some link => .error (.danglingProvenanceLink link.objectId link.eventSeq)
      | none => .ok ()

end ExportEnvelope

open Serde

def ExportSchema.serde : Serde ExportSchema :=
  record ["version", "object_classes", "redaction_manifest"] true
    (fun s => [str.toValue s.version, str.vec.toValue s.objectClasses, str.toValue s.redactionManifest]) fun
    | [version, classes, manifest] =>
      return ⟨← str.ofValue version, ← str.vec.ofValue classes, ← str.ofValue manifest⟩
    | _ => none

def RefEntry.serde : Serde RefEntry :=
  record ["name", "target"] false
    (fun e => [str.toValue e.name, str.toValue e.target]) fun
    | [name, target] => return ⟨← str.ofValue name, ← str.ofValue target⟩
    | _ => none

def ExportSidecar.serde : Serde ExportSidecar :=
  record ["intent_id", "charter", "acceptance", "context_ref", "authoritative"] true
    (fun i => [str.toValue i.intentId, str.toValue i.charter, str.vec.toValue i.acceptance,
      str.toValue i.contextRef, bool.toValue i.authoritative]) fun
    | [intentId, charter, acceptance, contextRef, authoritative] =>
      return ⟨⟨← str.ofValue intentId, ← str.ofValue charter⟩, ← str.vec.ofValue acceptance,
        ← str.ofValue contextRef, ← bool.ofValue authoritative⟩
    | _ => none

def EventRecord.serde : Serde EventRecord :=
  record ["seq", "prev_hash", "this_hash", "kind", "principal_chain", "payload", "recorded_at"] true
    (fun r => [natU64.toValue r.seq, str.toValue r.prevHash, str.toValue r.thisHash, str.toValue r.kind,
      str.vec.toValue r.principalChain, str.toValue r.payload, natU64.toValue r.recordedAt]) fun
    | [seq, prevHash, thisHash, kind, principalChain, payload, recordedAt] =>
      return ⟨← natU64.ofValue seq, ← str.ofValue prevHash, ← str.ofValue thisHash, ← str.ofValue kind,
        ← str.vec.ofValue principalChain, ← str.ofValue payload, ← natU64.ofValue recordedAt⟩
    | _ => none

def LedgerEntry.serde : Serde LedgerEntry :=
  record ["entry_id", "subject", "amount_cents"] false
    (fun e => [str.toValue e.entryId, str.toValue e.subject, u64.toValue e.amountCents]) fun
    | [entryId, subject, amountCents] =>
      return ⟨← str.ofValue entryId, ← str.ofValue subject, ← u64.ofValue amountCents⟩
    | _ => none

def Verdict.serde : Serde Verdict where
  toValue
    | .approve => .string "approve"
    | .fixFirst => .string "fix_first"
    | .reject => .string "reject"
  ofValue v :=
    match v.unitVariant with
    | some "approve" => some .approve
    | some "fix_first" => some .fixFirst
    | some "reject" => some .reject
    | _ => none

def VerdictObject.serde : Serde VerdictObject :=
  record ["intent", "tree_hash", "lens", "model", "prompt_digest", "verdict", "claims_checked",
      "evidence_refs"] true
    (fun o => [str.toValue o.intent, str.toValue o.treeHash, str.toValue o.lens, str.toValue o.model,
      str.toValue o.promptDigest, Verdict.serde.toValue o.verdict, str.vec.toValue o.claimsChecked,
      str.vec.toValue o.evidenceRefs]) fun
    | [intent, treeHash, lens, model, promptDigest, verdict, claimsChecked, evidenceRefs] =>
      return ⟨← str.ofValue intent, ← str.ofValue treeHash, ← str.ofValue lens, ← str.ofValue model,
        ← str.ofValue promptDigest, ← Verdict.serde.ofValue verdict, ← str.vec.ofValue claimsChecked,
        ← str.vec.ofValue evidenceRefs⟩
    | _ => none

def JournalEntry.serde : Serde JournalEntry :=
  record ["journal_id", "intent_id", "body"] false
    (fun j => [str.toValue j.journalId, str.toValue j.intentId, str.toValue j.body]) fun
    | [journalId, intentId, body] =>
      return ⟨← str.ofValue journalId, ← str.ofValue intentId, ← str.ofValue body⟩
    | _ => none

def PolicyObject.serde : Serde PolicyObject :=
  record ["policy_id", "gates"] false
    (fun p => [str.toValue p.policyId, str.toValue p.gates]) fun
    | [policyId, gates] => return ⟨← str.ofValue policyId, ← str.ofValue gates⟩
    | _ => none

def ProvenanceLink.serde : Serde ProvenanceLink :=
  record ["object_id", "event_seq"] false
    (fun l => [str.toValue l.objectId, u64.toValue l.eventSeq]) fun
    | [objectId, eventSeq] => return ⟨← str.ofValue objectId, ← u64.ofValue eventSeq⟩
    | _ => none

def AttestationChain.serde : Serde AttestationChain :=
  record ["tree", "def", "runner", "model", "principal", "sig"] true
    (fun a => [str.toValue a.tree, str.toValue a.definition, str.toValue a.runner, str.toValue a.model,
      str.vec.toValue a.principal, str.toValue a.sig]) fun
    | [tree, definition, runner, model, principal, sig] =>
      return ⟨← str.ofValue tree, ← str.ofValue definition, ← str.ofValue runner, ← str.ofValue model,
        ← str.vec.ofValue principal, ← str.ofValue sig⟩
    | _ => none

def ExportEnvelope.serde : Serde ExportEnvelope :=
  record ["schema", "refs", "intents", "events", "ledger", "verdicts", "journals", "policy",
      "provenance_links", "attestations"] false
    (fun e => [ExportSchema.serde.toValue e.schema, RefEntry.serde.vec.toValue e.refs,
      ExportSidecar.serde.vec.toValue e.intents, EventRecord.serde.vec.toValue e.events,
      LedgerEntry.serde.vec.toValue e.ledger, VerdictObject.serde.vec.toValue e.verdicts,
      JournalEntry.serde.vec.toValue e.journals, PolicyObject.serde.vec.toValue e.policy,
      ProvenanceLink.serde.vec.toValue e.provenanceLinks,
      AttestationChain.serde.vec.toValue e.attestations]) fun
    | [schema, refs, intents, events, ledger, verdicts, journals, policy, provenanceLinks, attestations] =>
      return ⟨← ExportSchema.serde.ofValue schema, ← RefEntry.serde.vec.ofValue refs,
        ← ExportSidecar.serde.vec.ofValue intents, ← EventRecord.serde.vec.ofValue events,
        ← LedgerEntry.serde.vec.ofValue ledger, ← VerdictObject.serde.vec.ofValue verdicts,
        ← JournalEntry.serde.vec.ofValue journals, ← PolicyObject.serde.vec.ofValue policy,
        ← ProvenanceLink.serde.vec.ofValue provenanceLinks, ← AttestationChain.serde.vec.ofValue attestations⟩
    | _ => none

section Reads

variable (depth : Nat)

theorem strVec_reads (texts : List String) : str.vec.Reads (depth + 1) texts :=
  vec_reads fun text _ => str_reads depth text

theorem ExportSchema.serde_reads (s : ExportSchema) : ExportSchema.serde.Reads (depth + 2) s := by
  refine record_reads (by decide) rfl ?_ ?_
  · simp [(str_reads 0 _).reads, (strVec_reads 0 _).reads]
  · simp [(str_reads (depth + 1) _).printable, (strVec_reads depth _).printable]

theorem RefEntry.serde_reads (e : RefEntry) : RefEntry.serde.Reads (depth + 1) e := by
  refine record_reads (by decide) rfl ?_ ?_
  · simp [(str_reads 0 _).reads]
  · simp [(str_reads depth _).printable]

theorem ExportSidecar.serde_reads (i : ExportSidecar) : ExportSidecar.serde.Reads (depth + 2) i := by
  refine record_reads (by decide) rfl ?_ ?_
  · simp [(str_reads 0 _).reads, (strVec_reads 0 _).reads, (bool_reads 0 _).reads]
  · simp [(str_reads (depth + 1) _).printable, (strVec_reads depth _).printable, (bool_reads (depth + 1) _).printable]

def EventRecord.IsU64 (r : EventRecord) : Prop :=
  r.seq < 2 ^ 64 ∧ r.recordedAt < 2 ^ 64

theorem EventRecord.serde_reads {r : EventRecord} (h : r.IsU64) : EventRecord.serde.Reads (depth + 2) r := by
  refine record_reads (by decide) rfl ?_ ?_
  · simp [(str_reads 0 _).reads, (strVec_reads 0 _).reads, (natU64_reads 0 h.1).reads, (natU64_reads 0 h.2).reads]
  · simp [(str_reads (depth + 1) _).printable, (strVec_reads depth _).printable,
      (natU64_reads (depth + 1) h.1).printable, (natU64_reads (depth + 1) h.2).printable]

theorem LedgerEntry.serde_reads (e : LedgerEntry) : LedgerEntry.serde.Reads (depth + 1) e := by
  refine record_reads (by decide) rfl ?_ ?_
  · simp [(str_reads 0 _).reads, (u64_reads 0 _).reads]
  · simp [(str_reads depth _).printable, (u64_reads depth _).printable]

theorem Verdict.serde_reads (v : Verdict) : Verdict.serde.Reads depth v := by
  cases v <;> exact ⟨rfl, .string _⟩

theorem VerdictObject.serde_reads (o : VerdictObject) : VerdictObject.serde.Reads (depth + 2) o := by
  refine record_reads (by decide) rfl ?_ ?_
  · simp [(str_reads 0 _).reads, (strVec_reads 0 _).reads, (Verdict.serde_reads 0 _).reads]
  · simp [(str_reads (depth + 1) _).printable, (strVec_reads depth _).printable,
      (Verdict.serde_reads (depth + 1) _).printable]

theorem JournalEntry.serde_reads (j : JournalEntry) : JournalEntry.serde.Reads (depth + 1) j := by
  refine record_reads (by decide) rfl ?_ ?_
  · simp [(str_reads 0 _).reads]
  · simp [(str_reads depth _).printable]

theorem PolicyObject.serde_reads (p : PolicyObject) : PolicyObject.serde.Reads (depth + 1) p := by
  refine record_reads (by decide) rfl ?_ ?_
  · simp [(str_reads 0 _).reads]
  · simp [(str_reads depth _).printable]

theorem ProvenanceLink.serde_reads (l : ProvenanceLink) : ProvenanceLink.serde.Reads (depth + 1) l := by
  refine record_reads (by decide) rfl ?_ ?_
  · simp [(str_reads 0 _).reads, (u64_reads 0 _).reads]
  · simp [(str_reads depth _).printable, (u64_reads depth _).printable]

theorem AttestationChain.serde_reads (a : AttestationChain) : AttestationChain.serde.Reads (depth + 2) a := by
  refine record_reads (by decide) rfl ?_ ?_
  · simp [(str_reads 0 _).reads, (strVec_reads 0 _).reads]
  · simp [(str_reads (depth + 1) _).printable, (strVec_reads depth _).printable]

theorem ExportEnvelope.serde_reads {e : ExportEnvelope} (h : ∀ r ∈ e.events, r.IsU64) :
    ExportEnvelope.serde.Reads (depth + 4) e := by
  have hschema := ExportSchema.serde_reads (depth + 1) e.schema
  have hrefs := vec_reads fun a (_ : a ∈ e.refs) => RefEntry.serde_reads (depth + 1) a
  have hintents := vec_reads fun a (_ : a ∈ e.intents) => ExportSidecar.serde_reads depth a
  have hevents := vec_reads fun r hr => EventRecord.serde_reads depth (h r hr)
  have hledger := vec_reads fun a (_ : a ∈ e.ledger) => LedgerEntry.serde_reads (depth + 1) a
  have hverdicts := vec_reads fun a (_ : a ∈ e.verdicts) => VerdictObject.serde_reads depth a
  have hjournals := vec_reads fun a (_ : a ∈ e.journals) => JournalEntry.serde_reads (depth + 1) a
  have hpolicy := vec_reads fun a (_ : a ∈ e.policy) => PolicyObject.serde_reads (depth + 1) a
  have hlinks := vec_reads fun a (_ : a ∈ e.provenanceLinks) => ProvenanceLink.serde_reads (depth + 1) a
  have hchains := vec_reads fun a (_ : a ∈ e.attestations) => AttestationChain.serde_reads depth a
  refine record_reads (by decide) rfl ?_ ?_
  · simp [hschema.reads, hrefs.reads, hintents.reads, hevents.reads, hledger.reads, hverdicts.reads,
      hjournals.reads, hpolicy.reads, hlinks.reads, hchains.reads]
  · simp [hschema.printable, hrefs.printable, hintents.printable, hevents.printable, hledger.printable,
      hverdicts.printable, hjournals.printable, hpolicy.printable, hlinks.printable, hchains.printable]

end Reads

end Hugit
