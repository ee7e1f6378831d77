import Hugit.ExportCut
import Hugit.ExportRedaction
import Hugit.Fallible
import Hugit.StreamingDump

/-! Exporting a corpus to an envelope and a git snapshot, and restoring the corpus
from the envelope. -/

namespace Hugit

/-- A log holds every sequence number once, in order, as 64-bit numbers. -/
structure Corpus where
  eventLog : EventLog
  gapFree : GapFree eventLog.records
  isU64 : ∀ r ∈ eventLog.records, r.IsU64
  ledger : List LedgerEntry
  verdicts : List VerdictObject
  journals : List JournalEntry
  policy : List PolicyObject
  provenanceLinks : List ProvenanceLink
  attestations : List AttestationChain
  gitObjects : List (String × Bytes)

inductive AccountState where
  | active
  | suspended
  | pastDue
  | offboarding
  deriving DecidableEq

structure ExportArtifact where
  envelope : ExportEnvelope
  manifest : RedactionManifest
  gitObjects : List (String × Bytes)
  json : Bytes
  peakBuffered : Nat
  peakSerializeScratch : Nat
  deriving DecidableEq

inductive ExportError where
  | cut (e : CutError)
  | append (e : AppendError)
  | intent (e : IntentModelError)
  | schema (e : SchemaError)
  | io (detail : String)
  | unsafeOid (oid : String)
  | sensitiveCanonicalEventPayload (seq : Nat)
  deriving DecidableEq

structure Exporter where
  scrubber : Scrubber
  fromUtf8Lossy : Bytes → String

structure ExportHost where
  createDir : Except String Unit
  writeJson : Except String Unit
  writeManifest : Except String Unit
  gitInit : Except String Unit
  writeObject : String → Bytes → Except String Unit
  gitCommit : String → Except String Unit

def oidPathSafe (oid : String) : Bool :=
  oid ≠ "" && oid ≠ ".." && oid ≠ "." &&
    oid.toList.all (fun c => c.isAlphanum || c = '.' || c = '_' || c = '-') &&
    !contains oid.toList "..".toList

def validateOidPathSafe (oid : String) : Except ExportError Unit :=
  if oidPathSafe oid then .ok () else .error (.unsafeOid oid)

def refsManifest (refs : List RefEntry) : String :=
  refs.foldl (fun text r => text ++ (r.target ++ " " ++ r.name ++ "\n")) ""

def writeGitArtifact (host : ExportHost) (gitObjects : List (String × Bytes)) (refs : List RefEntry) :
    Except ExportError Unit := do
  host.gitInit.mapError .io
  gitObjects.forM fun (oid, bytes) => do
    validateOidPathSafe oid
    (host.writeObject oid bytes).mapError .io
  (host.gitCommit (refsManifest refs)).mapError .io

namespace Exporter

variable (x : Exporter)

def exportIntent (i : Intent) : StateM RedactionManifest ExportSidecar := do
  let charter ← x.scrubber.redactField ("intents/" ++ i.intentId ++ ".charter") i.charter
  return { intentId := i.intentId, charter, acceptance := [], contextRef := "ctx-" ++ i.intentId,
           authoritative := false }

def exportJournal (j : JournalEntry) : StateM RedactionManifest JournalEntry := do
  let body ← x.scrubber.redactField ("journals/" ++ j.journalId ++ ".body") j.body
  return { j with body }

def exportGitObject (o : String × Bytes) : StateM RedactionManifest (String × Bytes) := do
  let redacted ← x.scrubber.redactField ("git/" ++ o.1) (x.fromUtf8Lossy o.2)
  return (o.1, utf8 redacted)

def redactLanes (intentLog : IntentLog) (corpus : Corpus) :
    StateM RedactionManifest (List ExportSidecar × List JournalEntry × List (String × Bytes)) := do
  let intents ← intentLog.intents.mapM x.exportIntent
  let journals ← corpus.journals.mapM x.exportJournal
  let gitObjects ← corpus.gitObjects.mapM x.exportGitObject
  return (intents, journals, gitObjects)

def exportRefs (state : RefState) : List RefEntry :=
  state.refs.toList.map fun b => ⟨redactText x.scrubber.measures b.1, b.2⟩

def buildEnvelope (corpus : Corpus) (cut : Cut) (state : RefState) (manifest : RedactionManifest)
    (intents : List ExportSidecar) (journals : List JournalEntry) : ExportEnvelope where
  schema := ExportEnvelope.buildSchema (manifest.contentRef x.scrubber.crates)
  refs := x.exportRefs state
  intents := intents
  events := cut.records
  ledger := corpus.ledger
  verdicts := corpus.verdicts
  journals := journals
  policy := corpus.policy
  provenanceLinks := corpus.provenanceLinks
  attestations := corpus.attestations

def writeArtifact (host : ExportHost) (envelope : ExportEnvelope) (manifest : RedactionManifest)
    (gitObjects : List (String × Bytes)) : Except ExportError ExportArtifact := do
  host.createDir.mapError .io
  host.writeJson.mapError .io
  let (json, peakBuffered, peakSerializeScratch) := streamEnvelopeJson x.scrubber.crates envelope
  host.writeManifest.mapError .io
  writeGitArtifact host gitObjects envelope.refs
  return { envelope, manifest, gitObjects, json, peakBuffered, peakSerializeScratch }

def refuseSensitive (records : List EventRecord) : Except ExportError Unit :=
  match records.find? x.scrubber.wouldRedactEvent with
  | some event => .error (.sensitiveCanonicalEventPayload event.seq)
  | none => .ok ()

/-- The state of the account has no effect. -/
def exportCorpus (host : ExportHost) (corpus : Corpus) (_account : AccountState) : Except ExportError ExportArtifact := do
  let c := x.scrubber.crates
  let cut ← (Cut.take c corpus.eventLog).mapError .cut
  x.refuseSensitive cut.records
  let state ← (cut.refState c).mapError .cut
  let cutLog ← (EventLog.pushRecords cut.records).mapError .append
  let intentLog ← (intentsFromRecords c cutLog.records).mapError .intent
  let ((intents, journals, gitObjects), manifest) := (x.redactLanes intentLog corpus).run .new
  (cut.assertLinksResolved corpus.provenanceLinks).mapError .cut
  let envelope := x.buildEnvelope corpus cut state manifest intents journals
  envelope.validate.mapError .schema
  x.writeArtifact host envelope manifest gitObjects

end Exporter

namespace Exporter

variable (x : Exporter)

def exportedIntent (i : Intent) : ExportSidecar where
  intentId := i.intentId
  charter := redactText x.scrubber.measures i.charter
  acceptance := []
  contextRef := "ctx-" ++ i.intentId
  authoritative := false

def exportedJournal (j : JournalEntry) : JournalEntry :=
  { j with body := redactText x.scrubber.measures j.body }

def exportedObject (o : String × Bytes) : String × Bytes :=
  (o.1, utf8 (redactText x.scrubber.measures (x.fromUtf8Lossy o.2)))

def laneRemovals (intentLog : IntentLog) (corpus : Corpus) : List Removal :=
  intentLog.intents.flatMap (fun i => x.scrubber.fieldRemovals ("intents/" ++ i.intentId ++ ".charter") i.charter) ++
    corpus.journals.flatMap (fun j => x.scrubber.fieldRemovals ("journals/" ++ j.journalId ++ ".body") j.body) ++
    corpus.gitObjects.flatMap fun o => x.scrubber.fieldRemovals ("git/" ++ o.1) (x.fromUtf8Lossy o.2)

theorem run_redactLanes (intentLog : IntentLog) (corpus : Corpus) :
    (x.redactLanes intentLog corpus).run .new =
      ((intentLog.intents.map x.exportedIntent, corpus.journals.map x.exportedJournal,
        corpus.gitObjects.map x.exportedObject), ⟨x.laneRemovals intentLog corpus⟩) := by
  have hintent (i : Intent) (m : RedactionManifest) : (x.exportIntent i).run m = (x.exportedIntent i,
      ⟨m.removals ++ x.scrubber.fieldRemovals ("intents/" ++ i.intentId ++ ".charter") i.charter⟩) := by
    rw [exportIntent, StateT.run_bind, Scrubber.run_redactField]
    rfl
  have hjournal (j : JournalEntry) (m : RedactionManifest) : (x.exportJournal j).run m = (x.exportedJournal j,
      ⟨m.removals ++ x.scrubber.fieldRemovals ("journals/" ++ j.journalId ++ ".body") j.body⟩) := by
    rw [exportJournal, StateT.run_bind, Scrubber.run_redactField]
    rfl
  have hobject (o : String × Bytes) (m : RedactionManifest) : (x.exportGitObject o).run m = (x.exportedObject o,
      ⟨m.removals ++ x.scrubber.fieldRemovals ("git/" ++ o.1) (x.fromUtf8Lossy o.2)⟩) := by
    rw [exportGitObject, StateT.run_bind, Scrubber.run_redactField]
    rfl
  rw [redactLanes, StateT.run_bind, run_mapM_manifest hintent]
  show (_ : StateM RedactionManifest _).run _ = _
  rw [StateT.run_bind, run_mapM_manifest hjournal]
  show (_ : StateM RedactionManifest _).run _ = _
  rw [StateT.run_bind, run_mapM_manifest hobject]
  rfl

end Exporter

structure Restored where
  eventLog : EventLog
  refs : List RefEntry
  intents : List ExportSidecar
  envelope : ExportEnvelope

inductive RestoreError where
  | parse
  | schema (e : SchemaError)
  | integrity (e : TamperError)
  | log (e : AppendError)
  deriving DecidableEq

def parseEnvelope (c : Crates) (bytes : Bytes) : Option ExportEnvelope := do
  let text ← readUtf8 bytes
  let v ← c.fromStr text
  ExportEnvelope.serde.ofValue v

def restoreFromBytes (c : Crates) (bytes : Bytes) : Except RestoreError Restored := do
  let envelope ← okOr (parseEnvelope c bytes) .parse
  envelope.validate.mapError .schema
  (verifyChain c envelope.events).mapError .integrity
  let eventLog ← (EventLog.pushRecords envelope.events).mapError .log
  return { eventLog, refs := envelope.refs, intents := envelope.intents, envelope }

theorem Cut.take_eq_ok {c : Crates} {log : EventLog} (hg : GapFree log.records) {cut : Cut}
    (h : Cut.take c log = .ok cut) : cut = ⟨log.records⟩ ∧ verifyChain c log.records = .ok () := by
  have hall : log.records.filter (fun r => r.seq < log.len) = log.records := by
    rw [filter_seq_lt hg, EventLog.len, List.take_length]
  rw [Cut.take, Cut.takeTo, hall] at h
  split at h
  · cases h
  · next hv =>
    cases h
    exact ⟨rfl, hv⟩

theorem Cut.refState_eq_ok {c : Crates} {records : List EventRecord} (hg : GapFree records) {state : RefState}
    (h : Cut.refState c ⟨records⟩ = .ok state) : replay c ⟨records⟩ = .ok state := by
  rw [Cut.refState, EventLog.pushRecords_of_gapFree hg] at h
  dsimp only at h
  split at h
  · cases h
  · next hr =>
    cases h
    exact hr

namespace Exporter

variable {x : Exporter} {host : ExportHost} {corpus : Corpus} {account : AccountState} {art : ExportArtifact}

theorem refuseSensitive_eq_ok {records : List EventRecord} {u : Unit} :
    x.refuseSensitive records = .ok u ↔ ∀ r ∈ records, x.scrubber.wouldRedactEvent r = false := by
  rw [refuseSensitive]
  split
  · next event hsome => simpa using ⟨event, List.mem_of_find?_eq_some hsome, List.find?_some hsome⟩
  · next hnone => simpa using hnone

structure Exports (x : Exporter) (corpus : Corpus) (art : ExportArtifact) (state : RefState)
    (intentLog : IntentLog) : Prop where
  replays : replay x.scrubber.crates corpus.eventLog = .ok state
  parses : intentsFromRecords x.scrubber.crates corpus.eventLog.records = .ok intentLog
  harmless : ∀ r ∈ corpus.eventLog.records, x.scrubber.wouldRedactEvent r = false
  envelope : art.envelope = x.buildEnvelope corpus ⟨corpus.eventLog.records⟩ state art.manifest
    (intentLog.intents.map x.exportedIntent) (corpus.journals.map x.exportedJournal)
  gitObjects : art.gitObjects = corpus.gitObjects.map x.exportedObject
  removals : art.manifest.removals = x.laneRemovals intentLog corpus
  valid : art.envelope.validate = .ok ()
  json : art.json = (streamEnvelopeJson x.scrubber.crates art.envelope).1

theorem writeArtifact_eq_ok {envelope : ExportEnvelope} {manifest : RedactionManifest}
    {gitObjects : List (String × Bytes)} (h : x.writeArtifact host envelope manifest gitObjects = .ok art) :
    art.envelope = envelope ∧ art.manifest = manifest ∧ art.gitObjects = gitObjects ∧
      art.json = (streamEnvelopeJson x.scrubber.crates envelope).1 := by
  rw [writeArtifact] at h
  obtain ⟨_, -, h⟩ := bind_eq_ok.mp h
  obtain ⟨_, -, h⟩ := bind_eq_ok.mp h
  obtain ⟨_, -, h⟩ := bind_eq_ok.mp h
  obtain ⟨_, -, h⟩ := bind_eq_ok.mp h
  obtain rfl := pure_eq_ok.mp h
  exact ⟨rfl, rfl, rfl, rfl⟩

theorem exportCorpus_eq_ok (h : x.exportCorpus host corpus account = .ok art) :
    ∃ state intentLog, Exports x corpus art state intentLog := by
  rw [exportCorpus] at h
  obtain ⟨cut, hcut, h⟩ := bind_eq_ok.mp h
  obtain ⟨_, hsafe, h⟩ := bind_eq_ok.mp h
  obtain ⟨state, hstate, h⟩ := bind_eq_ok.mp h
  obtain ⟨cutLog, hlog, h⟩ := bind_eq_ok.mp h
  obtain ⟨intentLog, hintents, hout⟩ := bind_eq_ok.mp h
  rw [mapError_eq_ok] at hcut hstate hlog hintents
  obtain ⟨rfl, -⟩ := Cut.take_eq_ok corpus.gapFree hcut
  rw [EventLog.pushRecords_of_gapFree corpus.gapFree] at hlog
  cases hlog
  rw [run_redactLanes] at hout
  obtain ⟨_, -, hout⟩ := bind_eq_ok.mp hout
  obtain ⟨_, hvalid, hout⟩ := bind_eq_ok.mp hout
  rw [mapError_eq_ok] at hvalid
  obtain ⟨henv, hman, hobj, hjson⟩ := writeArtifact_eq_ok hout
  refine ⟨state, intentLog, ?_⟩
  constructor
  · exact Cut.refState_eq_ok corpus.gapFree hstate
  · exact hintents
  · exact refuseSensitive_eq_ok.mp hsafe
  · rw [henv, hman]
  · exact hobj
  · rw [hman]
  · rw [henv]
    exact hvalid
  · rw [henv, hjson]

end Exporter

theorem ExportEnvelope.validate_eq_ok {e : ExportEnvelope} : e.validate = .ok () ↔
    trim e.schema.version.toList ≠ [] ∧ trim e.schema.redactionManifest.toList ≠ [] ∧
      e.schema.objectClasses.filter (fun cls => !outOfScopeMark.toList.isPrefixOf cls.toList) =
        firstClassObjectClasses ∧
      leastDifference outOfScopeClasses (declaredOutOfScope e.schema) = none ∧
      e.provenanceLinks.find? (fun link => ¬ e.events.any fun r => r.seq = link.eventSeq.toNat) = none := by
  unfold validate
  dsimp only
  rw [ite_error_eq_ok, ite_error_eq_ok, ite_error_eq_ok, not_not]
  refine and_congr_right fun _ => and_congr_right fun _ => and_congr_right fun _ => ?_
  cases leastDifference outOfScopeClasses (declaredOutOfScope e.schema) with
  | some missing => simp
  | none =>
    cases e.provenanceLinks.find? (fun link => ¬ e.events.any fun r => r.seq = link.eventSeq.toNat) with
    | some link => simp
    | none => simp

theorem Exporter.validate_buildEnvelope (x : Exporter) (corpus : Corpus) (state : RefState)
    (manifest : RedactionManifest) (intents : List ExportSidecar) (journals : List JournalEntry)
    (hl : ∀ link ∈ corpus.provenanceLinks, link.eventSeq.toNat < corpus.eventLog.len) :
    (x.buildEnvelope corpus ⟨corpus.eventLog.records⟩ state manifest intents journals).validate = .ok () := by
  have hmanifest : trim (manifest.contentRef x.scrubber.crates).toList ≠ [] := by
    refine trim_ne_nil (c := 'r') ?_ rfl
    simp [RedactionManifest.contentRef]
  have hversion : trim exportFormatVersion.toList ≠ [] := by decide
  have hlinks : corpus.provenanceLinks.find? (fun link =>
      ¬ corpus.eventLog.records.any fun r => r.seq = link.eventSeq.toNat) = none := by
    rw [List.find?_eq_none]
    intro link hlink
    have hlt := hl link hlink
    have hseq := corpus.gapFree _ _ (List.getElem?_eq_getElem hlt)
    simp only [decide_not, Bool.not_eq_true', decide_eq_false_iff_not, not_not]
    exact List.any_eq_true.mpr ⟨_, List.getElem_mem hlt, decide_eq_true hseq⟩
  exact ExportEnvelope.validate_eq_ok.mpr ⟨hversion, hmanifest, rfl, rfl, hlinks⟩

def quietHost : ExportHost :=
  ⟨.ok (), .ok (), .ok (), .ok (), fun _ _ => .ok (), fun _ => .ok ()⟩

theorem writeGitArtifact_quiet {objects : List (String × Bytes)} (h : ∀ o ∈ objects, oidPathSafe o.1 = true)
    (refs : List RefEntry) : writeGitArtifact quietHost objects refs = .ok () := by
  have hobjects : objects.forM (fun o => do
      validateOidPathSafe o.1
      (quietHost.writeObject o.1 o.2).mapError ExportError.io) = .ok () := by
    refine forM_eq_ok fun o ho => ?_
    rw [validateOidPathSafe, if_pos (h o ho)]
    rfl
  rw [writeGitArtifact, hobjects]
  rfl

theorem Exporter.exportCorpus_succeeds (x : Exporter) {corpus : Corpus} (account : AccountState) {state : RefState}
    {intentLog : IntentLog} (hr : replay x.scrubber.crates corpus.eventLog = .ok state)
    (hi : intentsFromRecords x.scrubber.crates corpus.eventLog.records = .ok intentLog)
    (hs : ∀ r ∈ corpus.eventLog.records, x.scrubber.wouldRedactEvent r = false)
    (hl : ∀ link ∈ corpus.provenanceLinks, link.eventSeq.toNat < corpus.eventLog.len)
    (ho : ∀ o ∈ corpus.gitObjects, oidPathSafe o.1 = true) :
    ∃ art, x.exportCorpus quietHost corpus account = .ok art := by
  have hv := (replay_eq_ok.mp hr).1
  have hcut : Cut.take x.scrubber.crates corpus.eventLog = .ok ⟨corpus.eventLog.records⟩ := by
    have hall : corpus.eventLog.records.filter (fun r => r.seq < corpus.eventLog.len) = corpus.eventLog.records := by
      rw [filter_seq_lt corpus.gapFree, EventLog.len, List.take_length]
    rw [Cut.take, Cut.takeTo, hall, hv]
  have hrefuse : x.refuseSensitive corpus.eventLog.records = .ok () := refuseSensitive_eq_ok.mpr hs
  have hstate : Cut.refState x.scrubber.crates ⟨corpus.eventLog.records⟩ = .ok state := by
    rw [Cut.refState, EventLog.pushRecords_of_gapFree corpus.gapFree]
    dsimp only
    rw [hr]
  have hresolved : Cut.assertLinksResolved ⟨corpus.eventLog.records⟩ corpus.provenanceLinks = .ok () := by
    have hnone : corpus.provenanceLinks.find?
        (fun link => corpus.eventLog.records.length ≤ link.eventSeq.toNat) = none := by
      rw [List.find?_eq_none]
      intro link hlink
      simpa [EventLog.len] using hl link hlink
    rw [Cut.assertLinksResolved, hnone]
  have hgit (refs : List RefEntry) :
      writeGitArtifact quietHost (corpus.gitObjects.map x.exportedObject) refs = .ok () := by
    refine writeGitArtifact_quiet (fun o hmem => ?_) refs
    obtain ⟨q, hq, rfl⟩ := List.mem_map.mp hmem
    exact ho q hq
  obtain ⟨art, hart⟩ : ∃ art, x.writeArtifact quietHost
      (x.buildEnvelope corpus ⟨corpus.eventLog.records⟩ state ⟨x.laneRemovals intentLog corpus⟩
        (intentLog.intents.map x.exportedIntent) (corpus.journals.map x.exportedJournal))
      ⟨x.laneRemovals intentLog corpus⟩ (corpus.gitObjects.map x.exportedObject) = .ok art := by
    rw [writeArtifact, hgit]
    exact ⟨_, rfl⟩
  refine ⟨art, ?_⟩
  rw [exportCorpus]
  refine bind_eq_ok.mpr ⟨_, mapError_eq_ok.mpr hcut, ?_⟩
  refine bind_eq_ok.mpr ⟨_, hrefuse, ?_⟩
  refine bind_eq_ok.mpr ⟨_, mapError_eq_ok.mpr hstate, ?_⟩
  refine bind_eq_ok.mpr ⟨_, mapError_eq_ok.mpr (EventLog.pushRecords_of_gapFree corpus.gapFree), ?_⟩
  refine bind_eq_ok.mpr ⟨_, mapError_eq_ok.mpr hi, ?_⟩
  rw [run_redactLanes]
  refine bind_eq_ok.mpr ⟨_, mapError_eq_ok.mpr hresolved, ?_⟩
  exact bind_eq_ok.mpr ⟨_, mapError_eq_ok.mpr (x.validate_buildEnvelope corpus state _ _ _ hl), hart⟩

end Hugit
