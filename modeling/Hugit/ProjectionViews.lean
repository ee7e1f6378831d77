import Hugit.Fallible
import Hugit.Interleaving
import Hugit.JsonRecords
import Hugit.Redaction

/-! The projections of hook-captured ref updates, kept in a status file up to a cursor,
and the views that check the status against the log. A load checks it against the log it
has read, which another load may have left behind. -/

namespace Hugit

structure SourceIdentity where
  receiptId : String
  eventSeq : Nat
  eventHash : String
  deriving DecidableEq, Ord

structure ReceiptFacts where
  recordedAtMs : Nat
  refName : Option String
  targetOid : Option String
  branch : Option String
  checkoutTruth : Option String
  updateCount : Nat

structure SourceFact where
  identity : SourceIdentity
  facts : ReceiptFacts

inductive DerivedFact where
  | provenance (receiptId eventHash : String) (refName targetOid : Option String)
  | freshness (observedAtMs : Nat)
  | contextTimeline (branch checkoutTruth : Option String) (updateCount : Nat)
  deriving DecidableEq

inductive ProjectionOutcome where
  | applied (fact : DerivedFact)
  | skipped
  deriving DecidableEq

inductive ProjectionFailureCode where
  | projectorPanic
  | sourcePayloadInvalid
  | retryable

structure ProjectionRetry where
  source : SourceIdentity
  projector : String
  failure : ProjectionFailureCode

structure ProjectionApplied where
  source : SourceIdentity
  projector : String
  outcome : ProjectionOutcome

structure ProjectionStatus where
  cursor : Option Nat
  completed : List ProjectionApplied
  retry : Option ProjectionRetry

/-- A projector that panics is one that fails with `projectorPanic`. -/
structure Projector where
  name : String
  declare : SourceFact → Except ProjectionFailureCode ProjectionOutcome

structure PendingProjection where
  source : SourceIdentity
  projector : String
  deriving DecidableEq, Ord

structure ProjectionView where
  state : String
  applied : List ProjectionApplied
  retry : Option ProjectionRetry
  pending : List PendingProjection

def Value.nonEmptyStr (v : Value) (key : String) : Option String :=
  (v.fieldStr key).filter (· ≠ "")

def provenance (source : SourceFact) : DerivedFact :=
  .provenance source.identity.receiptId source.identity.eventHash source.facts.refName source.facts.targetOid

def freshness (source : SourceFact) : DerivedFact :=
  .freshness source.facts.recordedAtMs

def context (source : SourceFact) : DerivedFact :=
  .contextTimeline source.facts.branch source.facts.checkoutTruth source.facts.updateCount

def defaultProjectors : List Projector :=
  [⟨"provenance", fun source => .ok (.applied (provenance source))⟩,
    ⟨"freshness", fun source => .ok (.applied (freshness source))⟩,
    ⟨"context", fun source => .ok (.applied (context source))⟩]

/-- The projectors of one record. A failure ends the whole declaration. -/
def declareSource (source : SourceFact) : List Projector → ProjectionStatus → Except ProjectionStatus ProjectionStatus
  | [], status => .ok status
  | p :: ps, status =>
    if ∃ a ∈ status.completed, a.source = source.identity ∧ a.projector = p.name then declareSource source ps status
    else
      match p.declare source with
      | .error failure => .error { status with retry := some ⟨source.identity, p.name, failure⟩ }
      | .ok outcome => declareSource source ps
          { status with
            completed := status.completed ++ [⟨source.identity, p.name, outcome⟩]
            retry := status.retry.filter fun retry => ¬ (retry.source = source.identity ∧ retry.projector = p.name) }

def outcomeMatchesSource (projector : String) (outcome : ProjectionOutcome) (source : SourceFact) : Bool :=
  if projector = "provenance" then outcome = .applied (provenance source)
  else if projector = "freshness" then outcome = .applied (freshness source)
  else if projector = "context" then outcome = .applied (context source)
  else false

def checkApplied (sources : List SourceFact) (a : ProjectionApplied) : Except String PUnit :=
  match sources.reverse.find? fun source => source.identity = a.source with
  | none => .error ("projection " ++ a.projector ++ " references missing source receipt " ++ a.source.receiptId)
  | some source =>
    if outcomeMatchesSource a.projector a.outcome source then .ok ⟨⟩
    else .error ("projection " ++ a.projector ++ " does not match source receipt " ++ a.source.receiptId)

def requiredPairs (sources : List SourceFact) : List PendingProjection :=
  sources.flatMap fun source => defaultProjectors.map fun p => ⟨source.identity, p.name⟩

def incompletePairs (status : ProjectionStatus) (sources : List SourceFact) : List PendingProjection :=
  (requiredPairs sources).filter fun pair =>
    ¬ ∃ a ∈ status.completed, a.source = pair.source ∧ a.projector = pair.projector

def bindRetry (status : ProjectionStatus) (sources : List SourceFact) : Except String (Option PendingProjection) :=
  match status.retry with
  | none => .ok none
  | some retry =>
    let pair : PendingProjection := ⟨retry.source, retry.projector⟩
    if (∃ source ∈ sources, source.identity = retry.source) ∧
        (∃ p ∈ defaultProjectors, p.name = retry.projector) ∧ pair ∈ incompletePairs status sources ∧
        (requiredPairs sources).find? (· ∈ incompletePairs status sources) = some pair then .ok (some pair)
    else .error "projection retry does not bind first incomplete required projector"

variable (c : Crates)

def SourceFact.fromRecord (r : EventRecord) : Except String SourceFact :=
  if r.kind ≠ "ref.update" then .error "source event kind is not receipt-derived"
  else if r.principalChain ≠ ["orchestrator:hugit-hook"] then .error "source event principal is not hook capture"
  else
    match c.fromStr r.payload with
    | none => .error "source event payload is invalid"
    | some payload =>
      match payload.nonEmptyStr "receipt_id" with
      | none => .error "source event has no receipt identity"
      | some receiptId =>
        if r.thisHash = "" then .error "source event has no event identity"
        else .ok ⟨⟨receiptId, r.seq, r.thisHash⟩,
          { recordedAtMs := r.recordedAt
            refName := payload.nonEmptyStr "ref"
            targetOid := ((payload.nonEmptyStr "target").or (payload.nonEmptyStr "to")).or (payload.nonEmptyStr "new")
            branch := payload.nonEmptyStr "branch"
            checkoutTruth := (payload.get "checkout").bind fun checkout => checkout.nonEmptyStr "truth"
            updateCount := ((payload.get "updates").bind Serde.asArray).elim 0 List.length }⟩

def sourceFacts (records : List EventRecord) : List SourceFact :=
  records.filterMap fun r => (SourceFact.fromRecord c r).toOption

/-- `declare` with no limit on the records, as every load calls it. -/
def declareRecords : List EventRecord → ProjectionStatus → ProjectionStatus
  | [], status => status
  | r :: rs, status =>
    if ∃ cursor ∈ status.cursor, r.seq ≤ cursor then declareRecords rs status
    else
      match SourceFact.fromRecord c r with
      | .error _ => declareRecords rs { status with cursor := some r.seq }
      | .ok source =>
        match declareSource source defaultProjectors status with
        | .error status => status
        | .ok status => declareRecords rs { status with cursor := some r.seq }

/-- The locked part of a load: the status file is read, brought up to date and written. -/
def materialize (stored : Option ProjectionStatus) (records : List EventRecord) : ProjectionStatus :=
  declareRecords c records (stored.getD ⟨none, [], none⟩)

def validateStatus (status : ProjectionStatus) (records : List EventRecord) :
    Except String (List PendingProjection) := do
  let sources := sourceFacts c records
  status.completed.forM (checkApplied sources)
  let retryPair ← bindRetry status sources
  let ordered := (incompletePairs status sources).dedup.mergeSort fun a b => (compare a b).isLE
  (ordered.filter fun pair => some pair ≠ retryPair).mapM fun pair =>
    if pair.source.eventSeq ≤ status.cursor.getD 0 then
      .error "projection has missing attempted required projector"
    else .ok pair

def projectionView (status : ProjectionStatus) (records : List EventRecord) : Except String ProjectionView := do
  let pending ← validateStatus c status records
  return ⟨if status.retry.isSome ∨ pending ≠ [] then "partial" else "complete", status.completed, status.retry, pending⟩

structure ProjectionStore where
  log : List EventRecord
  status : Option ProjectionStatus

/-- A load between its steps. -/
inductive LoadThread where
  | called
  | read (records : List EventRecord)
  | returned (records : List EventRecord) (result : Except String ProjectionView)
  | unlocked

namespace LoadThread

/-- A load that cannot read the log or obtain the lock ends without the lock. -/
inductive Act : ProjectionStore → LoadThread → ProjectionStore → LoadThread → Prop
  | read (s : ProjectionStore) : Act s called s (read s.log)
  | load (s : ProjectionStore) (records : List EventRecord) :
      Act s (read records) ⟨s.log, some (materialize c s.status records)⟩
        (returned records (projectionView c (materialize c s.status records) records))
  | fail (s : ProjectionStore) (t : LoadThread) : Act s t s unlocked

/-- The log that the load has read reaches the cursor of the status. -/
def Reaches (s : ProjectionStore) : LoadThread → Prop
  | read records => ∀ status cursor, s.status = some status → status.cursor = some cursor → cursor < records.length
  | called | returned _ _ | unlocked => True

def FreshAct (s : ProjectionStore) (t : LoadThread) (s' : ProjectionStore) (t' : LoadThread) : Prop :=
  t.Reaches s ∧ Act c s t s' t'

end LoadThread

/-- Appends, and redactions of records that are no markers. -/
inductive LogStep (allowed : List EventRecord → RedactionStep → Prop) : ProjectionStore → ProjectionStore → Prop
  | append (s : ProjectionStore) (kind : String) (principalChain : List String) (payload : String) (recordedAt : Nat) :
      LogStep allowed s ⟨(EventLog.append c ⟨s.log⟩ kind principalChain payload recordedAt).2.records, s.status⟩
  | redact {s : ProjectionStore} {step : RedactionStep} {log : List EventRecord} (hallowed : allowed s.log step)
      (h : redactionStep c s.log step = some log) : LogStep allowed s ⟨log, s.status⟩

/-- The redaction leaves what is projected from the record as it is. -/
def KeepsFact (records : List EventRecord) (step : RedactionStep) : Prop :=
  ∀ r, records[step.position]? = some r →
    SourceFact.fromRecord c (redactRecord c r step.principals step.payload).1 = SourceFact.fromRecord c r

/-- Any number of loads, spawned at any time, on a log that grows and is redacted. -/
abbrev LoadRun (allowed : List EventRecord → RedactionStep → Prop)
    (act : ProjectionStore → LoadThread → ProjectionStore → LoadThread → Prop) :
    System ProjectionStore LoadThread → System ProjectionStore LoadThread → Prop :=
  System.Reachable (fun t => t = LoadThread.called) (LogStep c allowed) fun _ => act

def projections (source : SourceFact) : List ProjectionApplied :=
  [⟨source.identity, "provenance", .applied (provenance source)⟩,
    ⟨source.identity, "freshness", .applied (freshness source)⟩,
    ⟨source.identity, "context", .applied (context source)⟩]

/-- The load succeeded and lists exactly the projections of the log it read. -/
def LoadThread.Complete : LoadThread → Prop
  | returned records result => ∃ view, result = .ok view ∧ view.state = "complete" ∧ view.applied.Nodup ∧
      ∀ a, a ∈ view.applied ↔ ∃ r ∈ records, ∃ source, SourceFact.fromRecord c r = .ok source ∧ a ∈ projections source
  | called | read _ | unlocked => True

variable {c}

variable {source : SourceFact}

theorem declareSource_new {cursor : Option Nat} {completed : List ProjectionApplied}
    (h : ∀ a ∈ completed, a.source ≠ source.identity) :
    declareSource source defaultProjectors ⟨cursor, completed, none⟩ =
      .ok ⟨cursor, completed ++ projections source, none⟩ := by
  have hnew (p : String) : ¬ ∃ a ∈ completed, a.source = source.identity ∧ a.projector = p :=
    fun ⟨a, ha, hs, _⟩ => h a ha hs
  simp [declareSource, defaultProjectors, projections, hnew, or_and_right, exists_or]

def marks (c : Crates) (records : List EventRecord) : List (Nat × Option SourceFact) :=
  records.map fun r => (r.seq, (SourceFact.fromRecord c r).toOption)

def Numbered (ms : List (Nat × Option SourceFact)) : Prop :=
  ∀ (i : Nat) m, ms[i]? = some m → m.1 = i ∧ ∀ source, m.2 = some source → source.identity.eventSeq = i

def projectedFrom (ms : List (Nat × Option SourceFact)) : List ProjectionApplied :=
  (ms.filterMap Prod.snd).flatMap projections

def statusAt (ms : List (Nat × Option SourceFact)) : ProjectionStatus :=
  ⟨ms.getLast?.map Prod.fst, projectedFrom ms, none⟩

theorem eventSeq_of_fromRecord {r : EventRecord} (h : SourceFact.fromRecord c r = .ok source) :
    source.identity.eventSeq = r.seq := by
  unfold SourceFact.fromRecord at h
  cases hp : c.fromStr r.payload with
  | none =>
    rw [hp] at h
    split_ifs at h
  | some payload =>
    rw [hp] at h
    dsimp only at h
    cases hid : payload.nonEmptyStr "receipt_id" with
    | none =>
      rw [hid] at h
      split_ifs at h
    | some receiptId =>
      rw [hid] at h
      split_ifs at h
      cases h
      rfl

variable {records : List EventRecord}

theorem numbered_marks (h : GapFree records) : Numbered (marks c records) := by
  intro i m hm
  obtain ⟨r, hr, rfl⟩ := Option.map_eq_some_iff.mp ((List.getElem?_map ..).symm.trans hm)
  refine ⟨h i r hr, fun source hs => ?_⟩
  cases hf : SourceFact.fromRecord c r with
  | error e => simp [hf, Except.toOption] at hs
  | ok found =>
    obtain rfl : found = source := by simpa [hf, Except.toOption] using hs
    exact (eventSeq_of_fromRecord hf).trans (h i r hr)

variable {ms : List (Nat × Option SourceFact)}

theorem Numbered.take (h : Numbered ms) (n : Nat) : Numbered (ms.take n) := by
  intro i m hm
  rw [List.getElem?_take] at hm
  split_ifs at hm
  exact h i m hm

variable {a : ProjectionApplied}

theorem eventSeq_lt_of_mem (h : Numbered ms) (ha : a ∈ projectedFrom ms) : a.source.eventSeq < ms.length := by
  obtain ⟨source, hs, ha⟩ := List.mem_flatMap.mp ha
  obtain ⟨m, hm, hsource⟩ := List.mem_filterMap.mp hs
  obtain ⟨i, hi⟩ := List.mem_iff_getElem?.mp hm
  have hid : a.source = source.identity := by
    simp only [projections, List.mem_cons, List.not_mem_nil, or_false] at ha
    rcases ha with rfl | rfl | rfl <;> rfl
  rw [hid, (h i m hi).2 source hsource]
  exact (List.getElem?_eq_some_iff.mp hi).1

theorem statusAt_concat_none (ms : List (Nat × Option SourceFact)) (seq : Nat) :
    statusAt (ms ++ [(seq, none)]) = { statusAt ms with cursor := some seq } := by
  simp [statusAt, projectedFrom]

theorem statusAt_concat_some (ms : List (Nat × Option SourceFact)) (seq : Nat) (source : SourceFact) :
    statusAt (ms ++ [(seq, some source)]) = ⟨some seq, projectedFrom ms ++ projections source, none⟩ := by
  simp [statusAt, projectedFrom]

theorem Numbered.left {ms rest : List (Nat × Option SourceFact)} (h : Numbered (ms ++ rest)) : Numbered ms := by
  have htake := h.take ms.length
  rwa [List.take_left] at htake

theorem cursor_statusAt (h : Numbered ms) {cursor : Nat} :
    cursor ∈ (statusAt ms).cursor ↔ cursor + 1 = ms.length := by
  rcases ms.eq_nil_or_concat with rfl | ⟨rest, m, rfl⟩
  · simp [statusAt]
  · have hm := (h rest.length m (by simp)).1
    simp only [statusAt, List.concat_eq_append, List.getLast?_append, List.getLast?_singleton, Option.some_or,
      Option.map_some, Option.mem_some_iff, List.length_append, List.length_singleton]
    omega

theorem declareRecords_statusAt (post : List EventRecord) : ∀ {pre : List (Nat × Option SourceFact)},
    Numbered (pre ++ marks c post) → declareRecords c post (statusAt pre) = statusAt (pre ++ marks c post) := by
  induction post with
  | nil => intro pre _; simp [declareRecords, marks]
  | cons r rs ih =>
    intro pre h
    have hsplit : pre ++ marks c (r :: rs) =
        (pre ++ [(r.seq, (SourceFact.fromRecord c r).toOption)]) ++ marks c rs := by simp [marks]
    rw [hsplit] at h ⊢
    have hseq : r.seq = pre.length :=
      (h.left pre.length (r.seq, (SourceFact.fromRecord c r).toOption) (by simp)).1
    have hbehind : ¬ ∃ cursor ∈ (statusAt pre).cursor, r.seq ≤ cursor := by
      rintro ⟨cursor, hcursor, hle⟩
      have hlast := (cursor_statusAt h.left.left).mp hcursor
      omega
    rw [declareRecords, if_neg hbehind, ← ih h]
    cases hf : SourceFact.fromRecord c r with
    | error e =>
      simp only [Except.toOption]
      rw [statusAt_concat_none]
    | ok source =>
      have hnew : ∀ a ∈ projectedFrom pre, a.source ≠ source.identity := by
        intro a ha hsame
        have hlt := eventSeq_lt_of_mem h.left.left ha
        rw [hsame, eventSeq_of_fromRecord hf, hseq] at hlt
        exact lt_irrefl _ hlt
      simp only [Except.toOption]
      rw [statusAt_concat_some, statusAt, declareSource_new hnew]

theorem declareRecords_skip (post : List EventRecord) {status : ProjectionStatus} (pre : List EventRecord)
    (h : ∀ r ∈ pre, ∃ cursor ∈ status.cursor, r.seq ≤ cursor) :
    declareRecords c (pre ++ post) status = declareRecords c post status := by
  induction pre with
  | nil => rfl
  | cons r rs ih =>
    rw [List.cons_append, declareRecords, if_pos (h r List.mem_cons_self)]
    exact ih fun x hx => h x (List.mem_cons_of_mem r hx)

theorem declareRecords_resumes (hg : GapFree records) {n : Nat} (hn : n ≤ records.length) :
    declareRecords c records (statusAt ((marks c records).take n)) = statusAt (marks c records) := by
  have hnumbered := numbered_marks (c := c) hg
  have hmarks : (marks c records).take n ++ marks c (records.drop n) = marks c records := by
    simp only [marks, ← List.map_take, ← List.map_append, List.take_append_drop]
  have hskipped : ∀ r ∈ records.take n, ∃ cursor ∈ (statusAt ((marks c records).take n)).cursor, r.seq ≤ cursor := by
    intro r hr
    obtain ⟨i, hi⟩ := List.mem_iff_getElem?.mp hr
    have hlt : i < n := lt_of_lt_of_le (List.getElem?_eq_some_iff.mp hi).1 (List.length_take_le n records)
    refine ⟨n - 1, (cursor_statusAt (hnumbered.take n)).mpr ?_, ?_⟩
    · simp only [marks, List.length_take, List.length_map]
      omega
    · rw [hg.take n i r hi]
      omega
  rw [← hmarks] at hnumbered
  have hall := declareRecords_skip (c := c) (records.drop n) (records.take n) hskipped
  rw [List.take_append_drop] at hall
  rw [hall, declareRecords_statusAt _ hnumbered, hmarks]

theorem sourceFacts_eq (records : List EventRecord) : sourceFacts c records = (marks c records).filterMap Prod.snd := by
  simp only [sourceFacts, marks, List.filterMap_map]
  rfl

theorem Numbered.increasing (h : Numbered ms) :
    (ms.filterMap Prod.snd).Pairwise fun s t => s.identity.eventSeq < t.identity.eventSeq := by
  rw [List.pairwise_filterMap, List.pairwise_iff_getElem]
  intro i j hi hj hij s hs t ht
  rw [(h i _ (List.getElem?_eq_getElem hi)).2 s hs, (h j _ (List.getElem?_eq_getElem hj)).2 t ht]
  exact hij

theorem eq_of_identity_eq {sources : List SourceFact}
    (h : sources.Pairwise fun s t => s.identity.eventSeq < t.identity.eventSeq) {s t : SourceFact} (hs : s ∈ sources)
    (ht : t ∈ sources) (hid : s.identity = t.identity) : s = t := by
  have hdistinct : (sources.map fun s => s.identity.eventSeq).Nodup :=
    List.pairwise_map.mpr (h.imp fun hlt => hlt.ne)
  exact List.inj_on_of_nodup_map hdistinct hs ht (congrArg SourceIdentity.eventSeq hid)

theorem find?_identity {sources : List SourceFact}
    (h : sources.Pairwise fun s t => s.identity.eventSeq < t.identity.eventSeq) {s : SourceFact} (hs : s ∈ sources) :
    sources.reverse.find? (fun source => source.identity = s.identity) = some s := by
  cases hfind : sources.reverse.find? (fun source => source.identity = s.identity) with
  | none =>
    have hnone := List.find?_eq_none.mp hfind s (List.mem_reverse.mpr hs)
    simp at hnone
  | some t =>
    have hid : t.identity = s.identity := by simpa using List.find?_some hfind
    have ht := List.mem_reverse.mp (List.mem_of_find?_eq_some hfind)
    rw [eq_of_identity_eq h ht hs hid]

theorem outcomeMatchesSource_of_mem (h : a ∈ projections source) :
    a.source = source.identity ∧ outcomeMatchesSource a.projector a.outcome source = true := by
  simp only [projections, List.mem_cons, List.not_mem_nil, or_false] at h
  rcases h with rfl | rfl | rfl <;> simp [outcomeMatchesSource]

theorem incompletePairs_statusAt (ms : List (Nat × Option SourceFact)) :
    incompletePairs (statusAt ms) (ms.filterMap Prod.snd) = [] := by
  refine List.filter_eq_nil_iff.mpr fun pair hpair => ?_
  obtain ⟨source, hs, hpair⟩ := List.mem_flatMap.mp hpair
  obtain ⟨p, hp, rfl⟩ := List.mem_map.mp hpair
  have hdone : ∃ a ∈ projections source, a.source = source.identity ∧ a.projector = p.name := by
    simp only [defaultProjectors, List.mem_cons, List.not_mem_nil, or_false] at hp
    rcases hp with rfl | rfl | rfl <;> simp [projections]
  obtain ⟨a, ha, hname⟩ := hdone
  have hmem : a ∈ (statusAt ms).completed := List.mem_flatMap.mpr ⟨source, hs, ha⟩
  simpa using ⟨a, hmem, hname⟩

theorem validateStatus_statusAt (hg : GapFree records) :
    validateStatus c (statusAt (marks c records)) records = .ok [] := by
  have hincreasing := (numbered_marks (c := c) hg).increasing
  have hchecked : (statusAt (marks c records)).completed.forM
      (checkApplied ((marks c records).filterMap Prod.snd)) = .ok ⟨⟩ := by
    refine forM_eq_ok fun a ha => ?_
    obtain ⟨source, hs, ha⟩ := List.mem_flatMap.mp ha
    obtain ⟨hid, hmatches⟩ := outcomeMatchesSource_of_mem ha
    rw [checkApplied, hid, find?_identity hincreasing hs]
    simp [hmatches]
  unfold validateStatus
  simp only [sourceFacts_eq, incompletePairs_statusAt]
  rw [hchecked]
  simp [bindRetry, statusAt, bind, Except.bind, pure, Except.pure]

theorem nodup_projectedFrom (h : Numbered ms) : (projectedFrom ms).Nodup := by
  refine List.nodup_flatMap.mpr ⟨fun source _ => by simp [projections], ?_⟩
  refine h.increasing.imp fun hlt a ha hb => ?_
  rw [← (outcomeMatchesSource_of_mem ha).1, ← (outcomeMatchesSource_of_mem hb).1] at hlt
  exact lt_irrefl _ hlt

theorem mem_projectedFrom :
    a ∈ projectedFrom (marks c records) ↔
      ∃ r ∈ records, ∃ source, SourceFact.fromRecord c r = .ok source ∧ a ∈ projections source := by
  rw [projectedFrom, ← sourceFacts_eq, List.mem_flatMap]
  constructor
  · rintro ⟨source, hs, ha⟩
    obtain ⟨r, hr, hf⟩ := List.mem_filterMap.mp hs
    cases hrecord : SourceFact.fromRecord c r with
    | error e => simp [hrecord, Except.toOption] at hf
    | ok found =>
      obtain rfl : found = source := by simpa [hrecord, Except.toOption] using hf
      exact ⟨r, hr, found, hrecord, ha⟩
  · rintro ⟨r, hr, source, hf, ha⟩
    exact ⟨source, List.mem_filterMap.mpr ⟨r, hr, by rw [hf]; rfl⟩, ha⟩

theorem projectionView_statusAt (hg : GapFree records) :
    (LoadThread.returned records (projectionView c (statusAt (marks c records)) records)).Complete c := by
  refine ⟨⟨"complete", projectedFrom (marks c records), none, []⟩, ?_, rfl, nodup_projectedFrom (numbered_marks hg),
    fun a => mem_projectedFrom⟩
  rw [projectionView, validateStatus_statusAt hg]
  rfl

def StatusCurrent (c : Crates) (s : ProjectionStore) : Prop :=
  GapFree s.log ∧ ∃ n ≤ s.log.length, s.status.getD ⟨none, [], none⟩ = statusAt ((marks c s.log).take n)

/-- What a load has read was the log at some time, as far as the projections see it. -/
def LoadThread.Sound (c : Crates) (s : ProjectionStore) : LoadThread → Prop
  | .read records => GapFree records ∧ marks c records = (marks c s.log).take records.length
  | .returned records result => (LoadThread.returned records result).Complete c
  | .called | .unlocked => True

variable {s s' : ProjectionStore}

theorem LogStep.extends (hg : GapFree s.log) (h : LogStep c (KeepsFact c) s s') :
    GapFree s'.log ∧ s'.status = s.status ∧ s'.log.length = s.log.length + 1 ∧
      ∃ m, marks c s'.log = marks c s.log ++ [m] := by
  cases h with
  | append kind principalChain payload recordedAt =>
    refine ⟨hg.concat rfl, rfl, by simp [EventLog.append], ?_⟩
    exact ⟨_, by simp [EventLog.append, marks]; rfl⟩
  | @redact step log hkeeps h =>
    obtain ⟨r, hr, hkind, rfl⟩ := redactionStep_eq_some.mp h
    refine ⟨(scrub_gapFree hr hg).concat rfl, rfl, by simp [scrub], ?_⟩
    have hsame : marks c (scrub c s.log step r) = marks c s.log := by
      refine map_set_same hr ?_
      rw [hkeeps r hr]
      rfl
    exact ⟨_, by rw [← hsame]; simp [marks]; rfl⟩

theorem length_le_of_marks {records log : List EventRecord} (h : marks c records = (marks c log).take records.length) :
    records.length ≤ log.length := by
  have hlen := congrArg List.length h
  simp only [marks, List.length_map, List.length_take] at hlen
  omega

theorem LogStep.keeps (hs : StatusCurrent c s) (h : LogStep c (KeepsFact c) s s') :
    StatusCurrent c s' ∧ ∀ t : LoadThread, t.Sound c s → t.Sound c s' := by
  obtain ⟨hg, n, hn, hstatus⟩ := hs
  obtain ⟨hg', hsame, hlen, m, hmarks⟩ := h.extends hg
  have htake : ∀ k ≤ s.log.length, (marks c s'.log).take k = (marks c s.log).take k := by
    intro k hk
    rw [hmarks, List.take_append_of_le_length (by simpa [marks] using hk)]
  refine ⟨⟨hg', n, by omega, by rw [hsame, htake n hn, hstatus]⟩, fun t ht => ?_⟩
  cases t with
  | read records => exact ⟨ht.1, by rw [htake _ (length_le_of_marks ht.2)]; exact ht.2⟩
  | returned | called | unlocked => exact ht

theorem materialize_of_reaches (hs : StatusCurrent c s) (ht : (LoadThread.read records).Sound c s)
    (hreaches : (LoadThread.read records).Reaches s) :
    materialize c s.status records = statusAt (marks c records) := by
  obtain ⟨hg, n, hn, hstatus⟩ := hs
  have hcursor : n ≤ records.length := by
    by_contra hlt
    have hlast : n - 1 ∈ (statusAt ((marks c s.log).take n)).cursor := by
      refine (cursor_statusAt ((numbered_marks hg).take n)).mpr ?_
      simp only [marks, List.length_take, List.length_map]
      omega
    cases hstored : s.status with
    | none =>
      rw [← hstatus, hstored] at hlast
      cases hlast
    | some status =>
      rw [← hstatus, hstored] at hlast
      have hshort := hreaches status (n - 1) hstored hlast
      omega
  have hread : (marks c s.log).take n = (marks c records).take n := by
    rw [ht.2, List.take_take, min_eq_left hcursor]
  rw [materialize, hstatus, hread, declareRecords_resumes ht.1 hcursor]

theorem LoadThread.FreshAct.keeps {t t' : LoadThread} (hs : StatusCurrent c s) (ht : t.Sound c s)
    (h : t.FreshAct c s s' t') : StatusCurrent c s' ∧ t'.Sound c s' ∧ s'.log = s.log := by
  obtain ⟨hreaches, hact⟩ := h
  cases hact with
  | read => exact ⟨hs, ⟨hs.1, by simp [marks]⟩, rfl⟩
  | load records =>
    rw [materialize_of_reaches hs ht hreaches]
    exact ⟨⟨hs.1, records.length, length_le_of_marks ht.2, congrArg statusAt ht.2⟩, projectionView_statusAt ht.1, rfl⟩
  | fail => exact ⟨hs, trivial, rfl⟩

/-- In every history in which redactions leave the projected facts as they are and no load
goes on with a log that ends before the cursor, every load that obtains the lock lists
exactly the projections of the log it read. -/
theorem fresh_loads_complete {start : List EventRecord} (hstart : GapFree start)
    {s : System ProjectionStore LoadThread}
    (h : LoadRun c (KeepsFact c) (LoadThread.FreshAct c) ⟨⟨start, none⟩, []⟩ s) : ∀ t ∈ s.threads, t.Complete c := by
  have hholds : s.Holds (fun _ st => StatusCurrent c st) fun _ st t => t.Sound c st := by
    refine System.Reachable.holds ?_ ?_ ?_ h ⟨⟨hstart, 0, Nat.zero_le _, rfl⟩, fun i t hi => by simp at hi⟩
    · rintro n st t hst rfl
      exact ⟨hst, trivial⟩
    · intro n st st' hst henv
      obtain ⟨hst', hsound⟩ := henv.keeps hst
      exact ⟨hst', fun i t ht => hsound t ht⟩
    · intro n i st t st' t' hst _ ht hact
      obtain ⟨hst', ht', hlog⟩ := hact.keeps hst ht
      refine ⟨hst', ht', fun j u _ hu => ?_⟩
      cases u with
      | read records => exact ⟨hu.1, by rw [hlog]; exact hu.2⟩
      | returned | called | unlocked => exact hu
  intro t ht
  obtain ⟨i, hi⟩ := List.mem_iff_getElem?.mp ht
  have hsound := hholds.2 i t hi
  cases t with
  | returned records result => exact hsound
  | called | read | unlocked => trivial

def capturedLog : List EventRecord :=
  (EventLog.append reference ⟨[]⟩ "ref.update" ["orchestrator:hugit-hook"] "\x7b\"receipt_id\":\"r\"\x7d" 0).2.records

theorem gapFree_capturedLog : GapFree capturedLog :=
  GapFree.concat (fun i r hi => by simp at hi) rfl

theorem fresh_load_complete : ∃ s result, LoadRun reference (KeepsFact reference) (LoadThread.FreshAct reference)
      ⟨⟨capturedLog, none⟩, []⟩ s ∧ s.threads = [.returned capturedLog result] ∧
    (LoadThread.returned capturedLog result).Complete reference := by
  have hreaches : (LoadThread.read capturedLog).Reaches ⟨capturedLog, none⟩ := fun _ _ h => nomatch h
  have hrun : LoadRun reference (KeepsFact reference) (LoadThread.FreshAct reference) ⟨⟨capturedLog, none⟩, []⟩ _ :=
    ((Relation.ReflTransGen.single (.spawn rfl)).tail (.act (i := 0) rfl ⟨trivial, .read _⟩)).tail
      (.act (i := 0) rfl ⟨hreaches, .load _ capturedLog⟩)
  exact ⟨_, _, hrun, rfl, fresh_loads_complete gapFree_capturedLog hrun _ List.mem_cons_self⟩

theorem fromRecord_captured {r : EventRecord} (hkind : r.kind = "ref.update")
    (hprincipals : r.principalChain = ["orchestrator:hugit-hook"]) {v : Value} (hv : c.fromStr r.payload = some v)
    {id : String} (hid : v.nonEmptyStr "receipt_id" = some id) (hhash : r.thisHash ≠ "") :
    ∃ source, SourceFact.fromRecord c r = .ok source := by
  rw [SourceFact.fromRecord, if_neg (not_not.mpr hkind), if_neg (not_not.mpr hprincipals), hv]
  simp only [hid, if_neg hhash]
  exact ⟨_, rfl⟩

theorem stale_view_error {r : EventRecord} (h : SourceFact.fromRecord c r = .ok source) (hseq : r.seq = 0) :
    ∃ e, projectionView c (materialize c (some (materialize c none [r])) []) [] = .error e := by
  have hg : GapFree [r] := @GapFree.concat [] (fun i x hi => by simp at hi) r hseq
  have hfirst : materialize c none [r] = statusAt (marks c [r]) := declareRecords_resumes hg (Nat.zero_le _)
  have hmarks : marks c [r] = [(0, some source)] := by
    simp [marks, h, hseq, Except.toOption]
  rw [hfirst, hmarks]
  exact ⟨_, rfl⟩

/-- A load reads the empty log; a ref update is captured, and another load projects it;
the first load then does not know the source of what is stored. -/
theorem stale_load_fails : ∃ s, LoadRun reference (fun _ _ => True) (LoadThread.Act reference) ⟨⟨[], none⟩, []⟩ s ∧
    ∃ t ∈ s.threads, ¬ t.Complete reference := by
  have hparsed : (reference.fromStr "\x7b\"receipt_id\":\"r\"\x7d").bind (fun v => v.nonEmptyStr "receipt_id") =
      some "r" := by decide +kernel
  obtain ⟨v, hv, hid⟩ := Option.bind_eq_some_iff.mp hparsed
  obtain ⟨source, hsource⟩ := @fromRecord_captured reference
    (EventLog.nextRecord reference [] "ref.update" ["orchestrator:hugit-hook"] "\x7b\"receipt_id\":\"r\"\x7d" 0)
    rfl rfl v hv "r" hid (computeThisHash_ne reference_sound (by decide) _ _ _ _ _)
  obtain ⟨e, herror⟩ := stale_view_error hsource rfl
  have hrun : LoadRun reference (fun _ _ => True) (LoadThread.Act reference) ⟨⟨[], none⟩, []⟩ _ :=
    ((((((Relation.ReflTransGen.single (.spawn rfl)).tail (.act (i := 0) rfl (.read _))).tail
      (.env (.append _ "ref.update" ["orchestrator:hugit-hook"] "\x7b\"receipt_id\":\"r\"\x7d" 0))).tail
      (.spawn rfl)).tail (.act (i := 1) rfl (.read _))).tail (.act (i := 1) rfl (.load _ _))).tail
      (.act (i := 0) rfl (.load _ []))
  refine ⟨_, hrun, _, List.mem_cons_self, ?_⟩
  rintro ⟨view, hview, -⟩
  exact nomatch hview.symm.trans herror

end Hugit
