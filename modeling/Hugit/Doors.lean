import Hugit.Redaction
import Hugit.Serializer

/-! The append doors of the log. A door whose caller chooses the kind can write a
redaction marker, so the log stays readable as long as such markers tell the truth. -/

namespace Hugit

/-- A call to one of the doors. A submission that the gate or the writer refuses
is one that is not admitted. -/
inductive Door where
  | appendAuthorized (principal : PrincipalClass) (endpoint : Endpoint) (kind : String)
      (principalChain : List String) (payload : String) (recordedAt : Nat)
  | appendExternalChange (kind : ExternalChangeKind) (principalChain : List String)
      (payload : String) (recordedAt : Nat)
  | undo (target : Nat) (principalChain : List String) (recordedAt : Nat)
  | importSidecar (sidecar : IntentSidecar) (refName target : String)
      (principalChain : List String) (recordedAt : Nat)
  | submit (op : Op) (admitted : Bool)

def Door.run (c : Crates) (log : EventLog) : Door → EventLog
  | appendAuthorized principal endpoint kind principalChain payload recordedAt =>
    (log.appendAuthorized c principal endpoint kind principalChain payload recordedAt).2
  | appendExternalChange kind principalChain payload recordedAt =>
    (log.appendExternalChange c kind principalChain payload recordedAt).2
  | undo target principalChain recordedAt =>
    (Hugit.undo c log target principalChain recordedAt).2
  | importSidecar sidecar refName target principalChain recordedAt =>
    (Hugit.importSidecar c log sidecar refName target principalChain recordedAt).2
  | submit op admitted => if admitted then (submitLocked c log op).2 else log

def runDoors (c : Crates) (log : EventLog) (doors : List Door) : EventLog :=
  doors.foldl (fun log door => door.run c log) log

theorem Door.run_extended (c : Crates) (log : EventLog) (door : Door) :
    log.Extended c (door.run c log) := by
  cases door with
  | appendAuthorized principal endpoint kind principalChain payload recordedAt =>
    cases ha : authorizeClass principal endpoint with
    | allow =>
      simp only [run, EventLog.appendAuthorized, ha]
      exact .appended _ _ _ _
    | deny reason =>
      simp only [run, EventLog.appendAuthorized, ha]
      exact .appended _ _ _ _
  | appendExternalChange kind principalChain payload recordedAt => exact .appended _ _ _ _
  | undo target principalChain recordedAt =>
    have h := (Call.undo target principalChain recordedAt).locked_accounted c log
    simp only [run, ← undoLocked_snd]
    exact h.extended
  | importSidecar sidecar refName target principalChain recordedAt =>
    have h := (Call.importSidecar sidecar refName target principalChain recordedAt).locked_accounted c log
    simp only [run, ← importLocked_snd]
    exact h.extended
  | submit op admitted =>
    cases admitted with
    | false => exact .same
    | true => exact ((Call.submit op).locked_accounted c log).extended

/-- If the step appends a marker, the marker commits an earlier record to the
hash it has. -/
def Truthful (c : Crates) (log log' : EventLog) : Prop :=
  ∀ r, log'.records = log.records ++ [r] → ∀ w, marker c r = some w →
    ∃ x, log.records[w.1]? = some x ∧ w.2 = ⟨x.thisHash, x.thisHash⟩

variable {c : Crates} {log : EventLog}

theorem truthful_append {kind : String} {principalChain : List String} {payload : String} {recordedAt : Nat}
    (h : ∀ w, marker c (log.append c kind principalChain payload recordedAt).1 = some w →
      ∃ x, log.records[w.1]? = some x ∧ w.2 = ⟨x.thisHash, x.thisHash⟩) :
    Truthful c log (log.append c kind principalChain payload recordedAt).2 := by
  intro r hr w hw
  obtain rfl : (log.append c kind principalChain payload recordedAt).1 = r := by simpa using hr
  exact h w hw

def TruthfulRun (c : Crates) : EventLog → List Door → Prop
  | _, [] => True
  | log, door :: doors => Truthful c log (door.run c log) ∧ TruthfulRun c (door.run c log) doors

/-- The invariant behind readability: no stored hash is stale, and no marker
waits for a later record. -/
structure Readable (c : Crates) (log : EventLog) : Prop where
  verifies : verifyChain c log.records = .ok ()
  own : ∀ r ∈ log.records, r.recompute c = r.thisHash
  earlier : ∀ r ∈ log.records, ∀ w, marker c r = some w → w.1 < log.len

theorem Readable.append (h : Readable c log) {kind : String} {principalChain : List String} {payload : String}
    {recordedAt : Nat} (ht : Truthful c log (log.append c kind principalChain payload recordedAt).2) :
    Readable c (log.append c kind principalChain payload recordedAt).2 := by
  have hfree : NextUnnamed c log := fun r hr w hw => (h.earlier r hr w hw).ne
  have hmem {r : EventRecord} (hr : r ∈ (log.append c kind principalChain payload recordedAt).2.records) :
      r ∈ log.records ∨ r = (log.append c kind principalChain payload recordedAt).1 := by
    simpa using hr
  refine ⟨verifyChain_append h.verifies hfree.redactions fun w hw => .inr ?_, fun r hr => ?_,
    fun r hr w hw => ?_⟩
  · obtain ⟨x, hx, hk⟩ := ht _ rfl w hw
    rw [hk]
    exact ⟨x, hx, rfl, h.own x (List.mem_of_getElem? hx)⟩
  · rcases hmem hr with hr | rfl
    · exact h.own r hr
    · rfl
  · have hlen : (log.append c kind principalChain payload recordedAt).2.len = log.len + 1 := by
      simp [EventLog.len]
    rw [hlen]
    rcases hmem hr with hr | rfl
    · exact (h.earlier r hr w hw).trans (Nat.lt_succ_self _)
    · obtain ⟨x, hx, _⟩ := ht _ rfl w hw
      exact (List.getElem?_eq_some_iff.mp hx).1.trans (Nat.lt_succ_self _)

theorem Readable.run (h : Readable c log) {door : Door} (ht : Truthful c log (door.run c log)) :
    Readable c (door.run c log) := by
  have he := door.run_extended c log
  generalize door.run c log = log' at he ht ⊢
  cases he with
  | same => exact h
  | appended kind principalChain payload recordedAt => exact h.append ht

theorem Readable.runDoors (h : Readable c log) {doors : List Door} (ht : TruthfulRun c log doors) :
    Readable c (runDoors c log doors) := by
  induction doors generalizing log with
  | nil => exact h
  | cons door doors ih => exact ih (h.run ht.1) ht.2

theorem readable_empty (c : Crates) : Readable c .empty :=
  ⟨rfl, by simp [EventLog.empty], by simp [EventLog.empty]⟩

theorem TruthfulRun.of_append {doors later : List Door} (h : TruthfulRun c log (doors ++ later)) :
    TruthfulRun c log doors := by
  induction doors generalizing log with
  | nil => trivial
  | cons door doors ih => exact ⟨h.1, ih h.2⟩

/-- Every log reached from the empty one is accepted, as long as the markers
that callers append are true. -/
theorem runDoors_verifies {c : Crates} {doors : List Door} (h : TruthfulRun c .empty doors) :
    ∀ reached later, reached ++ later = doors →
      verifyChain c (runDoors c .empty reached).records = .ok () := by
  rintro reached later rfl
  exact ((readable_empty c).runDoors h.of_append).verifies

def pushAndRestate (c : Crates) : List Door :=
  let hash := (EventLog.append c .empty "ref.update" ["user:a"] "" 1).1.thisHash
  [.appendExternalChange .refUpdate ["user:a"] "" 1,
    .appendAuthorized .human .push provenanceRedactionKind ["user:a"]
      (RedactionCommitment.toPayload c ⟨hash, hash⟩ 0) 2]

theorem pushAndRestate_truthful (hc : c.Sound) : TruthfulRun c .empty (pushAndRestate c) := by
  refine ⟨truthful_append fun w hw => ?_, truthful_append fun w hw => ?_, trivial⟩
  · simp [marker, EventLog.nextRecord, ExternalChangeKind.asKind, provenanceRedactionKind] at hw
  · have hne : (EventLog.append c .empty "ref.update" ["user:a"] "" 1).1.thisHash ≠ "" :=
      computeThisHash_ne hc (by decide) _ _ _ _ _
    rw [marker_append_redaction, RedactionCommitment.parse_toPayload hc _ (by decide) hne hne] at hw
    obtain rfl := Option.some.inj hw
    exact ⟨_, rfl, rfl⟩

theorem pushAndRestate_verifies :
    verifyChain reference (runDoors reference .empty (pushAndRestate reference)).records = .ok () :=
  runDoors_verifies (pushAndRestate_truthful reference_sound) _ [] (List.append_nil _)

/-- A marker for its own position with a commitment that nothing meets. -/
def forgedMarker (c : Crates) : Door :=
  .appendAuthorized .human .push provenanceRedactionKind ["user:a"]
    (RedactionCommitment.toPayload c ⟨"x", "y"⟩ 0) 0

theorem forgedMarker_rejected (hc : c.Sound) :
    ∃ e, verifyChain c (runDoors c .empty [forgedMarker c]).records = .error e := by
  have hm := marker_append_redaction c .empty ["user:a"]
    (RedactionCommitment.toPayload c ⟨"x", "y"⟩ 0) 0
  rw [RedactionCommitment.parse_toPayload hc _ (by decide) (by decide) (by decide),
    EventLog.append_fst] at hm
  cases hv : verifyChain c (runDoors c .empty [forgedMarker c]).records with
  | error e => exact ⟨e, rfl⟩
  | ok u =>
    have hcontent := (verifyChain_ok_iff.mp hv).2 0 _ rfl
    change ContentOk c (collectRedactions c ([] ++ [_]))[0]? _ at hcontent
    rw [collectRedactions_concat, hm] at hcontent
    exact absurd hcontent.1 (computeThisHash_ne hc (by decide) _ _ _ _ _)

theorem runDoors_forgedMarker :
    ∃ e, verifyChain reference (runDoors reference .empty [forgedMarker reference]).records = .error e :=
  forgedMarker_rejected reference_sound

/-- Whatever the doors are asked, no record changes, each call adds at most one, and a new
record has the number of its place and the hash of its own content. -/
theorem runDoors_appends (c : Crates) (log : EventLog) (doors : List Door) :
    ∃ new, (runDoors c log doors).records = log.records ++ new ∧ new.length ≤ doors.length ∧
      ∀ (i : Nat) r, new[i]? = some r → r.seq = log.len + i ∧ r.recompute c = r.thisHash := by
  induction doors generalizing log with
  | nil => exact ⟨[], (List.append_nil _).symm, le_rfl, nofun⟩
  | cons door doors ih =>
    have he := door.run_extended c log
    obtain ⟨new, hnew, hlen, hown⟩ := ih (door.run c log)
    rw [runDoors, List.foldl_cons, ← runDoors, hnew]
    generalize door.run c log = log' at he hown ⊢
    cases he with
    | same => exact ⟨new, rfl, Nat.le_succ_of_le hlen, hown⟩
    | appended kind principalChain payload recordedAt =>
      refine ⟨_ :: new, List.append_assoc .., Nat.succ_le_succ hlen, fun i r hi => ?_⟩
      cases i with
      | zero =>
        obtain rfl := Option.some.inj hi
        exact ⟨rfl, rfl⟩
      | succ i =>
        obtain ⟨hseq, hhash⟩ := hown i r hi
        refine ⟨?_, hhash⟩
        simp only [EventLog.len, EventLog.append_snd_records, List.length_append, List.length_singleton] at hseq ⊢
        omega

end Hugit
