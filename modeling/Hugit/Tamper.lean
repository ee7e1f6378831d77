import Hugit.EventLog
import Hugit.LastWrite

/-! Redaction markers and the verification of a chain that may carry them.
A marker anywhere in the log replaces the content check of the record it names. -/

namespace Hugit

open Std

def provenanceRedactionKind : String := "provenance.redaction"

structure RedactionCommitment where
  originalThisHash : String
  redactedThisHash : String
  deriving DecidableEq

mutual

def canonicalizeValue : Value → Value
  | .object fields => .object (canonicalizeFields [] fields)
  | .array items => .array (canonicalizeItems items)
  | scalar => scalar

def canonicalizeItems : List Value → List Value
  | [] => []
  | v :: vs => canonicalizeValue v :: canonicalizeItems vs

def canonicalizeFields : List (String × Value) → List (String × Value) → List (String × Value)
  | sorted, [] => sorted
  | sorted, (k, v) :: fs => canonicalizeFields (Value.insertSorted k (canonicalizeValue v) sorted) fs

end

def canonicalJson (c : Crates) (input : String) : Option String :=
  (c.fromStr input).map fun v => c.print (canonicalizeValue v)

namespace RedactionCommitment

def toPayload (c : Crates) (k : RedactionCommitment) (redactedSeq : Nat) : String :=
  let v := Value.object [("redacted_seq", .number (.posInt redactedSeq)),
    ("original_this_hash", .string k.originalThisHash),
    ("redacted_this_hash", .string k.redactedThisHash)]
  (canonicalJson c (c.print v)).getD (c.print v)

def parse (c : Crates) (payload : String) : Option (Nat × RedactionCommitment) := do
  let v ← c.fromStr payload
  let redactedSeq ← (← v.get "redacted_seq").asU64
  let originalThisHash ← (← v.get "original_this_hash").asStr
  let redactedThisHash ← (← v.get "redacted_this_hash").asStr
  if originalThisHash = "" ∨ redactedThisHash = "" then none
  else some (redactedSeq, ⟨originalThisHash, redactedThisHash⟩)

end RedactionCommitment

def redactRecord (c : Crates) (record : EventRecord) (redactedPrincipalChain : List String)
    (redactedPayload : String) : EventRecord × RedactionCommitment :=
  let redactedThisHash := computeThisHash c record.prevHash record.kind redactedPrincipalChain
    redactedPayload record.seq
  ({ record with principalChain := redactedPrincipalChain, payload := redactedPayload },
    ⟨record.thisHash, redactedThisHash⟩)

/-- Later markers for one position win. -/
def collectRedactions (c : Crates) (records : List EventRecord) :
    ExtTreeMap Nat RedactionCommitment :=
  records.foldl (fun out r =>
    if r.kind ≠ provenanceRedactionKind then out
    else match RedactionCommitment.parse c r.payload with
      | some (seq, commitment) => out.insert seq commitment
      | none => out) ∅

inductive TamperError where
  | seqOutOfOrder (position expected got : Nat)
  | prevHashMismatch (seq : Nat) (expected got : String)
  | thisHashMismatch (seq : Nat) (expected got : String)
  deriving DecidableEq

def verifyRecord (c : Crates) (redactions : ExtTreeMap Nat RedactionCommitment) (position : Nat)
    (prevThis : String) (record : EventRecord) : Except TamperError Unit :=
  if record.seq ≠ position then .error (.seqOutOfOrder position position record.seq)
  else if record.prevHash ≠ prevThis then
    .error (.prevHashMismatch record.seq prevThis record.prevHash)
  else match redactions[position]? with
    | some commitment =>
      if record.thisHash ≠ commitment.originalThisHash then
        .error (.thisHashMismatch record.seq commitment.originalThisHash record.thisHash)
      else if record.recompute c ≠ commitment.redactedThisHash then
        .error (.thisHashMismatch record.seq commitment.redactedThisHash (record.recompute c))
      else .ok ()
    | none =>
      if record.recompute c ≠ record.thisHash then
        .error (.thisHashMismatch record.seq (record.recompute c) record.thisHash)
      else .ok ()

def verifyFrom (c : Crates) (redactions : ExtTreeMap Nat RedactionCommitment) :
    Nat → String → List EventRecord → Except TamperError Unit
  | _, _, [] => .ok ()
  | position, prevThis, record :: rest =>
    match verifyRecord c redactions position prevThis record with
    | .error e => .error e
    | .ok () => verifyFrom c redactions (position + 1) record.thisHash rest

def verifyChain (c : Crates) (records : List EventRecord) : Except TamperError Unit :=
  verifyFrom c (collectRedactions c records) 0 genesisPrevHash records

def ContentOk (c : Crates) (commitment : Option RedactionCommitment) (r : EventRecord) : Prop :=
  match commitment with
  | some k => r.thisHash = k.originalThisHash ∧ r.recompute c = k.redactedThisHash
  | none => r.recompute c = r.thisHash

variable {c : Crates} {r : EventRecord}

theorem verifyRecord_ok_iff {redactions : ExtTreeMap Nat RedactionCommitment} {position : Nat} {prevThis : String} :
    verifyRecord c redactions position prevThis r = .ok () ↔
      r.seq = position ∧ r.prevHash = prevThis ∧ ContentOk c redactions[position]? r := by
  unfold verifyRecord ContentOk
  cases redactions[position]? <;> simp <;> split_ifs <;> simp_all

theorem verifyFrom_ok_iff {redactions : ExtTreeMap Nat RedactionCommitment} {position : Nat}
    {before records : List EventRecord} (hp : before.length = position) :
    verifyFrom c redactions position (headHash before) records = .ok () ↔
      ∀ i r, records[i]? = some r → r.seq = position + i ∧
        r.prevHash = headHash (before ++ records.take i) ∧
        ContentOk c redactions[position + i]? r := by
  induction records generalizing position before with
  | nil => simp [verifyFrom]
  | cons r rest ih =>
    have hl : (before ++ [r]).length = position + 1 := by simp [hp]
    have hh := ih hl
    rw [headHash_concat] at hh
    constructor
    · intro h i s hs
      cases hv : verifyRecord c redactions position (headHash before) r with
      | error e => simp [verifyFrom, hv] at h
      | ok u =>
        cases i with
        | zero =>
          obtain rfl : r = s := by simpa using hs
          simpa using verifyRecord_ok_iff.mp hv
        | succ i =>
          simp only [verifyFrom, hv] at h
          have hi := hh.mp h i s (by simpa using hs)
          simpa [Nat.add_assoc, Nat.add_comm 1 i] using hi
    · intro h
      have hv := verifyRecord_ok_iff.mpr (by simpa using h 0 r rfl :
        r.seq = position ∧ r.prevHash = headHash before ∧ ContentOk c redactions[position]? r)
      simp only [verifyFrom, hv]
      refine hh.mpr fun i s hs => ?_
      have hi := h (i + 1) s (by simpa using hs)
      simpa [Nat.add_assoc, Nat.add_comm 1 i] using hi

def Chained (records : List EventRecord) : Prop :=
  ∀ (i : Nat) (r : EventRecord), records[i]? = some r →
    r.seq = i ∧ r.prevHash = headHash (records.take i)

variable {records : List EventRecord}

theorem Chained.gapFree (h : Chained records) : GapFree records :=
  fun i r hi => (h i r hi).1

theorem verifyChain_ok_iff :
    verifyChain c records = .ok () ↔ Chained records ∧
      ∀ (i : Nat) (r : EventRecord), records[i]? = some r →
        ContentOk c (collectRedactions c records)[i]? r := by
  have hl : ([] : List EventRecord).length = 0 := rfl
  have h : verifyChain c records = .ok () ↔ _ := verifyFrom_ok_iff hl
  simp only [Nat.zero_add, List.nil_append] at h
  rw [h]
  constructor
  · intro hh
    exact ⟨fun i r hi => ⟨(hh i r hi).1, (hh i r hi).2.1⟩, fun i r hi => (hh i r hi).2.2⟩
  · rintro ⟨hch, hcontent⟩ i r hi
    exact ⟨(hch i r hi).1, (hch i r hi).2, hcontent i r hi⟩

theorem chained_concat :
    Chained (records ++ [r]) ↔
      Chained records ∧ r.seq = records.length ∧ r.prevHash = headHash records := by
  constructor
  · intro h
    refine ⟨fun i x hi => ?_, ?_⟩
    · have hlt := (List.getElem?_eq_some_iff.mp hi).1
      have hh := h i x (by rwa [List.getElem?_append_left hlt])
      rwa [List.take_append_of_le_length hlt.le] at hh
    · simpa using h records.length r (by simp)
  · rintro ⟨h, hseq, hprev⟩ i x hi
    rcases Nat.lt_or_ge i records.length with hlt | hge
    · rw [List.take_append_of_le_length hlt.le]
      exact h i x (by rwa [List.getElem?_append_left hlt] at hi)
    · obtain ⟨rfl, rfl⟩ : i = records.length ∧ r = x := by
        rw [List.getElem?_append_right hge] at hi
        have hz : i - records.length = 0 := by
          by_contra hne
          simp [hne] at hi
        rw [hz] at hi
        exact ⟨by omega, by simpa using hi⟩
      simpa using ⟨hseq, hprev⟩

variable {i : Nat}

theorem map_set_same {α β : Type*} {f : α → β} {xs : List α} {a b : α} (hi : xs[i]? = some a) (h : f b = f a) :
    (xs.set i b).map f = xs.map f := by
  obtain ⟨hlt, rfl⟩ := List.getElem?_eq_some_iff.mp hi
  rw [List.map_set, h]
  refine List.ext_getElem (by simp) fun j hj _ => ?_
  by_cases hij : i = j
  · subst hij
    simp
  · simp [List.getElem_set_ne hij]

theorem headHash_congr {xs ys : List EventRecord}
    (h : xs.map EventRecord.thisHash = ys.map EventRecord.thisHash) : headHash xs = headHash ys := by
  simp only [headHash, ← List.getLast?_map, h]

theorem Chained.set (h : Chained records) {r r' : EventRecord} (hi : records[i]? = some r) (hseq : r'.seq = r.seq)
    (hprev : r'.prevHash = r.prevHash) (hthis : r'.thisHash = r.thisHash) :
    Chained (records.set i r') := by
  have hmap := map_set_same hi hthis
  intro j x hj
  have hhead : headHash ((records.set i r').take j) = headHash (records.take j) :=
    headHash_congr (by rw [List.map_take, List.map_take, hmap])
  rw [hhead]
  by_cases hij : i = j
  · subst hij
    obtain rfl : r' = x := by
      rw [List.getElem?_set_self (List.getElem?_eq_some_iff.mp hi).1] at hj
      exact Option.some.inj hj
    rw [hseq, hprev]
    exact h i r hi
  · exact h j x (by rwa [List.getElem?_set_ne hij] at hj)

def marker (c : Crates) (r : EventRecord) : Option (Nat × RedactionCommitment) :=
  if r.kind = provenanceRedactionKind then RedactionCommitment.parse c r.payload else none

theorem collectRedactions_getElem? (c : Crates) (records : List EventRecord) (i : Nat) :
    (collectRedactions c records)[i]? = lastWrite i (records.filterMap (marker c)) := by
  have hfold (rs : List EventRecord) (m : ExtTreeMap Nat RedactionCommitment) :
      rs.foldl (fun out r =>
        if r.kind ≠ provenanceRedactionKind then out
        else match RedactionCommitment.parse c r.payload with
          | some (seq, commitment) => out.insert seq commitment
          | none => out) m =
      (rs.filterMap (marker c)).foldl (fun m w => m.insert w.1 w.2) m := by
    induction rs generalizing m with
    | nil => rfl
    | cons r rs ih =>
      rw [List.foldl_cons, ih]
      by_cases hk : r.kind = provenanceRedactionKind
      · cases hp : RedactionCommitment.parse c r.payload <;> simp [marker, hk, hp]
      · simp [marker, hk]
  rw [collectRedactions, hfold, getElem?_foldl_insert]
  simp

theorem collectRedactions_concat (c : Crates) (records : List EventRecord) (r : EventRecord) (i : Nat) :
    (collectRedactions c (records ++ [r]))[i]? =
      match marker c r with
      | some w => if w.1 = i then some w.2 else (collectRedactions c records)[i]?
      | none => (collectRedactions c records)[i]? := by
  simp only [collectRedactions_getElem?, List.filterMap_append]
  cases hm : marker c r <;> simp [hm]

theorem collectRedactions_set {r r' : EventRecord} (hi : records[i]? = some r) (hm : marker c r' = marker c r) :
    collectRedactions c (records.set i r') = collectRedactions c records := by
  refine ExtTreeMap.ext_getElem? fun j => ?_
  have hset := map_set_same hi hm
  have hfilter (rs : List EventRecord) : rs.filterMap (marker c) = (rs.map (marker c)).filterMap id := by
    rw [List.filterMap_map, Function.id_comp]
  rw [collectRedactions_getElem?, collectRedactions_getElem?, hfilter, hset, ← hfilter]

def RedactionFree (records : List EventRecord) : Prop :=
  ∀ r ∈ records, r.kind ≠ provenanceRedactionKind

instance (records : List EventRecord) : Decidable (RedactionFree records) :=
  inferInstanceAs (Decidable (∀ r ∈ records, r.kind ≠ provenanceRedactionKind))

theorem redactionFree_markers (h : RedactionFree records) (i : Nat) : (collectRedactions c records)[i]? = none := by
  have hn : records.filterMap (marker c) = [] := by
    simp only [List.filterMap_eq_nil_iff]
    intro r hr
    simp [marker, h r hr]
  rw [collectRedactions_getElem?, hn, lastWrite_nil]

theorem verifyChain_concat (hch : Chained records) (hseq : r.seq = records.length)
    (hprev : r.prevHash = headHash records) (hself : r.recompute c = r.thisHash)
    (hfree : (collectRedactions c records)[records.length]? = none)
    (hother : ∀ w, marker c r = some w → w.1 ≠ records.length)
    (hold : ∀ (i : Nat) (x : EventRecord), records[i]? = some x →
      ContentOk c (collectRedactions c (records ++ [r]))[i]? x) :
    verifyChain c (records ++ [r]) = .ok () := by
  refine verifyChain_ok_iff.mpr ⟨chained_concat.mpr ⟨hch, hseq, hprev⟩, fun i x hi => ?_⟩
  rcases Nat.lt_or_ge i records.length with hlt | hge
  · exact hold i x (by rwa [List.getElem?_append_left hlt] at hi)
  · have hi' : i = records.length := by
      have := (List.getElem?_eq_some_iff.mp hi).1
      simp only [List.length_append, List.length_singleton] at this
      omega
    subst hi'
    obtain rfl : r = x := by simpa using hi
    have hnone : (collectRedactions c (records ++ [r]))[records.length]? = none := by
      rw [collectRedactions_concat]
      cases hm : marker c r with
      | none => exact hfree
      | some w => simp [hother w hm, hfree]
    rw [hnone]
    exact hself

variable {log : EventLog}

theorem verifyChain_append (hv : verifyChain c log.records = .ok ())
    (hfree : (collectRedactions c log.records)[log.len]? = none) {kind : String} {principalChain : List String}
    {payload : String} {recordedAt : Nat}
    (hm : ∀ w, marker c (log.append c kind principalChain payload recordedAt).1 = some w →
      log.len < w.1 ∨ ∃ x, log.records[w.1]? = some x ∧ ContentOk c (some w.2) x) :
    verifyChain c (log.append c kind principalChain payload recordedAt).2.records = .ok () := by
  obtain ⟨hch, hcontent⟩ := verifyChain_ok_iff.mp hv
  refine verifyChain_concat hch rfl rfl rfl hfree (fun w hw => ?_) fun i x hi => ?_
  · rcases hm w hw with h | ⟨x, hx, _⟩
    · exact h.ne'
    · exact (List.getElem?_eq_some_iff.mp hx).1.ne
  · have hlt := (List.getElem?_eq_some_iff.mp hi).1
    rw [collectRedactions_concat]
    cases hw : marker c (log.append c kind principalChain payload recordedAt).1 with
    | none =>
      rw [EventLog.append_fst] at hw
      rw [hw]
      exact hcontent i x hi
    | some w =>
      have hmw := hm w hw
      rw [EventLog.append_fst] at hw
      simp only [hw]
      split_ifs with he
      · rcases hmw with h | ⟨y, hy, hk⟩
        · have : log.len = log.records.length := rfl
          omega
        · rw [he, hi] at hy
          rwa [Option.some.inj hy]
      · exact hcontent i x hi

theorem verifyChain_append_of_ne {c : Crates} {log : EventLog}
    (hv : verifyChain c log.records = .ok ())
    (hfree : (collectRedactions c log.records)[log.len]? = none) {kind : String}
    (hk : kind ≠ provenanceRedactionKind) (principalChain : List String) (payload : String)
    (recordedAt : Nat) :
    verifyChain c (log.append c kind principalChain payload recordedAt).2.records = .ok () := by
  refine verifyChain_append hv hfree fun w hw => ?_
  simp [marker, EventLog.nextRecord, hk] at hw

theorem marker_append_redaction (c : Crates) (log : EventLog) (principalChain : List String)
    (payload : String) (recordedAt : Nat) :
    marker c (log.append c provenanceRedactionKind principalChain payload recordedAt).1 =
      RedactionCommitment.parse c payload :=
  if_pos rfl

def NextUnnamed (c : Crates) (log : EventLog) : Prop :=
  ∀ r ∈ log.records, ∀ w, marker c r = some w → w.1 ≠ log.len

theorem NextUnnamed.redactions (h : NextUnnamed c log) : (collectRedactions c log.records)[log.len]? = none := by
  rw [collectRedactions_getElem?, lastWrite_eq_none]
  intro w hw
  obtain ⟨r, hr, hm⟩ := List.mem_filterMap.mp hw
  exact h r hr w hm

theorem nextUnnamed_of_redactionFree (h : RedactionFree log.records) : NextUnnamed c log := by
  intro r hr w hw
  simp [marker, h r hr] at hw

def notes (c : Crates) (payloads : List String) : EventLog :=
  payloads.foldl (fun log payload => (log.append c "note" ["user:a"] payload 0).2) .empty

@[simp] theorem notes_length (c : Crates) (payloads : List String) :
    (notes c payloads).records.length = payloads.length := by
  induction payloads using List.reverseRecOn with
  | nil => rfl
  | append_singleton payloads payload ih =>
    simp only [notes, List.foldl_append, List.foldl_cons, List.foldl_nil] at ih ⊢
    simp [ih]

theorem notes_verifies (c : Crates) (payloads : List String) :
    RedactionFree (notes c payloads).records ∧ verifyChain c (notes c payloads).records = .ok () := by
  induction payloads using List.reverseRecOn with
  | nil => exact ⟨by simp [notes, RedactionFree, EventLog.empty], rfl⟩
  | append_singleton payloads payload ih =>
    obtain ⟨hf, hv⟩ := ih
    have hnote : "note" ≠ provenanceRedactionKind := by decide
    simp only [notes, List.foldl_append, List.foldl_cons, List.foldl_nil] at hf hv ⊢
    refine ⟨fun r hr => ?_, verifyChain_append_of_ne hv (redactionFree_markers hf _) hnote _ _ _⟩
    rw [EventLog.append_snd_records, List.mem_append, List.mem_singleton] at hr
    rcases hr with hr | rfl
    · exact hf r hr
    · exact hnote

end Hugit
