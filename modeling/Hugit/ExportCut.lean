import Hugit.ExportSchema
import Hugit.Redaction
import Hugit.Replay

/-! The point-in-time cut an export reads: the records below a bound, verified again
as a chain of their own. -/

namespace Hugit

inductive AppendError where
  | nonMonotonicSeq (expected got : Nat)
  deriving DecidableEq

namespace EventLog

def pushRecord (log : EventLog) (record : EventRecord) : Except AppendError EventLog :=
  if record.seq ≠ log.records.length then .error (.nonMonotonicSeq log.records.length record.seq)
  else .ok ⟨log.records ++ [record]⟩

def pushRecords (records : List EventRecord) : Except AppendError EventLog :=
  records.foldlM pushRecord empty

theorem pushRecords_of_gapFree {records : List EventRecord} (h : GapFree records) :
    pushRecords records = .ok ⟨records⟩ := by
  have hfold : ∀ rest before, records = before ++ rest →
      rest.foldlM pushRecord (⟨before⟩ : EventLog) = .ok ⟨records⟩ := by
    intro rest
    induction rest with
    | nil =>
      intro before he
      rw [he, List.append_nil]
      rfl
    | cons r rest ih =>
      intro before he
      have hseq : r.seq = before.length := h before.length r (by simp [he])
      have hpush : pushRecord ⟨before⟩ r = .ok ⟨before ++ [r]⟩ := if_neg (by simp [hseq])
      rw [List.foldlM_cons, hpush]
      exact ih (before ++ [r]) (by simp [he])
  exact hfold records [] rfl

end EventLog

structure Cut where
  records : List EventRecord
  deriving DecidableEq

inductive CutError where
  | tamper (e : TamperError)
  | danglingLink (objectId : String) (eventSeq : UInt64)
  | refAppend (e : AppendError)
  | refReplay (e : ReplayError)
  deriving DecidableEq

namespace Cut

def takeTo (c : Crates) (log : EventLog) (cutSeq : Nat) : Except CutError Cut :=
  let records := log.records.filter fun r => r.seq < cutSeq
  match verifyChain c records with
  | .error e => .error (.tamper e)
  | .ok () => .ok ⟨records⟩

def take (c : Crates) (log : EventLog) : Except CutError Cut :=
  takeTo c log log.len

def refState (c : Crates) (cut : Cut) : Except CutError RefState :=
  match EventLog.pushRecords cut.records with
  | .error e => .error (.refAppend e)
  | .ok log =>
    match replay c log with
    | .error e => .error (.refReplay e)
    | .ok state => .ok state

def assertLinksResolved (cut : Cut) (links : List ProvenanceLink) : Except CutError Unit :=
  match links.find? fun link => cut.records.length ≤ link.eventSeq.toNat with
  | some link => .error (.danglingLink link.objectId link.eventSeq)
  | none => .ok ()

end Cut

theorem filter_seq_lt {records : List EventRecord} (h : GapFree records) (bound : Nat) :
    records.filter (fun r => r.seq < bound) = records.take bound := by
  induction records using List.reverseRecOn with
  | nil => simp
  | append_singleton records r ih =>
    have hr : r.seq = records.length := h records.length r (by simp)
    have hinit : GapFree records := by
      have hh := h.take records.length
      rwa [List.take_left] at hh
    rw [List.filter_append, ih hinit, List.take_append]
    by_cases hb : records.length < bound
    · have hone : ([r] : List EventRecord).length ≤ bound - records.length := by
        rw [List.length_singleton]
        omega
      rw [List.filter_singleton, hr, decide_eq_true hb, cond_true, List.take_of_length_le hone]
    · rw [List.filter_singleton, hr, decide_eq_false hb, cond_false,
        Nat.sub_eq_zero_of_le (Nat.le_of_not_lt hb), List.take_zero]

theorem getElem?_take_eq_some {α : Type} {l : List α} {bound i : Nat} {a : α} (h : (l.take bound)[i]? = some a) :
    i < bound ∧ l[i]? = some a := by
  rw [List.getElem?_take] at h
  by_cases hlt : i < bound
  · rw [if_pos hlt] at h
    exact ⟨hlt, h⟩
  · rw [if_neg hlt] at h
    cases h

def MarkedLater (c : Crates) (records : List EventRecord) (bound i : Nat) : Prop :=
  ∃ r ∈ records.drop bound, ∃ w, marker c r = some w ∧ w.1 = i

theorem collectRedactions_take {c : Crates} {records : List EventRecord} {bound i : Nat}
    (h : ¬ MarkedLater c records bound i) :
    (collectRedactions c (records.take bound))[i]? = (collectRedactions c records)[i]? := by
  have hnone : lastWrite i ((records.drop bound).filterMap (marker c)) = none := by
    rw [lastWrite_eq_none]
    intro w hw he
    obtain ⟨r, hr, hm⟩ := List.mem_filterMap.mp hw
    exact h ⟨r, hr, w, hm, he⟩
  rw [collectRedactions_getElem?, collectRedactions_getElem?]
  conv => rhs; rw [← List.take_append_drop bound records]
  rw [List.filterMap_append, lastWrite_append, hnone, Option.none_or]

theorem Chained.take {records : List EventRecord} (h : Chained records) (bound : Nat) : Chained (records.take bound) := by
  intro i r hi
  obtain ⟨hlt, hi⟩ := getElem?_take_eq_some hi
  rw [List.take_take, Nat.min_eq_left hlt.le]
  exact h i r hi

/-- A cut below the bound is taken exactly when the records whose markers it leaves
out still pass without them. -/
theorem cut_taken_iff {c : Crates} {log : EventLog} (hv : verifyChain c log.records = .ok ()) (bound : Nat) :
    Cut.takeTo c log bound = .ok ⟨log.records.take bound⟩ ↔
      ∀ i r, i < bound → log.records[i]? = some r → MarkedLater c log.records bound i →
        ContentOk c (collectRedactions c (log.records.take bound))[i]? r := by
  obtain ⟨hch, hcontent⟩ := verifyChain_ok_iff.mp hv
  have htake : Cut.takeTo c log bound = .ok ⟨log.records.take bound⟩ ↔
      verifyChain c (log.records.take bound) = .ok () := by
    rw [← filter_seq_lt hch.gapFree bound]
    unfold Cut.takeTo
    dsimp only
    split
    · next e he => simp [he]
    · next he => simp [he]
  rw [htake, verifyChain_ok_iff]
  constructor
  · rintro ⟨_, hh⟩ i r hlt hi _
    exact hh i r (by rwa [List.getElem?_take_of_lt hlt])
  · intro hh
    refine ⟨hch.take bound, fun i r hi => ?_⟩
    obtain ⟨hlt, hi⟩ := getElem?_take_eq_some hi
    by_cases hm : MarkedLater c log.records bound i
    · exact hh i r hlt hi hm
    · rw [collectRedactions_take hm]
      exact hcontent i r hi

theorem notes_cut : verifyChain reference (notes reference ["a", "b"]).records = .ok () ∧
    Cut.takeTo reference (notes reference ["a", "b"]) 1 =
      .ok ⟨(notes reference ["a", "b"]).records.take 1⟩ := by
  obtain ⟨hfree, hv⟩ := notes_verifies reference ["a", "b"]
  refine ⟨hv, (cut_taken_iff hv 1).mpr ?_⟩
  rintro i r - - ⟨m, hm, w, hw, -⟩
  have hk := hfree m (List.mem_of_mem_drop hm)
  simp [marker, hk] at hw

def redactedNote : List EventRecord :=
  scrub reference (notes reference ["secret"]).records scrubStep
      (EventLog.nextRecord reference [] "note" ["user:a"] "secret" 0) ++
    [redactionMarker reference (notes reference ["secret"]).records scrubStep
      (EventLog.nextRecord reference [] "note" ["user:a"] "secret" 0)]

/-- The log is accepted as a whole, but its first record is refused without the
marker that follows it. -/
theorem redactedNote_not_cut : verifyChain reference redactedNote = .ok () ∧
    ∃ e, Cut.takeTo reference ⟨redactedNote⟩ 1 = .error (.tamper e) := by
  obtain ⟨hfree, hv⟩ := notes_verifies reference ["secret"]
  have hr : (notes reference ["secret"]).records[scrubStep.position]? =
    some (EventLog.nextRecord reference [] "note" ["user:a"] "secret" 0) := rfl
  have hstep : redactionStep reference (notes reference ["secret"]).records scrubStep = some redactedNote :=
    redactionStep_eq_some.mpr ⟨_, hr, by decide, rfl⟩
  have hrun := redactionRun_verifies reference_sound hv (redactionRun_singleton hstep) (by decide)
    fun i _ _ => redactionFree_markers hfree i
  refine ⟨hrun, ?_⟩
  have hfirst : redactedNote.filter (fun r => r.seq < 1) = [scrubbedNote] := rfl
  have hne : scrubbedNote.recompute reference ≠ scrubbedNote.thisHash := by decide +kernel
  unfold Cut.takeTo
  dsimp only
  rw [hfirst]
  split
  · next e _ => exact ⟨e, rfl⟩
  · next he =>
    have hcontent := (verifyChain_ok_iff.mp he).2 0 scrubbedNote rfl
    exact absurd hcontent hne

end Hugit
