import Hugit.IntentModel
import Hugit.Tamper

/-! The ref state as a fold over the log. Each record writes at most one ref, so
the state at a ref is decided by the last record that writes it. -/

namespace Hugit

open Std

structure RefState where
  refs : ExtTreeMap String String

namespace RefState

def new : RefState := ⟨∅⟩

def get (s : RefState) (name : String) : Option String :=
  s.refs[name]?

@[ext] theorem ext {s t : RefState} (h : ∀ name, s.get name = t.get name) : s = t := by
  obtain ⟨s⟩ := s
  obtain ⟨t⟩ := t
  exact congrArg RefState.mk (ExtTreeMap.ext_getElem? fun {k} => h k)

end RefState

inductive ReplayError where
  | tamper (e : TamperError)
  | badPayload (seq : Nat) (kind : String)
  deriving DecidableEq

def bad (record : EventRecord) : ReplayError :=
  .badPayload record.seq record.kind

def parsePayload (c : Crates) (record : EventRecord) : Except ReplayError Value :=
  okOr (c.fromStr record.payload) (bad record)

/-- Captures of git activity that record an observation and move no ref. -/
def inertCapture (v : Value) : Bool :=
  (v.get "checkout").isSome || (v.get "attempt").bind Value.asBool == some true ||
    (v.get "merge_kind").isSome || (v.get "rewrite").isSome ||
    (v.get "reference_transaction").isSome || (v.get "reference_transaction_pairing").isSome

def replayRecord (c : Crates) (state : RefState) (record : EventRecord) :
    Except ReplayError RefState :=
  if record.kind = "ref.update" ∨ record.kind = intentLandedKind then do
    let v ← parsePayload c record
    if inertCapture v then return state
    let name ← okOr (v.fieldStr "ref") (bad record)
    let target ← okOr (v.fieldStr "target") (bad record)
    return ⟨state.refs.insert name target⟩
  else if record.kind = "ref.delete" then do
    let v ← parsePayload c record
    let name ← okOr (v.fieldStr "ref") (bad record)
    return ⟨state.refs.erase name⟩
  else return state

def replayUnchecked (c : Crates) (records : List EventRecord) : Except ReplayError RefState :=
  records.foldlM (replayRecord c) RefState.new

def replay (c : Crates) (log : EventLog) : Except ReplayError RefState :=
  match verifyChain c log.records with
  | .error e => .error (.tamper e)
  | .ok () => replayUnchecked c log.records

/-- What a record does to the ref state, read from the record alone: nothing, or
one ref set or removed. -/
def refWrite (c : Crates) (record : EventRecord) :
    Except ReplayError (Option (String × Option String)) :=
  if record.kind = "ref.update" ∨ record.kind = intentLandedKind then do
    let v ← parsePayload c record
    if inertCapture v then return none
    let name ← okOr (v.fieldStr "ref") (bad record)
    let target ← okOr (v.fieldStr "target") (bad record)
    return some (name, some target)
  else if record.kind = "ref.delete" then do
    let v ← parsePayload c record
    let name ← okOr (v.fieldStr "ref") (bad record)
    return some (name, none)
  else return none

def RefState.apply (s : RefState) : Option (String × Option String) → RefState
  | some w => ⟨applyWrite s.refs w⟩
  | none => s

theorem replayRecord_eq (c : Crates) (state : RefState) (record : EventRecord) :
    replayRecord c state record = (refWrite c record).map state.apply := by
  unfold replayRecord refWrite
  split_ifs
  · cases parsePayload c record with
    | error e => rfl
    | ok v =>
      simp only [bind, Except.bind]
      cases inertCapture v <;> cases v.fieldStr "ref" <;> cases v.fieldStr "target" <;> rfl
  · cases parsePayload c record with
    | error e => rfl
    | ok v =>
      simp only [bind, Except.bind]
      cases v.fieldStr "ref" <;> rfl
  · rfl

theorem RefState.get_apply_some (s : RefState) (w : String × Option String) (name : String) :
    (s.apply (some w)).get name = if w.1 = name then w.2 else s.get name :=
  getElem?_applyWrite s.refs w name

def writesOf (c : Crates) (records : List EventRecord) : List (String × Option String) :=
  records.filterMap fun r => ((refWrite c r).toOption).join

variable {c : Crates} {records : List EventRecord}

theorem foldlM_replayRecord {s t : RefState} :
    records.foldlM (replayRecord c) s = .ok t ↔
      (∀ r ∈ records, ∃ w, refWrite c r = .ok w) ∧
        t = ⟨(writesOf c records).foldl applyWrite s.refs⟩ := by
  induction records generalizing s with
  | nil => simp [writesOf, pure, Except.pure, eq_comm]
  | cons r records ih =>
    rw [List.foldlM_cons, replayRecord_eq]
    cases hw : refWrite c r with
    | error e => simp [bind, Except.bind, Except.map, hw]
    | ok w =>
      simp only [Except.map, bind, Except.bind, ih, List.forall_mem_cons, hw]
      cases w <;> simp [writesOf, hw, Except.toOption, RefState.apply]

theorem replayUnchecked_eq_ok {t : RefState} :
    replayUnchecked c records = .ok t ↔
      (∀ r ∈ records, ∃ w, refWrite c r = .ok w) ∧
        ∀ name, t.get name = (lastWrite name (writesOf c records)).getD none := by
  have hget (name : String) :
      RefState.get ⟨(writesOf c records).foldl applyWrite RefState.new.refs⟩ name =
        (lastWrite name (writesOf c records)).getD none := by
    rw [RefState.get, getElem?_foldl_applyWrite]
    simp [RefState.new]
  rw [replayUnchecked, foldlM_replayRecord]
  refine and_congr_right fun _ => ⟨?_, fun h => RefState.ext fun name => ?_⟩
  · rintro rfl name
    exact hget name
  · rw [h name, hget name]

theorem replayUnchecked_concat {s : RefState} (h : replayUnchecked c records = .ok s) {r : EventRecord}
    {w : Option (String × Option String)} (hw : refWrite c r = .ok w) :
    replayUnchecked c (records ++ [r]) = .ok (s.apply w) := by
  rw [replayUnchecked] at h ⊢
  simp only [List.foldlM_append, h, List.foldlM_cons, List.foldlM_nil, replayRecord_eq, hw]
  rfl

theorem replay_eq_ok {log : EventLog} {s : RefState} :
    replay c log = .ok s ↔ verifyChain c log.records = .ok () ∧ replayUnchecked c log.records = .ok s := by
  unfold replay
  cases verifyChain c log.records with
  | error e => simp
  | ok u => simp

theorem refWrite_of_inert {c : Crates} {r : EventRecord} (hu : r.kind ≠ "ref.update")
    (hi : r.kind ≠ intentLandedKind) (hd : r.kind ≠ "ref.delete") : refWrite c r = .ok none := by
  simp [refWrite, hu, hi, hd, pure, Except.pure]

theorem replay_append {log : EventLog} {state : RefState} (hs : replay c log = .ok state) {kind payload : String}
    {principalChain : List String} {recordedAt : Nat} (hk : kind ≠ provenanceRedactionKind)
    {w : Option (String × Option String)}
    (hw : refWrite c (EventLog.nextRecord c log.records kind principalChain payload recordedAt) = .ok w) :
    replayUnchecked c (log.append c kind principalChain payload recordedAt).2.records =
        .ok (state.apply w) ∧
      (NextUnnamed c log →
        replay c (log.append c kind principalChain payload recordedAt).2 = .ok (state.apply w)) := by
  obtain ⟨hv, hr⟩ := replay_eq_ok.mp hs
  have hnew := replayUnchecked_concat hr hw
  refine ⟨hnew, fun hn => replay_eq_ok.mpr ⟨?_, hnew⟩⟩
  exact verifyChain_append_of_ne hv hn.redactions hk _ _ _

theorem notes_replay (c : Crates) (payloads : List String) : replay c (notes c payloads) = .ok .new := by
  induction payloads using List.reverseRecOn with
  | nil => rfl
  | append_singleton payloads payload ih =>
    have hn : NextUnnamed c (notes c payloads) :=
      nextUnnamed_of_redactionFree (notes_verifies c payloads).1
    have hw : refWrite c (EventLog.nextRecord c (notes c payloads).records "note" ["user:a"] payload 0) =
        .ok none :=
      refWrite_of_inert (by simp [EventLog.nextRecord]) (by simp [EventLog.nextRecord, intentLandedKind])
        (by simp [EventLog.nextRecord])
    have hstep := (replay_append ih (by decide) hw).2 hn
    simpa only [notes, List.foldl_append, List.foldl_cons, List.foldl_nil, RefState.apply] using hstep

end Hugit
