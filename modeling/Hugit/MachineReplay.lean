import Hugit.Projection

/-! Folding the machine rows against replay. Replay passes captures over that the
machine altitude turns into rows, so the two can end at different refs. -/

namespace Hugit

def ProjectionRow.write : ProjectionRow → Option (String × Option String)
  | .intent commit => some (commit.refName, some commit.target)
  | .externalChange _ kind (some refName) target =>
    if kind = "ref.update" then target.map fun t => (refName, some t)
    else if kind = "ref.delete" then some (refName, none)
    else none
  | .externalChange _ _ none _ => none

def MachineHistory.refState (machine : MachineHistory) : RefState :=
  machine.rows.foldl (fun state row => state.apply row.write) .new

def payloadWrite (c : Crates) (record : EventRecord) : Option (String × Option String) := do
  let v ← c.fromStr record.payload
  let name ← v.fieldStr "ref"
  if record.kind = "ref.update" ∨ record.kind = intentLandedKind then
    let target ← v.fieldStr "target"
    return (name, some target)
  else if record.kind = "ref.delete" then return (name, none)
  else none

def isCapture (c : Crates) (record : EventRecord) : Bool :=
  (record.kind == "ref.update" || record.kind == intentLandedKind) &&
    (c.fromStr record.payload).any inertCapture

variable {c : Crates} {record : EventRecord}

theorem refWrite_eq_payloadWrite {w : Option (String × Option String)} (h : refWrite c record = .ok w) :
    w = if isCapture c record then none else payloadWrite c record := by
  unfold refWrite at h
  split_ifs at h with hset hdel
  · have hkind : (record.kind == "ref.update" || record.kind == intentLandedKind) = true := by simpa using hset
    rw [isCapture, payloadWrite, hkind, Bool.true_and]
    cases hv : c.fromStr record.payload with
    | none => simp [parsePayload, hv, bind, Except.bind] at h
    | some v =>
      cases hi : inertCapture v <;> cases hn : v.fieldStr "ref" <;> cases ht : v.fieldStr "target" <;>
        simp_all [parsePayload, bind, Except.bind, pure, Except.pure]
  · have hkind : (record.kind == "ref.update" || record.kind == intentLandedKind) = false := by
      simpa using hset
    rw [isCapture, payloadWrite, hkind, Bool.false_and]
    cases hv : c.fromStr record.payload with
    | none => simp [parsePayload, hv, bind, Except.bind] at h
    | some v =>
      cases hn : v.fieldStr "ref" <;>
        simp_all [parsePayload, bind, Except.bind, pure, Except.pure]
  · have hkind : isCapture c record = false := by simp_all [isCapture]
    have hnone : payloadWrite c record = none := by
      simp [payloadWrite, hset, hdel]
    obtain rfl : none = w := Except.ok.inj h
    simp [hkind, hnone]

theorem machineRow_write {row : Option ProjectionRow} (h : machineRow c record = .ok row) :
    row.bind ProjectionRow.write = payloadWrite c record := by
  unfold machineRow at h
  split_ifs at h with hland hpush
  · have hset : record.kind = "ref.update" ∨ record.kind = intentLandedKind := .inr hland
    rw [payloadWrite]
    cases hv : c.fromStr record.payload with
    | none => simp [parseIntent, hv, bind, Except.bind] at h
    | some v =>
      cases hid : v.fieldStr "intent_id" <;> cases hn : v.fieldStr "ref" <;>
        cases ht : v.fieldStr "target" <;> cases hch : v.fieldStr "charter" <;>
        simp_all [parseIntent, bind, Except.bind, pure, Except.pure]
      subst h
      rfl
  · obtain rfl : some (externalChangeRow c record) = row := Except.ok.inj h
    have hkind : record.kind = "ref.update" ∨ record.kind = "ref.delete" := by
      simpa [isRawPush, rawPushKinds] using hpush
    rw [payloadWrite]
    cases hv : c.fromStr record.payload with
    | none => simp [externalChangeRow, hv, ProjectionRow.write]
    | some v =>
      cases hn : v.fieldStr "ref" <;> cases ht : v.fieldStr "target" <;> rcases hkind with hk | hk <;>
        simp [externalChangeRow, hv, hn, ht, hk, ProjectionRow.write, intentLandedKind]
  · obtain rfl : none = row := Except.ok.inj h
    have hkind : record.kind ≠ "ref.update" ∧ record.kind ≠ "ref.delete" := by
      simpa [isRawPush, rawPushKinds] using hpush
    simp [payloadWrite, hkind.1, hkind.2, hland]

theorem machineRows_write {records : List EventRecord} {rows : List ProjectionRow}
    (h : machineRows c records = .ok rows) :
    rows.filterMap ProjectionRow.write = records.filterMap (payloadWrite c) := by
  induction records generalizing rows with
  | nil =>
    obtain rfl : [] = rows := Except.ok.inj h
    rfl
  | cons record records ih =>
    rw [machineRows] at h
    cases hrow : machineRow c record with
    | error e => simp [hrow, bind, Except.bind] at h
    | ok row =>
      cases hrest : machineRows c records with
      | error e => simp [hrow, hrest, bind, Except.bind] at h
      | ok rest =>
        obtain rfl : row.toList ++ rest = rows := by
          simpa [hrow, hrest, bind, Except.bind, pure, Except.pure] using h
        rw [List.filterMap_append, ih hrest, List.filterMap_cons, ← machineRow_write hrow]
        cases row with
        | none => rfl
        | some r => cases hw : r.write <;> simp [hw]

theorem foldl_apply_write (rows : List ProjectionRow) (s : RefState) :
    (rows.foldl (fun state row => state.apply row.write) s).refs =
      (rows.filterMap ProjectionRow.write).foldl applyWrite s.refs := by
  induction rows generalizing s with
  | nil => rfl
  | cons row rows ih =>
    rw [List.foldl_cons, ih, List.filterMap_cons]
    cases row.write <;> rfl

theorem MachineHistory.get_refState {log : EventLog} {machine : MachineHistory}
    (h : projectMachine c log = .ok machine) (name : String) :
    machine.refState.get name = (lastWrite name (log.records.filterMap (payloadWrite c))).getD none := by
  rw [projectMachine] at h
  cases hrows : machineRows c log.records with
  | error e => simp [hrows, Except.map, Except.mapError] at h
  | ok rows =>
    obtain rfl : ⟨rows⟩ = machine := by simpa [hrows, Except.map, Except.mapError] using h
    rw [MachineHistory.refState, RefState.get, foldl_apply_write, getElem?_foldl_applyWrite,
      machineRows_write hrows]
    simp [RefState.new]

theorem payloadWrite_of_isCapture {name : String} {value : Option String} (hcap : isCapture c record = true)
    (h : payloadWrite c record = some (name, value)) : ∃ target, value = some target := by
  have hset : record.kind = "ref.update" ∨ record.kind = intentLandedKind := by
    simpa using (Bool.and_eq_true_iff.mp hcap).1
  simp only [payloadWrite, hset, if_true, Option.bind_eq_bind, Option.bind_eq_some_iff, Option.pure_def,
    Option.some_inj, Prod.mk.injEq] at h
  obtain ⟨v, _, name', _, target, _, _, rfl⟩ := h
  exact ⟨target, rfl⟩

/-- Every capture that carries a ref and a target is superseded by a later record
of that ref, or repeats what the ref already holds. -/
def CapturesIdle (c : Crates) (records : List EventRecord) : Prop :=
  ∀ before record after, records = before ++ record :: after → isCapture c record = true →
    ∀ name target, payloadWrite c record = some (name, some target) →
      (∃ later ∈ after, ∃ value, payloadWrite c later = some (name, value)) ∨
        lastWrite name (writesOf c before) = some (some target)

/-- The rows and replay agree on the refs exactly when no capture matters. -/
theorem machine_refines_replay_iff {c : Crates} {log : EventLog} {state : RefState}
    {machine : MachineHistory} (hr : replayUnchecked c log.records = .ok state)
    (hm : projectMachine c log = .ok machine) :
    machine.refState = state ↔ CapturesIdle c log.records := by
  obtain ⟨hw, hstate⟩ := replayUnchecked_eq_ok.mp hr
  have hpart (r : EventRecord) (hmem : r ∈ log.records) :
      (refWrite c r).toOption.join = if isCapture c r then none else payloadWrite c r := by
    obtain ⟨w, hw⟩ := hw r hmem
    rw [← refWrite_eq_payloadWrite hw, hw]
    rfl
  have hsub (r : EventRecord) (hmem : r ∈ log.records) :
      (refWrite c r).toOption.join = payloadWrite c r ∨ (refWrite c r).toOption.join = none := by
    rw [hpart r hmem]
    split_ifs
    · exact .inr rfl
    · exact .inl rfl
  have hget : machine.refState = state ↔ ∀ name, machine.refState.get name = state.get name :=
    ⟨fun h name => by rw [h], RefState.ext⟩
  have hname (name : String) := lastWrite_filterMap_eq_iff hsub name none none
  simp only [hget, hstate, MachineHistory.get_refState hm, writesOf, hname, true_or, true_and]
  constructor
  · intro h before record after hsplit hcap name target hp
    have hmem : record ∈ log.records := by simp [hsplit]
    rcases h name before record after hsplit (by simp [hpart record hmem, hcap]) _ hp with hh | hh
    · exact .inl hh
    · have hlast : (lastWrite name (writesOf c before)).getD none = some target := hh
      cases hl : lastWrite name (writesOf c before) with
      | none => simp [hl] at hlast
      | some value => exact .inr (by simpa [hl] using hlast)
  · intro h name before record after hsplit hnone value hp
    have hmem : record ∈ log.records := by simp [hsplit]
    have hcap : isCapture c record = true := by
      by_contra hcap
      rw [hpart record hmem, if_neg hcap, hp] at hnone
      exact absurd hnone (by simp)
    obtain ⟨target, rfl⟩ := payloadWrite_of_isCapture hcap hp
    refine (h before record after hsplit hcap name target hp).imp_right fun hh => ?_
    have hlast : (lastWrite name (writesOf c before)).getD none = some target := by rw [hh, Option.getD_some]
    exact hlast

def capturePayload (c : Crates) : String :=
  c.print (.object [("ref", .string "main"), ("target", .string "a"), ("merge_kind", .string "fast_forward")])

def captureRecord (c : Crates) (records : List EventRecord) : EventRecord :=
  EventLog.nextRecord c records "ref.update" ["orchestrator:hugit-hook"] (capturePayload c) 1

def withCapture (c : Crates) (log : EventLog) : EventLog :=
  (log.append c "ref.update" ["orchestrator:hugit-hook"] (capturePayload c) 1).2

section

variable {c : Crates} (hc : c.Sound)

include hc

theorem capture_parse : c.fromStr (capturePayload c) = some (.object [("ref", .string "main"),
    ("target", .string "a"), ("merge_kind", .string "fast_forward")]) :=
  hc.round_trip _ (by simp [Value.Flat, Value.IsLeaf])

theorem capture_refWrite (records : List EventRecord) :
    refWrite c (captureRecord c records) = .ok none := by
  simp [refWrite, parsePayload, captureRecord, EventLog.nextRecord, capture_parse hc, inertCapture, bind,
    Except.bind, pure, Except.pure]

theorem capture_machineRow (records : List EventRecord) : machineRow c (captureRecord c records) =
    .ok (some (.externalChange records.length "ref.update" (some "main") (some "a"))) := by
  simp [machineRow, externalChangeRow, captureRecord, EventLog.nextRecord, capture_parse hc, isRawPush,
    rawPushKinds, intentLandedKind, Value.fieldStr, pure, Except.pure]

theorem replay_withCapture {log : EventLog} {state : RefState}
    (h : replayUnchecked c log.records = .ok state) :
    replayUnchecked c (withCapture c log).records = .ok state :=
  replayUnchecked_concat h (capture_refWrite hc log.records)

theorem withCapture_empty : ∃ machine, projectMachine c (withCapture c .empty) = .ok machine ∧
    machine.refState.get "main" = some "a" := by
  have hrow : machineRow c (EventLog.nextRecord c [] "ref.update" ["orchestrator:hugit-hook"]
    (capturePayload c) 1) = _ := capture_machineRow hc []
  refine ⟨⟨[.externalChange 0 "ref.update" (some "main") (some "a")]⟩, ?_, ?_⟩
  · simp [projectMachine, withCapture, EventLog.empty, machineRows, hrow, bind, Except.bind, pure,
      Except.pure, Except.map, Except.mapError]
  · simp [MachineHistory.refState, ProjectionRow.write, RefState.get_apply_some]

theorem landed_refWrite (intentId charter : String) :
    refWrite c (landedRecord c intentId charter) = .ok (some ("main", some "a")) := by
  simp [refWrite, parsePayload, landedRecord, EventLog.nextRecord, landed_parse hc, inertCapture,
    Value.fieldStr, bind, Except.bind, pure, Except.pure]

theorem landed_machine (intentId charter : String) :
    ∃ machine, projectMachine c (withCapture c (landedLog c intentId charter)) = .ok machine := by
  have hl : machineRow c (landedRecord c intentId charter) =
      .ok (some (.intent (.fromIntent (landedIntent intentId charter)))) := by
    rw [machineRow, if_pos (by rfl), landed_parseIntent hc]
    rfl
  have hcap := capture_machineRow hc [landedRecord c intentId charter]
  have hrecords : (withCapture c (landedLog c intentId charter)).records =
      [landedRecord c intentId charter, captureRecord c [landedRecord c intentId charter]] := rfl
  rw [projectMachine, hrecords, machineRows, machineRows, machineRows, hl, hcap]
  exact ⟨_, rfl⟩

theorem landed_capturesIdle (intentId charter : String) :
    CapturesIdle c (withCapture c (landedLog c intentId charter)).records := by
  have hsplit : (withCapture c (landedLog c intentId charter)).records =
      [landedRecord c intentId charter, captureRecord c [landedRecord c intentId charter]] := rfl
  rw [CapturesIdle, hsplit, forall_split_cons, forall_split_cons]
  refine ⟨fun hcap => ?_, fun _ name target hp => .inr ?_, by simp⟩
  · simp [isCapture, landedRecord, EventLog.nextRecord, landed_parse hc, inertCapture] at hcap
  · have hw := machineRow_write (capture_machineRow hc [landedRecord c intentId charter])
    rw [hp] at hw
    obtain ⟨rfl, rfl⟩ : "main" = name ∧ "a" = target := by simpa [ProjectionRow.write] using hw
    simp [writesOf, landed_refWrite hc, Except.toOption, lastWrite]

end

theorem landedCapture_refined : ∃ state machine,
    replayUnchecked reference (withCapture reference (landedLog reference "i-1" "fix the build")).records =
        .ok state ∧
      projectMachine reference (withCapture reference (landedLog reference "i-1" "fix the build")) =
        .ok machine ∧
      machine.refState = state ∧ state.get "main" = some "a" := by
  have hr : replayUnchecked reference (landedLog reference "i-1" "fix the build").records =
      .ok (RefState.new.apply (some ("main", some "a"))) :=
    replayUnchecked_concat (rfl : replayUnchecked reference [] = .ok .new)
      (landed_refWrite reference_sound "i-1" "fix the build")
  have hrc := replay_withCapture reference_sound hr
  obtain ⟨machine, hm⟩ := landed_machine reference_sound "i-1" "fix the build"
  exact ⟨_, machine, hrc, hm, (machine_refines_replay_iff hrc hm).mpr
    (landed_capturesIdle reference_sound "i-1" "fix the build"), by simp [RefState.get_apply_some]⟩

theorem capture_not_refined : ∃ state machine,
    replayUnchecked reference (withCapture reference .empty).records = .ok state ∧
      projectMachine reference (withCapture reference .empty) = .ok machine ∧ machine.refState ≠ state := by
  obtain ⟨machine, hm, hget⟩ := withCapture_empty reference_sound
  refine ⟨.new, machine, replay_withCapture reference_sound rfl, hm, fun h => ?_⟩
  rw [h] at hget
  simp [RefState.get, RefState.new] at hget

end Hugit
