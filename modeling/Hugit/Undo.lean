import Hugit.Authz
import Hugit.Replay

/-! Undo by compensation: one appended event gives the ref of the target record
the value it had before that record. -/

namespace Hugit

structure Compensation where
  kind : String
  payload : String
  refName : String
  deriving DecidableEq

inductive UndoError where
  | outOfRange (target len : Nat)
  | nothingToCompensate (target : Nat) (kind : String)
  | badTargetPayload (target : Nat) (kind : String)
  | tamper (e : TamperError)
  | replay (e : ReplayError)
  | denied (reason : DenyReason)
  deriving DecidableEq

def canonicalUpdate (c : Crates) (name target : String) : String :=
  c.print (.object [("ref", .string name), ("target", .string target)])

def canonicalDelete (c : Crates) (name : String) : String :=
  c.print (.object [("ref", .string name)])

def restoring (c : Crates) (refName : String) : Option String → Compensation
  | some priorTarget => ⟨"ref.update", canonicalUpdate c refName priorTarget, refName⟩
  | none => ⟨"ref.delete", canonicalDelete c refName, refName⟩

def computeCompensation (c : Crates) (log : EventLog) (target : Nat) :
    Except UndoError Compensation :=
  match verifyChain c log.records with
  | .error e => .error (.tamper e)
  | .ok () =>
    match log.records[target]? with
    | none => .error (.outOfRange target log.len)
    | some targetRec =>
      if targetRec.kind = "ref.update" ∨ targetRec.kind = "ref.delete" ∨
          targetRec.kind = intentLandedKind then do
        let v ← okOr (c.fromStr targetRec.payload) (.badTargetPayload target targetRec.kind)
        let refName ← okOr (v.fieldStr "ref") (.badTargetPayload target targetRec.kind)
        match replayUnchecked c (log.records.take target) with
        | .error e => .error (.replay e)
        | .ok prior => .ok (restoring c refName (prior.get refName))
      else .error (.nothingToCompensate target targetRec.kind)

/-- The compensator comes first, so a target that has none fails before the
guard is asked. -/
def undo (c : Crates) (log : EventLog) (target : Nat) (principalChain : List String)
    (recordedAt : Nat) : Except UndoError Compensation × EventLog :=
  match computeCompensation c log target with
  | .error e => (.error e, log)
  | .ok comp =>
    match auditedAuthorize c log principalChain .undo recordedAt with
    | (.allow, _, log) => (.ok comp, (log.append c comp.kind principalChain comp.payload recordedAt).2)
    | (.deny reason, _, log) => (.error (.denied reason), log)

theorem computeCompensation_cases (c : Crates) (log : EventLog) (target : Nat) :
    (∃ e, computeCompensation c log target = .error e ∧ ∀ reason, e ≠ .denied reason) ∨
      ∃ targetRec v name prior, log.records[target]? = some targetRec ∧
        c.fromStr targetRec.payload = some v ∧ v.fieldStr "ref" = some name ∧
        replayUnchecked c (log.records.take target) = .ok prior ∧
        computeCompensation c log target = .ok (restoring c name (prior.get name)) := by
  unfold computeCompensation
  cases verifyChain c log.records with
  | error e => exact .inl ⟨_, rfl, by simp⟩
  | ok u =>
    cases ht : log.records[target]? with
    | none => exact .inl ⟨_, rfl, by simp⟩
    | some targetRec =>
      by_cases hk : targetRec.kind = "ref.update" ∨ targetRec.kind = "ref.delete" ∨
          targetRec.kind = intentLandedKind
      · simp only [if_pos hk]
        cases hp : c.fromStr targetRec.payload with
        | none => exact .inl ⟨_, rfl, by simp⟩
        | some v =>
          cases hf : v.fieldStr "ref" with
          | none => exact .inl ⟨_, by simp only [bind, Except.bind, okOr_some, hf]; rfl, by simp⟩
          | some name =>
            cases hr : replayUnchecked c (log.records.take target) with
            | error e =>
              exact .inl ⟨_, by simp only [bind, Except.bind, okOr_some, hf]; rfl, by simp⟩
            | ok prior =>
              exact .inr ⟨targetRec, v, name, prior, rfl, hp, hf, rfl,
                by simp only [bind, Except.bind, okOr_some, hf]⟩
      · simp only [if_neg hk]
        exact .inl ⟨_, rfl, by simp⟩

theorem computeCompensation_eq_ok {c : Crates} {log : EventLog} {target : Nat} {comp : Compensation}
    (h : computeCompensation c log target = .ok comp) :
    ∃ targetRec v prior, log.records[target]? = some targetRec ∧
      c.fromStr targetRec.payload = some v ∧ v.fieldStr "ref" = some comp.refName ∧
      replayUnchecked c (log.records.take target) = .ok prior ∧
      comp = restoring c comp.refName (prior.get comp.refName) := by
  rcases computeCompensation_cases c log target with
    ⟨e, he, _⟩ | ⟨targetRec, v, name, prior, ht, hp, hf, hr, hcomp⟩
  · simp [he] at h
  · obtain rfl := Except.ok.inj (hcomp.symm.trans h)
    have hn : (restoring c name (prior.get name)).refName = name := by
      cases prior.get name <;> rfl
    rw [hn]
    exact ⟨targetRec, v, prior, ht, hp, hf, hr, rfl⟩

theorem refWrite_restoring {c : Crates} (hc : c.Sound) (records : List EventRecord) (name : String)
    (prior : Option String) (principalChain : List String) (recordedAt : Nat) :
    refWrite c (EventLog.nextRecord c records (restoring c name prior).kind principalChain
      (restoring c name prior).payload recordedAt) = .ok (some (name, prior)) := by
  cases prior with
  | none =>
    have hrt := hc.round_trip (.object [("ref", .string name)]) (by simp [Value.Flat, Value.IsLeaf])
    simp [refWrite, parsePayload, restoring, EventLog.nextRecord, canonicalDelete, hrt,
      intentLandedKind, Value.fieldStr, bind, Except.bind, pure, Except.pure]
  | some target =>
    have hrt := hc.round_trip (.object [("ref", .string name), ("target", .string target)])
      (by simp [Value.Flat, Value.IsLeaf])
    simp [refWrite, parsePayload, restoring, EventLog.nextRecord, canonicalUpdate, hrt,
      Value.fieldStr, inertCapture, bind, Except.bind, pure, Except.pure]

theorem restoring_kind_ne (c : Crates) (name : String) (prior : Option String) :
    (restoring c name prior).kind ≠ provenanceRedactionKind := by
  cases prior <;> simp [restoring, provenanceRedactionKind]

def IsHuman (principalChain : List String) : Prop :=
  ∃ actor, principalChain.getLast? = some actor ∧ PrincipalClass.classify actor = some .human

section

variable {c : Crates} {log : EventLog} {target : Nat} {comp : Compensation}
  {principalChain : List String}

theorem undo_allowed (recordedAt : Nat) (h : computeCompensation c log target = .ok comp)
    (ha : authorize principalChain .undo = .allow) :
    undo c log target principalChain recordedAt =
      (.ok comp, (log.append c comp.kind principalChain comp.payload recordedAt).2) := by
  simp [undo, h, auditedAuthorize, ha]

theorem undo_denied (recordedAt : Nat) (h : computeCompensation c log target = .ok comp) {reason : DenyReason}
    (ha : authorize principalChain .undo = .deny reason) :
    undo c log target principalChain recordedAt = (.error (.denied reason),
      (log.append c authzDeniedKind principalChain (denialPayload c .undo reason) recordedAt).2) := by
  simp [undo, h, auditedAuthorize, ha]

theorem undo_eq_ok {log' : EventLog} {recordedAt : Nat}
    (h : undo c log target principalChain recordedAt = (.ok comp, log')) :
    computeCompensation c log target = .ok comp ∧ authorize principalChain .undo = .allow ∧
      log' = (log.append c comp.kind principalChain comp.payload recordedAt).2 := by
  cases hcomp : computeCompensation c log target with
  | error e => simp [undo, hcomp] at h
  | ok found =>
    cases ha : authorize principalChain .undo with
    | deny reason => simp [undo_denied recordedAt hcomp ha] at h
    | allow =>
      rw [undo_allowed recordedAt hcomp ha] at h
      obtain ⟨rfl, rfl⟩ : found = comp ∧ _ = log' := by simpa using h
      exact ⟨rfl, rfl, rfl⟩

theorem computeCompensation_replays (hc : c.Sound) {state : RefState} (hs : replay c log = .ok state)
    (hcomp : computeCompensation c log target = .ok comp) (principalChain : List String) (recordedAt : Nat) :
    ∃ targetRec v prior, log.records[target]? = some targetRec ∧
      c.fromStr targetRec.payload = some v ∧ v.fieldStr "ref" = some comp.refName ∧
      replayUnchecked c (log.records.take target) = .ok prior ∧
      replayUnchecked c (log.append c comp.kind principalChain comp.payload recordedAt).2.records =
        .ok (state.apply (some (comp.refName, prior.get comp.refName))) ∧
      (NextUnnamed c log → replay c (log.append c comp.kind principalChain comp.payload recordedAt).2 =
        .ok (state.apply (some (comp.refName, prior.get comp.refName)))) := by
  obtain ⟨targetRec, v, prior, ht, hp, hf, hr, hcomp'⟩ := computeCompensation_eq_ok hcomp
  have hw := refWrite_restoring hc log.records comp.refName (prior.get comp.refName) principalChain recordedAt
  rw [← hcomp'] at hw
  have hk : comp.kind ≠ provenanceRedactionKind := by
    rw [hcomp']
    exact restoring_kind_ne c _ _
  obtain ⟨hunchecked, hreplay⟩ := replay_append hs hk hw
  exact ⟨targetRec, v, prior, ht, hp, hf, hr, hunchecked, hreplay⟩

theorem denied_replays {state : RefState} (hs : replay c log = .ok state) (reason : DenyReason)
    (principalChain : List String) (recordedAt : Nat) :
    replayUnchecked c (log.append c authzDeniedKind principalChain
        (denialPayload c .undo reason) recordedAt).2.records = .ok state ∧
      (NextUnnamed c log → replay c (log.append c authzDeniedKind principalChain
        (denialPayload c .undo reason) recordedAt).2 = .ok state) := by
  have hw := refWrite_of_inert (c := c)
    (r := EventLog.nextRecord c log.records authzDeniedKind principalChain
      (denialPayload c .undo reason) recordedAt) (by simp [EventLog.nextRecord, authzDeniedKind])
    (by simp [EventLog.nextRecord, authzDeniedKind, intentLandedKind])
    (by simp [EventLog.nextRecord, authzDeniedKind])
  exact replay_append hs (by decide) hw

end

def updatedOnce (c : Crates) : EventLog :=
  (EventLog.empty.append c "ref.update" ["user:a"] (canonicalUpdate c "main" "a") 1).2

def updatedTwice (c : Crates) : EventLog :=
  ((updatedOnce c).append c "ref.update" ["user:a"] (canonicalUpdate c "main" "b") 2).2

theorem updatedOnce_replay {c : Crates} (hc : c.Sound) :
    replay c (updatedOnce c) = .ok (RefState.new.apply (some ("main", some "a"))) :=
  (replay_append (by rfl : replay c .empty = .ok .new) (restoring_kind_ne c _ _)
    (refWrite_restoring hc [] "main" (some "a") ["user:a"] 1)).2
    (nextUnnamed_of_redactionFree (by simp [RedactionFree, EventLog.empty]))

theorem updatedTwice_replay {c : Crates} (hc : c.Sound) : replay c (updatedTwice c) =
    .ok ((RefState.new.apply (some ("main", some "a"))).apply (some ("main", some "b"))) :=
  (replay_append (updatedOnce_replay hc) (restoring_kind_ne c _ _)
    (refWrite_restoring hc (updatedOnce c).records "main" (some "b") ["user:a"] 2)).2
    (nextUnnamed_of_redactionFree (by simp [RedactionFree, updatedOnce, EventLog.empty,
      EventLog.nextRecord, provenanceRedactionKind]))

theorem updatedTwice_compensation {c : Crates} (hc : c.Sound) :
    computeCompensation c (updatedTwice c) 1 = .ok (restoring c "main" (some "a")) := by
  have hv := (replay_eq_ok.mp (updatedTwice_replay hc)).1
  have hprior := (replay_eq_ok.mp (updatedOnce_replay hc)).2
  have hrt := hc.round_trip (.object [("ref", .string "main"), ("target", .string "b")])
    (by simp [Value.Flat, Value.IsLeaf])
  have ht : (updatedTwice c).records[1]? = some (EventLog.nextRecord c (updatedOnce c).records
    "ref.update" ["user:a"] (canonicalUpdate c "main" "b") 2) := rfl
  have htake : (updatedTwice c).records.take 1 = (updatedOnce c).records := rfl
  simp only [computeCompensation, hv, ht, htake, EventLog.nextRecord, canonicalUpdate, hrt, hprior]
  simp [Value.fieldStr, bind, Except.bind, RefState.get_apply_some]

end Hugit
