import Hugit.Redaction
import Hugit.Undo

/-! Undo applied to its own records and to observations. An undo is undone from the
replay of the log before it; a captured observation that names a ref is compensated
as if it had moved that ref. -/

namespace Hugit

structure NewEvent where
  kind : String
  principalChain : List String
  payload : String
  recordedAt : Nat

def EventLog.appendAll (c : Crates) (log : EventLog) (events : List NewEvent) : EventLog :=
  events.foldl (fun log e => (log.append c e.kind e.principalChain e.payload e.recordedAt).2) log

theorem EventLog.appendAll_records (c : Crates) (log : EventLog) (events : List NewEvent) :
    ∃ tail, (log.appendAll c events).records = log.records ++ tail := by
  induction events generalizing log with
  | nil => exact ⟨[], by simp [appendAll]⟩
  | cons e events ih =>
    obtain ⟨tail, htail⟩ := ih (log.append c e.kind e.principalChain e.payload e.recordedAt).2
    refine ⟨EventLog.nextRecord c log.records e.kind e.principalChain e.payload e.recordedAt :: tail, ?_⟩
    have hh : log.appendAll c (e :: events) =
        (log.append c e.kind e.principalChain e.payload e.recordedAt).2.appendAll c events := rfl
    rw [hh, htail]
    simp

section Compensation

variable {c : Crates} {log : EventLog} {target : Nat} {targetRec : EventRecord} {v : Value}

theorem replayUnchecked_take {records : List EventRecord} {state : RefState}
    (h : replayUnchecked c records = .ok state) (n : Nat) :
    ∃ prior, replayUnchecked c (records.take n) = .ok prior := by
  cases hp : replayUnchecked c (records.take n) with
  | ok prior => exact ⟨prior, rfl⟩
  | error e =>
    rw [replayUnchecked] at hp
    rw [replayUnchecked, ← List.take_append_drop n records, List.foldlM_append, hp] at h
    cases h

theorem computeCompensation_of_ref (hv : verifyChain c log.records = .ok ())
    (ht : log.records[target]? = some targetRec)
    (hk : targetRec.kind = "ref.update" ∨ targetRec.kind = "ref.delete" ∨ targetRec.kind = intentLandedKind)
    (hp : c.fromStr targetRec.payload = some v) {name : String} (hf : v.fieldStr "ref" = some name)
    {prior : RefState} (hr : replayUnchecked c (log.records.take target) = .ok prior) :
    computeCompensation c log target = .ok (restoring c name (prior.get name)) := by
  simp only [computeCompensation, hv, ht, if_pos hk, hp, okOr_some, bind, Except.bind, hf, hr]

theorem computeCompensation_of_no_ref (hv : verifyChain c log.records = .ok ())
    (ht : log.records[target]? = some targetRec)
    (hk : targetRec.kind = "ref.update" ∨ targetRec.kind = "ref.delete" ∨ targetRec.kind = intentLandedKind)
    (hp : c.fromStr targetRec.payload = some v) (hf : v.fieldStr "ref" = none) :
    computeCompensation c log target = .error (.badTargetPayload target targetRec.kind) := by
  simp only [computeCompensation, hv, ht, if_pos hk, hp, okOr_some, bind, Except.bind, hf]
  rfl

theorem restoring_ref {c : Crates} (hc : c.Sound) (name : String) (prior : Option String) :
    ((restoring c name prior).kind = "ref.update" ∨ (restoring c name prior).kind = "ref.delete" ∨
      (restoring c name prior).kind = intentLandedKind) ∧
    ∃ v, c.fromStr (restoring c name prior).payload = some v ∧ v.fieldStr "ref" = some name := by
  cases prior with
  | none =>
    exact ⟨.inr (.inl rfl), _, hc.round_trip (.object [("ref", .string name)])
      (by simp [Value.Flat, Value.IsLeaf]), by simp [Value.fieldStr]⟩
  | some value =>
    exact ⟨.inl rfl, _, hc.round_trip (.object [("ref", .string name), ("target", .string value)])
      (by simp [Value.Flat, Value.IsLeaf]), by simp [Value.fieldStr]⟩

end Compensation

section Twice

variable {c : Crates} {log log₁ : EventLog} {before : RefState} {target n recordedAt : Nat}
  {principalChain : List String} {comp : Compensation}

theorem compensation_of_undo (hc : c.Sound) (hs : replay c log = .ok before)
    (hu : undo c log target principalChain recordedAt = (.ok comp, log₁)) {tail : List EventRecord}
    {later : EventLog} (hlater : later.records = log₁.records ++ tail)
    (hv : verifyChain c later.records = .ok ()) :
    computeCompensation c later log.len = .ok (restoring c comp.refName (before.get comp.refName)) := by
  obtain ⟨hcomp, -, rfl⟩ := undo_eq_ok hu
  obtain ⟨_, _, prior, _, _, _, _, hcomp'⟩ := computeCompensation_eq_ok hcomp
  obtain ⟨hkind, v, hp, hf⟩ := restoring_ref hc comp.refName (prior.get comp.refName)
  rw [← hcomp'] at hkind hp
  rw [EventLog.append_snd_records, List.append_assoc] at hlater
  have ht : later.records[log.len]? =
      some (EventLog.nextRecord c log.records comp.kind principalChain comp.payload recordedAt) := by
    simp [hlater, EventLog.len]
  have htake : later.records.take log.len = log.records := by
    rw [hlater, EventLog.len, List.take_left]
  refine computeCompensation_of_ref hv ht hkind hp hf ?_
  rw [htake]
  exact (replay_eq_ok.mp hs).2

/-- Undoing an undo gives the ref back the value it had before, and leaves the other
refs where the events in between put them, as soon as a human asks and the log is
still accepted and replayed. -/
theorem undo_undo_restores_iff (hc : c.Sound) (hs : replay c log = .ok before)
    (hu : undo c log target principalChain recordedAt = (.ok comp, log₁))
    (hn : log₁.records.getLast?.map EventRecord.seq = some n) (events : List NewEvent)
    (principalChain' : List String) (recordedAt' : Nat) :
    (∃ comp' log₂ between after,
      undo c (log₁.appendAll c events) n principalChain' recordedAt' = (.ok comp', log₂) ∧
      replayUnchecked c (log₁.appendAll c events).records = .ok between ∧
      replayUnchecked c log₂.records = .ok after ∧
      after.get comp.refName = before.get comp.refName ∧
      ∀ name, name ≠ comp.refName → after.get name = between.get name) ↔
    IsHuman principalChain' ∧ ∃ between, replay c (log₁.appendAll c events) = .ok between := by
  obtain ⟨tail, htail⟩ := log₁.appendAll_records c events
  have hseq : n = log.len := by
    obtain ⟨-, -, rfl⟩ := undo_eq_ok hu
    simpa [EventLog.nextRecord, EventLog.len, eq_comm] using hn
  subst hseq
  constructor
  · rintro ⟨comp', log₂, between, after, hu', hbetween, -⟩
    obtain ⟨hcomp', ha, -⟩ := undo_eq_ok hu'
    refine ⟨authorize_undo_eq_allow.mp ha, between, replay_eq_ok.mpr ⟨?_, hbetween⟩⟩
    cases hv : verifyChain c (log₁.appendAll c events).records with
    | ok u => rfl
    | error e => simp [computeCompensation, hv] at hcomp'
  · rintro ⟨hh, between, hbetween⟩
    obtain ⟨hv, hr⟩ := replay_eq_ok.mp hbetween
    have hcomp' := compensation_of_undo hc hs hu htail hv
    have hu' := undo_allowed recordedAt' hcomp' (authorize_undo_eq_allow.mpr hh)
    have hw := refWrite_restoring hc (log₁.appendAll c events).records comp.refName
      (before.get comp.refName) principalChain' recordedAt'
    refine ⟨_, _, between, _, hu', hr, replayUnchecked_concat hr hw, ?_, fun name hne => ?_⟩
    · rw [RefState.get_apply_some, if_pos rfl]
    · rw [RefState.get_apply_some, if_neg (Ne.symm hne)]

end Twice

/-- The undo of the second update, undone again after a note. -/
theorem updatedTwice_redone : ∃ log₁ log₂ comp' after,
    undo reference (updatedTwice reference) 1 ["user:a"] 3 =
      (.ok (restoring reference "main" (some "a")), log₁) ∧
    undo reference (log₁.appendAll reference [⟨"note", ["agent:x"], "null", 4⟩]) 2 ["user:a"] 5 =
      (.ok comp', log₂) ∧
    replayUnchecked reference log₂.records = .ok after ∧ after.get "main" = some "b" := by
  have hs := updatedTwice_replay reference_sound
  have hcomp := updatedTwice_compensation reference_sound
  have hu := undo_allowed 3 hcomp (by decide : authorize ["user:a"] .undo = .allow)
  obtain ⟨_, _, _, _, _, _, _, _, hreplay⟩ :=
    computeCompensation_replays reference_sound hs hcomp ["user:a"] 3
  have hundone := hreplay (nextUnnamed_of_redactionFree (by decide))
  have hnoted := (replay_append hundone (by decide : "note" ≠ provenanceRedactionKind)
    (refWrite_of_inert (by simp [EventLog.nextRecord]) (by simp [EventLog.nextRecord, intentLandedKind])
      (by simp [EventLog.nextRecord]) : refWrite reference (EventLog.nextRecord reference _ "note"
        ["agent:x"] "null" 4) = .ok none)).2 (nextUnnamed_of_redactionFree (by decide))
  obtain ⟨comp', log₂, _, after, hu', _, hafter, hmain, _⟩ :=
    (undo_undo_restores_iff reference_sound hs hu rfl [⟨"note", ["agent:x"], "null", 4⟩] ["user:a"] 5).mpr
      ⟨authorize_undo_eq_allow.mp (by decide), _, hnoted⟩
  refine ⟨_, log₂, comp', after, hu, hu', hafter, hmain.trans ?_⟩
  rw [RefState.get_apply_some]
  rfl

theorem verifyChain_append_named {c : Crates} (hc : c.Sound) {log : EventLog} {k : RedactionCommitment}
    (hk : (collectRedactions c log.records)[log.len]? = some k) (hl : k.originalThisHash.length ≠ 64)
    {kind : String} (hkind : kind ≠ provenanceRedactionKind) (principalChain : List String) (payload : String)
    (recordedAt : Nat) :
    ∃ e, verifyChain c (log.append c kind principalChain payload recordedAt).2.records = .error e := by
  cases hv : verifyChain c (log.append c kind principalChain payload recordedAt).2.records with
  | error e => exact ⟨e, rfl⟩
  | ok u =>
    have hcontent := (verifyChain_ok_iff.mp hv).2 log.records.length
      (EventLog.nextRecord c log.records kind principalChain payload recordedAt) (by simp)
    have hmarker : marker c (EventLog.nextRecord c log.records kind principalChain payload recordedAt) = none :=
      if_neg hkind
    rw [EventLog.append_snd_records, collectRedactions_concat, hmarker] at hcontent
    have hk' : (collectRedactions c log.records)[log.records.length]? = some k := hk
    rw [hk'] at hcontent
    exact absurd hcontent.1 (computeThisHash_ne hc hl _ _ _ _ _)

/-- One update, and a marker that names the place after its own. -/
def namedAhead (c : Crates) : EventLog :=
  ((updatedOnce c).append c provenanceRedactionKind ["user:a"]
    (RedactionCommitment.toPayload c ⟨"x", "y"⟩ 2) 2).2

section NamedAhead

variable {c : Crates} (hc : c.Sound)

include hc

theorem namedAhead_marker : marker c ((updatedOnce c).append c provenanceRedactionKind ["user:a"]
    (RedactionCommitment.toPayload c ⟨"x", "y"⟩ 2) 2).1 = some (2, ⟨"x", "y"⟩) := by
  rw [marker_append_redaction]
  exact RedactionCommitment.parse_toPayload hc _ (by decide) (by decide) (by decide)

theorem namedAhead_replay : ∃ state, replay c (namedAhead c) = .ok state := by
  obtain ⟨hv, hr⟩ := replay_eq_ok.mp (updatedOnce_replay hc)
  have hfree : RedactionFree (updatedOnce c).records := by
    simp [RedactionFree, updatedOnce, EventLog.empty, EventLog.nextRecord, provenanceRedactionKind]
  have hw : refWrite c (EventLog.nextRecord c (updatedOnce c).records provenanceRedactionKind ["user:a"]
      (RedactionCommitment.toPayload c ⟨"x", "y"⟩ 2) 2) = .ok none :=
    refWrite_of_inert (by simp [EventLog.nextRecord, provenanceRedactionKind])
      (by simp [EventLog.nextRecord, provenanceRedactionKind, intentLandedKind])
      (by simp [EventLog.nextRecord, provenanceRedactionKind])
  refine ⟨_, replay_eq_ok.mpr ⟨?_, replayUnchecked_concat hr hw⟩⟩
  refine verifyChain_append hv (redactionFree_markers hfree _) fun w hw => .inl ?_
  rw [namedAhead_marker hc] at hw
  obtain rfl := Option.some.inj hw
  simp [EventLog.len, updatedOnce, EventLog.empty]

theorem namedAhead_compensation : computeCompensation c (namedAhead c) 0 = .ok (restoring c "main" none) := by
  obtain ⟨state, hs⟩ := namedAhead_replay hc
  have hprior : replayUnchecked c ((namedAhead c).records.take 0) = .ok .new := rfl
  exact computeCompensation_of_ref (replay_eq_ok.mp hs).1 rfl (.inl rfl)
    (hc.round_trip (.object [("ref", .string "main"), ("target", .string "a")])
      (by simp [Value.Flat, Value.IsLeaf])) (by simp [Value.fieldStr]) hprior

theorem namedAhead_undone : ∃ state comp log₁ e, replay c (namedAhead c) = .ok state ∧
    undo c (namedAhead c) 0 ["user:a"] 3 = (.ok comp, log₁) ∧
    log₁.records.getLast?.map EventRecord.seq = some 2 ∧
    undo c log₁ 2 ["user:a"] 4 = (.error (.tamper e), log₁) := by
  obtain ⟨state, hs⟩ := namedAhead_replay hc
  have hu := undo_allowed 3 (namedAhead_compensation hc) (by decide : authorize ["user:a"] .undo = .allow)
  have hlen : (namedAhead c).len = 2 := rfl
  have hk : (collectRedactions c (namedAhead c).records)[(namedAhead c).len]? = some ⟨"x", "y"⟩ := by
    rw [hlen, namedAhead, EventLog.append_snd_records, collectRedactions_concat, ← EventLog.append_fst,
      namedAhead_marker hc]
    exact if_pos rfl
  obtain ⟨e, he⟩ := verifyChain_append_named hc hk (by decide) (restoring_kind_ne c "main" none) ["user:a"]
    (restoring c "main" none).payload 3
  refine ⟨state, _, _, e, hs, hu, rfl, ?_⟩
  simp only [undo, computeCompensation, he]

end NamedAhead

/-- The log replays and its update is undone, but the undo cannot be undone: the log
is no longer accepted. -/
theorem undo_not_undoable : ∃ state comp log₁ e, replay reference (namedAhead reference) = .ok state ∧
    undo reference (namedAhead reference) 0 ["user:a"] 3 = (.ok comp, log₁) ∧
    log₁.records.getLast?.map EventRecord.seq = some 2 ∧
    undo reference log₁ 2 ["user:a"] 4 = (.error (.tamper e), log₁) :=
  namedAhead_undone reference_sound

section Observations

variable {c : Crates} {log : EventLog} {state : RefState} {target : Nat} {observed : EventRecord} {v : Value}

structure IsObservation (c : Crates) (r : EventRecord) (v : Value) : Prop where
  kind : r.kind = "ref.update" ∨ r.kind = intentLandedKind
  reads : c.fromStr r.payload = some v
  inert : inertCapture v = true

theorem IsObservation.refWrite (h : IsObservation c observed v) : refWrite c observed = .ok none := by
  simp [Hugit.refWrite, h.kind, parsePayload, h.reads, h.inert, bind, Except.bind, pure, Except.pure]

/-- The undo of an observation by a human that names a ref finds that ref where it was
at the observation. -/
def RefUnmoved (c : Crates) (log : EventLog) (state : RefState) (target : Nat) (v : Value)
    (principalChain : List String) : Prop :=
  IsHuman principalChain → ∀ name, v.fieldStr "ref" = some name →
    ∀ prior, replayUnchecked c (log.records.take target) = .ok prior → prior.get name = state.get name

theorem apply_some_eq_self {w : String × Option String} : state.apply (some w) = state ↔ w.2 = state.get w.1 := by
  constructor
  · intro h
    have hh := state.get_apply_some w w.1
    rw [h, if_pos rfl] at hh
    exact hh.symm
  · intro h
    ext1 name
    rw [RefState.get_apply_some]
    split_ifs with hn
    · rw [h, hn]
    · rfl

/-- Undoing an observation moves nothing exactly when no human asks for it, it names no
ref, or the ref it names has its old value still. -/
theorem undo_observation_iff (hc : c.Sound) (hs : replay c log = .ok state)
    (ht : log.records[target]? = some observed) (ho : IsObservation c observed v)
    (principalChain : List String) (recordedAt : Nat) :
    (replayUnchecked c (undo c log target principalChain recordedAt).2.records = .ok state ↔
      RefUnmoved c log state target v principalChain) ∧
    (NextUnnamed c log → (replay c (undo c log target principalChain recordedAt).2 = .ok state ↔
      RefUnmoved c log state target v principalChain)) := by
  obtain ⟨hv, hr⟩ := replay_eq_ok.mp hs
  obtain ⟨prior, hprior⟩ := replayUnchecked_take hr target
  have hkind : observed.kind = "ref.update" ∨ observed.kind = "ref.delete" ∨
      observed.kind = intentLandedKind := by
    rcases ho.kind with h | h
    · exact .inl h
    · exact .inr (.inr h)
  cases hf : v.fieldStr "ref" with
  | none =>
    have hu : (undo c log target principalChain recordedAt).2 = log := by
      simp [undo, computeCompensation_of_no_ref hv ht hkind ho.reads hf]
    have hmoved : RefUnmoved c log state target v principalChain := by
      intro _ name hname
      rw [hf] at hname
      cases hname
    rw [hu]
    exact ⟨iff_of_true hr hmoved, fun _ => iff_of_true hs hmoved⟩
  | some name =>
    have hcomp := computeCompensation_of_ref hv ht hkind ho.reads hf hprior
    cases ha : authorize principalChain .undo with
    | deny reason =>
      rw [undo_denied recordedAt hcomp ha]
      obtain ⟨hunchecked, hreplay⟩ := denied_replays hs reason principalChain recordedAt
      have hmoved : RefUnmoved c log state target v principalChain := by
        intro hh
        rw [authorize_undo_eq_allow.mpr hh] at ha
        cases ha
      exact ⟨iff_of_true hunchecked hmoved, fun hn => iff_of_true (hreplay hn) hmoved⟩
    | allow =>
      rw [undo_allowed recordedAt hcomp ha]
      have hw := refWrite_restoring hc log.records name (prior.get name) principalChain recordedAt
      obtain ⟨hunchecked, hreplay⟩ := replay_append hs (restoring_kind_ne c name (prior.get name)) hw
      have hmoved : RefUnmoved c log state target v principalChain ↔
          state.apply (some (name, prior.get name)) = state := by
        rw [apply_some_eq_self]
        constructor
        · intro h
          exact h (authorize_undo_eq_allow.mp ha) name hf prior hprior
        · intro h _ name' hname' prior' hprior'
          rw [hf] at hname'
          rw [hprior] at hprior'
          cases hname'
          cases hprior'
          exact h
      rw [hmoved]
      refine ⟨?_, fun hn => ?_⟩
      · rw [hunchecked, Except.ok.injEq]
      · rw [hreplay hn, Except.ok.injEq]

end Observations

def mergePayload : Value :=
  .object [("merge_kind", .string "unknown"), ("ref", .string "main"), ("target", .string "b")]

def mergedOnce (c : Crates) : EventLog :=
  ((updatedOnce c).append c "ref.update" ["orchestrator:hugit-hook"] (c.print mergePayload) 2).2

def pushedAfter (c : Crates) : EventLog :=
  ((mergedOnce c).append c "ref.update" ["user:a"] (canonicalUpdate c "main" "b") 3).2

section Merges

variable {c : Crates} (hc : c.Sound)

include hc

theorem merge_observed : IsObservation c (EventLog.nextRecord c (updatedOnce c).records "ref.update"
    ["orchestrator:hugit-hook"] (c.print mergePayload) 2) mergePayload :=
  ⟨.inl rfl, hc.round_trip mergePayload (by simp [mergePayload, Value.Flat, Value.IsLeaf]), by decide⟩

theorem mergedOnce_replay :
    replay c (mergedOnce c) = .ok (RefState.new.apply (some ("main", some "a"))) :=
  (replay_append (updatedOnce_replay hc) (by decide) (merge_observed hc).refWrite).2
    (nextUnnamed_of_redactionFree (by simp [RedactionFree, updatedOnce, EventLog.empty,
      EventLog.nextRecord, provenanceRedactionKind]))

theorem pushedAfter_replay : replay c (pushedAfter c) =
    .ok ((RefState.new.apply (some ("main", some "a"))).apply (some ("main", some "b"))) :=
  (replay_append (mergedOnce_replay hc) (restoring_kind_ne c _ _)
    (refWrite_restoring hc (mergedOnce c).records "main" (some "b") ["user:a"] 3)).2
    (nextUnnamed_of_redactionFree (by simp [RedactionFree, mergedOnce, updatedOnce, EventLog.empty,
      EventLog.nextRecord, provenanceRedactionKind]))

theorem pushedAfter_compensation :
    computeCompensation c (pushedAfter c) 1 = .ok (restoring c "main" (some "a")) := by
  have hprior : replayUnchecked c ((pushedAfter c).records.take 1) =
      .ok (RefState.new.apply (some ("main", some "a"))) := (replay_eq_ok.mp (updatedOnce_replay hc)).2
  have hcomp := computeCompensation_of_ref (replay_eq_ok.mp (pushedAfter_replay hc)).1 rfl (.inl rfl)
    (merge_observed hc).reads (by decide : mergePayload.fieldStr "ref" = some "main") hprior
  rwa [RefState.get_apply_some, if_pos rfl] at hcomp

end Merges

/-- The undo of a captured merge takes back the update that came after it. -/
theorem undo_merge_moves_ref : ∃ observed state after,
    replay reference (pushedAfter reference) = .ok state ∧
    (pushedAfter reference).records[1]? = some observed ∧
    IsObservation reference observed mergePayload ∧
    replay reference (undo reference (pushedAfter reference) 1 ["user:a"] 4).2 = .ok after ∧
    state.get "main" = some "b" ∧ after.get "main" = some "a" := by
  have hs := pushedAfter_replay reference_sound
  have hcomp := pushedAfter_compensation reference_sound
  have hw := refWrite_restoring reference_sound (pushedAfter reference).records "main" (some "a") ["user:a"] 4
  have hundone := (replay_append hs (restoring_kind_ne reference _ _) hw).2
    (nextUnnamed_of_redactionFree (by decide))
  rw [undo_allowed 4 hcomp (by decide)]
  refine ⟨_, _, _, hs, rfl, merge_observed reference_sound, hundone, ?_, ?_⟩
  · rw [RefState.get_apply_some, if_pos rfl]
  · rw [RefState.get_apply_some, if_pos rfl]

/-- The undo of a captured merge that nothing followed. -/
theorem undo_merge_unmoved :
    replay reference (mergedOnce reference) = .ok (RefState.new.apply (some ("main", some "a"))) ∧
    replay reference (undo reference (mergedOnce reference) 1 ["user:a"] 3).2 =
      .ok (RefState.new.apply (some ("main", some "a"))) := by
  have hs := mergedOnce_replay reference_sound
  have hprior := (replay_eq_ok.mp (updatedOnce_replay reference_sound)).2
  have ht : (mergedOnce reference).records[1]? = some (EventLog.nextRecord reference
    (updatedOnce reference).records "ref.update" ["orchestrator:hugit-hook"]
    (reference.print mergePayload) 2) := rfl
  refine ⟨hs, ((undo_observation_iff reference_sound hs ht (merge_observed reference_sound) ["user:a"] 3).2
    (nextUnnamed_of_redactionFree (by decide))).mpr ?_⟩
  intro _ name _ prior hp
  have htake : (mergedOnce reference).records.take 1 = (updatedOnce reference).records := rfl
  rw [htake, hprior] at hp
  obtain rfl := Except.ok.inj hp
  rfl

end Hugit
