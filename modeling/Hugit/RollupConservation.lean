import Hugit.Fallible
import Hugit.RollupSums

/-! Cost conservation in the record of a pull request: the sums over landed and
other attempts are exact, and a record is refused for an overflow where one of
its sums overflows. -/

namespace Hugit

/-- The envelopes stand at their altitudes, and the author's is no subagent's. -/
structure Accepted (prEnvelope : ContextEnvelope) (intentEnvelopes : List ContextEnvelope) : Prop where
  pr : prEnvelope.altitude = .pr
  intents : ∀ env ∈ intentEnvelopes, env.altitude = .intent
  agentType : prEnvelope.authorship.agentType = topLevelAgentType
  parent : prEnvelope.authorship.spawn.parentRunId = none

structure SumsFit (prEnvelope : ContextEnvelope) (work waste : List ContextEnvelope) (ci : CiCost) : Prop where
  workTokens : totalOf (·.tokensTotal) work < 2 ^ 64
  workToolCalls : totalOf (·.toolCalls) work < 2 ^ 64
  workCost : totalOf (·.costUsdMicros) work < 2 ^ 64
  wasteTokens : totalOf (·.tokensTotal) waste < 2 ^ 64
  wasteCost : totalOf (·.costUsdMicros) waste < 2 ^ 64
  totalTokens : totalOf (·.tokensTotal) work + prEnvelope.metrics.tokensTotal < 2 ^ 64
  totalCost : totalOf (·.costUsdMicros) work + prEnvelope.metrics.costUsdMicros + ci.costUsdMicros < 2 ^ 64

theorem ensureAltitudes_eq_ok {expected : Altitude} {envelopes : List ContextEnvelope} :
    ensureAltitudes expected envelopes = .ok () ↔ ∀ env ∈ envelopes, env.altitude = expected := by
  induction envelopes with
  | nil => simp [ensureAltitudes]
  | cons env envelopes ih =>
    rw [ensureAltitudes, bind_eq_ok, List.forall_mem_cons, ← ih, ensureAltitude]
    by_cases he : env.altitude = expected <;> simp [he]

theorem ensureAltitudes_error {expected : Altitude} {envelopes : List ContextEnvelope} {e : RollupError}
    (h : ensureAltitudes expected envelopes = .error e) : ¬ IsOverflow e := by
  induction envelopes with
  | nil => cases h
  | cons env envelopes ih =>
    rw [ensureAltitudes, ensureAltitude] at h
    split_ifs at h
    · exact ih h
    · obtain rfl := Except.error.inj h
      rintro ⟨field, hf⟩
      cases hf

theorem checked_decompose (work : WorkCost) (orchestration : OrchestrationCost)
    (verification : VerificationCost) (ci : CiCost) (waste : WasteCost) :
    Checked IsOverflow (decompose work orchestration verification ci waste)
      (work.tokens + orchestration.tokens + verification.tokens < 2 ^ 64 ∧
        work.costUsdMicros + orchestration.costUsdMicros + verification.costUsdMicros + ci.costUsdMicros < 2 ^ 64)
      ⟨work, orchestration, verification, ci, waste,
        ⟨work.tokens + orchestration.tokens + verification.tokens,
          work.costUsdMicros + orchestration.costUsdMicros + verification.costUsdMicros + ci.costUsdMicros⟩⟩ := by
  have hsteps : Checked IsOverflow (decompose work orchestration verification ci waste)
      (work.tokens + orchestration.tokens < 2 ^ 64 ∧
        work.tokens + orchestration.tokens + verification.tokens < 2 ^ 64 ∧
        work.costUsdMicros + orchestration.costUsdMicros < 2 ^ 64 ∧
        work.costUsdMicros + orchestration.costUsdMicros + verification.costUsdMicros < 2 ^ 64 ∧
        work.costUsdMicros + orchestration.costUsdMicros + verification.costUsdMicros + ci.costUsdMicros < 2 ^ 64 ∧
        True)
      ⟨work, orchestration, verification, ci, waste,
        ⟨work.tokens + orchestration.tokens + verification.tokens,
          work.costUsdMicros + orchestration.costUsdMicros + verification.costUsdMicros + ci.costUsdMicros⟩⟩ := by
    refine (checked_add _ _ _).bind ?_
    refine (checked_add _ _ _).bind ?_
    refine (checked_add _ _ _).bind ?_
    refine (checked_add _ _ _).bind ?_
    refine (checked_add _ _ _).bind ?_
    exact .ok _
  refine hsteps.congr ⟨fun h => ⟨h.2.1, h.2.2.2.2.1⟩, fun h => ?_⟩
  obtain ⟨ht, hc⟩ := h
  exact ⟨by omega, ht, by omega, by omega, hc, trivial⟩

variable {prEnvelope : ContextEnvelope}

theorem prAuthor_eq_ok :
    (∃ author, prAuthor prEnvelope = .ok author) ↔
      prEnvelope.authorship.agentType = topLevelAgentType ∧ prEnvelope.authorship.spawn.parentRunId = none := by
  simp only [prAuthor, bind_eq_ok, ensureTopLevel]
  by_cases hagent : prEnvelope.authorship.agentType = topLevelAgentType
  · cases prEnvelope.authorship.spawn.parentRunId with
    | none =>
      simp only [hagent]
      by_cases hm : prEnvelope.authorship.model = "" <;> simp [hm, pure_eq_ok]
    | some parent => simp
  · simp [hagent]

theorem prAuthor_error {e : RollupError} (h : prAuthor prEnvelope = .error e) : ¬ IsOverflow e := by
  rintro ⟨field, rfl⟩
  rw [prAuthor, ensureTopLevel] at h
  split_ifs at h <;> cases h

theorem contains_landed (ids : List String) (id : String) :
    (ids.dedup.insertionSort (· ≤ ·)).contains id = ids.contains id := by
  rw [Bool.eq_iff_iff, List.contains_iff_mem, List.contains_iff_mem, List.mem_insertionSort, List.mem_dedup]

def exactCost (prEnvelope : ContextEnvelope) (work waste : List ContextEnvelope) (verdicts : Nat) (ci : CiCost)
    (discarded retried : Nat) : CostDecomposition where
  work := ⟨totalOf (·.tokensTotal) work, totalOf (·.toolCalls) work, totalOf (·.costUsdMicros) work⟩
  orchestration := orchestrationCost prEnvelope
  verification := verificationCost verdicts
  ci := ci
  waste := ⟨discarded, retried, totalOf (·.tokensTotal) waste, totalOf (·.costUsdMicros) waste⟩
  total := ⟨totalOf (·.tokensTotal) work + prEnvelope.metrics.tokensTotal,
    totalOf (·.costUsdMicros) work + prEnvelope.metrics.costUsdMicros + ci.costUsdMicros⟩

theorem checked_prCost (prEnvelope : ContextEnvelope) (attempts : List Attempts) (landed : List String)
    (verdicts : Nat) (ci : CiCost) :
    Checked IsOverflow (prCost prEnvelope attempts landed verdicts ci)
      (SumsFit prEnvelope (workAttempts landed attempts) (wasteAttempts landed attempts) ci)
      (exactCost prEnvelope (workAttempts landed attempts) (wasteAttempts landed attempts) verdicts ci
        (discardedIntents landed attempts) (retriedAgents attempts)) := by
  have hzero : SpendFits (⟨0, 0, 0⟩, ⟨0, 0, 0, 0⟩) :=
    ⟨Nat.two_pow_pos 64, Nat.two_pow_pos 64, Nat.two_pow_pos 64, Nat.two_pow_pos 64, Nat.two_pow_pos 64⟩
  have hspend := checked_spend landed attempts hzero
  rw [foldl_plusGroup] at hspend
  simp only [Nat.zero_add] at hspend
  refine (hspend.bind (checked_decompose _ _ _ _ _)).congr ⟨?_, ?_⟩
  · rintro ⟨hs, htokens, hcost⟩
    exact ⟨hs.1, hs.2, hs.3, hs.4, hs.5, htokens, hcost⟩
  · intro hs
    exact ⟨⟨hs.1, hs.2, hs.3, hs.4, hs.5⟩, hs.6, hs.7⟩

theorem prCost_landed (prEnvelope : ContextEnvelope) (attempts : List Attempts) (ids : List String)
    (verdicts : Nat) (ci : CiCost) :
    prCost prEnvelope attempts (ids.dedup.insertionSort (· ≤ ·)) verdicts ci =
      prCost prEnvelope attempts ids verdicts ci := by
  have hgroup : addGroup (ids.dedup.insertionSort (· ≤ ·)) = addGroup ids := by
    funext spend a
    simp only [addGroup, contains_landed]
  rw [prCost, hgroup, prCost]

variable {intentEnvelopes : List ContextEnvelope}

theorem prRecord_of_accepted (hacc : Accepted prEnvelope intentEnvelopes) (prEnvelopeRef : String)
    (landedIntentIds : List String) (verdicts : Nat) (ci : CiCost) (queue : PrQueueInput) :
    ∃ author, prRecord prEnvelope prEnvelopeRef intentEnvelopes landedIntentIds verdicts ci queue =
      (prCost prEnvelope (groupAttempts intentEnvelopes) landedIntentIds verdicts ci >>= fun cost =>
        pure (recordOf prEnvelope prEnvelopeRef intentEnvelopes landedIntentIds queue author cost)) := by
  obtain ⟨author, hauthor⟩ := prAuthor_eq_ok.mpr ⟨hacc.agentType, hacc.parent⟩
  have hpr : ensureAltitude prEnvelope .pr = .ok () := if_pos hacc.pr
  have hintents := ensureAltitudes_eq_ok.mpr hacc.intents
  refine ⟨author, ?_⟩
  rw [prRecord, hpr, hintents, hauthor, ← prCost_landed]
  rfl

theorem checked_prRecord (hacc : Accepted prEnvelope intentEnvelopes) (prEnvelopeRef : String)
    (landed : List String) (verdicts : Nat) (ci : CiCost) (queue : PrQueueInput) :
    let attempts := groupAttempts intentEnvelopes
    ∃ author, Checked IsOverflow (prRecord prEnvelope prEnvelopeRef intentEnvelopes landed verdicts ci queue)
      (SumsFit prEnvelope (workAttempts landed attempts) (wasteAttempts landed attempts) ci)
      (recordOf prEnvelope prEnvelopeRef intentEnvelopes landed queue author
        (exactCost prEnvelope (workAttempts landed attempts) (wasteAttempts landed attempts) verdicts ci
          (discardedIntents landed attempts) (retriedAgents attempts))) := by
  intro attempts
  obtain ⟨author, hresult⟩ := prRecord_of_accepted hacc prEnvelopeRef landed verdicts ci queue
  refine ⟨author, ?_⟩
  rw [hresult]
  refine ((checked_prCost prEnvelope attempts landed verdicts ci).bind ?_).congr (and_iff_left trivial)
  exact .ok _

theorem prRecord_of_not_accepted (hacc : ¬ Accepted prEnvelope intentEnvelopes) (prEnvelopeRef : String)
    (landedIntentIds : List String) (verdicts : Nat) (ci : CiCost) (queue : PrQueueInput) :
    ∃ e, prRecord prEnvelope prEnvelopeRef intentEnvelopes landedIntentIds verdicts ci queue = .error e ∧
      ¬ IsOverflow e := by
  rw [prRecord]
  cases hpr : ensureAltitude prEnvelope .pr with
  | error e =>
    refine ⟨e, rfl, ?_⟩
    rintro ⟨field, rfl⟩
    rw [ensureAltitude] at hpr
    split_ifs at hpr
    cases hpr
  | ok u =>
    cases hintents : ensureAltitudes .intent intentEnvelopes with
    | error e => exact ⟨e, rfl, ensureAltitudes_error hintents⟩
    | ok u =>
      cases hauthor : prAuthor prEnvelope with
      | error e => exact ⟨e, rfl, prAuthor_error hauthor⟩
      | ok author =>
        obtain ⟨hagent, hparent⟩ := prAuthor_eq_ok.mp ⟨author, hauthor⟩
        rw [ensureAltitude] at hpr
        split_ifs at hpr with haltitude
        exact absurd ⟨haltitude, ensureAltitudes_eq_ok.mp hintents, hagent, hparent⟩ hacc

/-- Work and waste of a record are the sums over the two parts of the envelopes,
its total is work, orchestration, verification and checks, and among accepted
envelopes an overflow is reported exactly where one of these sums overflows. -/
theorem prRecord_conserves (prEnvelope : ContextEnvelope) (prEnvelopeRef : String)
    (intentEnvelopes : List ContextEnvelope) (landedIntentIds : List String) (verdicts : Nat) (ci : CiCost)
    (queue : PrQueueInput) :
    let work := workAttempts landedIntentIds (groupAttempts intentEnvelopes)
    let waste := wasteAttempts landedIntentIds (groupAttempts intentEnvelopes)
    let result := prRecord prEnvelope prEnvelopeRef intentEnvelopes landedIntentIds verdicts ci queue
    (work ++ waste).Perm intentEnvelopes ∧
    (∀ record, result = .ok record →
      record.cost.work.tokens + record.cost.waste.tokensNotLanded = totalOf (·.tokensTotal) intentEnvelopes ∧
      record.cost.work.costUsdMicros + record.cost.waste.costUsdMicros =
        totalOf (·.costUsdMicros) intentEnvelopes ∧
      record.cost.work.tokens = totalOf (·.tokensTotal) work ∧
      record.cost.work.costUsdMicros = totalOf (·.costUsdMicros) work ∧
      record.cost.total.tokens =
        record.cost.work.tokens + prEnvelope.metrics.tokensTotal + record.cost.verification.tokens ∧
      record.cost.total.costUsdMicros = record.cost.work.costUsdMicros + prEnvelope.metrics.costUsdMicros +
        record.cost.verification.costUsdMicros + ci.costUsdMicros) ∧
    ((∃ field, result = .error (.overflow field)) ↔
      Accepted prEnvelope intentEnvelopes ∧ ¬ SumsFit prEnvelope work waste ci) := by
  intro work waste result
  have hperm := attempts_perm landedIntentIds intentEnvelopes
  refine ⟨hperm, ?_⟩
  by_cases hacc : Accepted prEnvelope intentEnvelopes
  · obtain ⟨author, hchecked⟩ := checked_prRecord hacc prEnvelopeRef landedIntentIds verdicts ci queue
    by_cases hfit : SumsFit prEnvelope work waste ci
    · have hok := hchecked.1 hfit
      refine ⟨fun record hr => ?_, ⟨fun ⟨field, he⟩ => ?_, fun h => absurd hfit h.2⟩⟩
      · obtain rfl := Except.ok.inj (hok.symm.trans hr)
        refine ⟨?_, ?_, rfl, rfl, rfl, rfl⟩
        · exact (totalOf_append _ _ _).symm.trans (totalOf_perm _ hperm)
        · exact (totalOf_append _ _ _).symm.trans (totalOf_perm _ hperm)
      · cases hok.symm.trans he
    · obtain ⟨e, ⟨field, rfl⟩, he⟩ := hchecked.2 hfit
      refine ⟨fun record hr => ?_, ⟨fun _ => ⟨hacc, hfit⟩, fun _ => ⟨field, he⟩⟩⟩
      cases he.symm.trans hr
  · obtain ⟨e, he, hno⟩ := prRecord_of_not_accepted hacc prEnvelopeRef landedIntentIds verdicts ci queue
    refine ⟨fun record hr => ?_, ⟨fun ⟨field, hf⟩ => ?_, fun h => absurd h.1 hacc⟩⟩
    · cases he.symm.trans hr
    · obtain rfl := Except.error.inj (he.symm.trans hf)
      exact absurd ⟨field, rfl⟩ hno

def intentAttempt (altitude : Altitude) (runId : String) (cost : Nat) : ContextEnvelope :=
  ⟨altitude, "intent-1", ⟨"model", "worker", ⟨runId, some "run-0", 1, 2⟩, "operator"⟩, ⟨0, 0, 0, 0, cost⟩⟩

def prSession : ContextEnvelope :=
  ⟨.pr, "pr-1", ⟨"model", "main", ⟨"run-0", none, 0, 3⟩, "operator"⟩, ⟨0, 0, 0, 0, 0⟩⟩

/-- The sum over all envelopes may overflow where work and waste do not, and an
envelope at the wrong altitude is refused before any sum is made. -/
theorem overflow_unreported :
    totalOf (·.costUsdMicros) [intentAttempt .intent "run-1" (2 ^ 63), intentAttempt .intent "run-2" (2 ^ 63)] =
        2 ^ 64 ∧
      (prRecord prSession "cas:pr" [intentAttempt .intent "run-1" (2 ^ 63), intentAttempt .intent "run-2" (2 ^ 63)]
        ["intent-1"] 0 ⟨0, 0, 0, 0⟩ ⟨0, 0, 0⟩).isOk = true ∧
      totalOf (·.costUsdMicros) (wasteAttempts [] (groupAttempts
        [intentAttempt .campaign "run-1" (2 ^ 63), intentAttempt .intent "run-2" (2 ^ 63)])) = 2 ^ 64 ∧
      prRecord prSession "cas:pr" [intentAttempt .campaign "run-1" (2 ^ 63), intentAttempt .intent "run-2" (2 ^ 63)]
        [] 0 ⟨0, 0, 0, 0⟩ ⟨0, 0, 0⟩ = .error (.wrongAltitude .intent .campaign "intent-1") := by
  refine ⟨by decide +kernel, by decide +kernel, by decide +kernel, by rfl⟩

end Hugit
