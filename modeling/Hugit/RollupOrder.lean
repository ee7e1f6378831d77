import Hugit.RollupConservation

/-! The record of a pull request does not depend on the order in which the
envelopes of its intents arrive. -/

namespace Hugit

open Std

def attemptOrder : ContextEnvelope → ContextEnvelope → Ordering :=
  compareLex (compareOn fun e => e.authorship.spawn.bornAt) (compareOn fun e => e.authorship.spawn.runId)

instance : TransCmp attemptOrder :=
  inferInstanceAs (TransCmp (compareLex (compareOn _) (compareOn _)))

theorem isBetter_iff {i best : Nat} {env bestEnv : ContextEnvelope} :
    isBetter i env best bestEnv = true ↔
      attemptOrder env bestEnv = .gt ∨ attemptOrder env bestEnv = .eq ∧ best < i := by
  unfold isBetter attemptOrder compareLex compareOn
  cases compare env.authorship.spawn.bornAt bestEnv.authorship.spawn.bornAt <;>
    cases compare env.authorship.spawn.runId bestEnv.authorship.spawn.runId <;> simp

theorem attemptOrder_eq {a b : ContextEnvelope} (h : attemptOrder a b = .eq) :
    (a.authorship.spawn.bornAt, a.authorship.spawn.runId) = (b.authorship.spawn.bornAt, b.authorship.spawn.runId) := by
  obtain ⟨hborn, hrun⟩ := Ordering.then_eq_eq.mp h
  exact Prod.ext (LawfulEqCmp.compare_eq_iff_eq.mp hborn) (LawfulEqCmp.compare_eq_iff_eq.mp hrun)

theorem finalAttemptFrom_greatest {group envs : List ContextEnvelope} {best i : Nat} {m : ContextEnvelope}
    (hrest : group.drop i = envs) (hm : group[best]? = some m)
    (hbest : ∀ e ∈ group.take i, (attemptOrder e m).isLE = true) :
    ∃ m', group[finalAttemptFrom group best i envs]? = some m' ∧
      ∀ e ∈ group, (attemptOrder e m').isLE = true := by
  induction envs generalizing best i m with
  | nil =>
    rw [List.take_of_length_le (List.drop_eq_nil_iff.mp hrest)] at hbest
    exact ⟨m, hm, hbest⟩
  | cons env envs ih =>
    have hi : group[i]? = some env := by
      rw [← List.head?_drop, hrest]
      rfl
    have hrest' : group.drop (i + 1) = envs := by
      rw [← List.tail_drop, hrest]
      rfl
    have htake : group.take (i + 1) = group.take i ++ [env] := by
      rw [List.take_add_one, hi]
      rfl
    rw [finalAttemptFrom, hm]
    by_cases hbetter : isBetter i env best m = true
    · rw [Option.any_some, hbetter]
      refine ih hrest' hi fun e he => ?_
      have hle : (attemptOrder m env).isLE = true := by
        rw [@OrientedCmp.eq_swap _ attemptOrder]
        rcases isBetter_iff.mp hbetter with h | ⟨h, -⟩ <;> rw [h] <;> rfl
      rw [htake, List.mem_append, List.mem_singleton] at he
      rcases he with he | rfl
      · exact TransCmp.isLE_trans (hbest e he) hle
      · exact ReflCmp.isLE_rfl
    · rw [Option.any_some, Bool.eq_false_of_not_eq_true hbetter]
      refine ih hrest' hm fun e he => ?_
      rw [htake, List.mem_append, List.mem_singleton] at he
      rcases he with he | rfl
      · exact hbest e he
      · cases h : attemptOrder e m with
        | lt => rfl
        | eq => rfl
        | gt => exact absurd (isBetter_iff.mpr (.inl h)) hbetter

theorem finalAttempt_greatest {group : List ContextEnvelope} (hne : group ≠ []) :
    ∃ m, group[finalAttemptIdx group]? = some m ∧ ∀ e ∈ group, (attemptOrder e m).isLE = true := by
  cases group with
  | nil => exact absurd rfl hne
  | cons e group => exact finalAttemptFrom_greatest rfl rfl (by simp)

/-- No two attempts at an intent were born at one time with one run id. -/
def AttemptsApart (envelopes : List ContextEnvelope) : Prop :=
  (envelopes.map fun e => (e.intentId, e.authorship.spawn.bornAt, e.authorship.spawn.runId)).Nodup

instance (envelopes : List ContextEnvelope) : Decidable (AttemptsApart envelopes) :=
  inferInstanceAs (Decidable (List.Nodup _))

theorem AttemptsApart.eq {envelopes : List ContextEnvelope} (h : AttemptsApart envelopes) {a b : ContextEnvelope}
    (ha : a ∈ envelopes) (hb : b ∈ envelopes) (hid : a.intentId = b.intentId) (ho : attemptOrder a b = .eq) :
    a = b :=
  List.inj_on_of_nodup_map h ha hb (Prod.ext hid (attemptOrder_eq ho))

theorem finalAttempt_perm {envelopes : List ContextEnvelope} (h : AttemptsApart envelopes) {id : String}
    {group group' : List ContextEnvelope} (hmem : ∀ e ∈ group, e ∈ envelopes ∧ e.intentId = id)
    (hp : group.Perm group') : group[finalAttemptIdx group]? = group'[finalAttemptIdx group']? := by
  by_cases hne : group = []
  · subst hne
    rw [List.nil_perm.mp hp]
  · have hne' : group' ≠ [] := fun he => hne (List.perm_nil.mp (he ▸ hp))
    obtain ⟨m, hm, hgreatest⟩ := finalAttempt_greatest hne
    obtain ⟨m', hm', hgreatest'⟩ := finalAttempt_greatest hne'
    have hin := List.mem_of_getElem? hm
    have hin' := hp.mem_iff.mpr (List.mem_of_getElem? hm')
    have hle := hgreatest m' hin'
    have hge := hgreatest' m (hp.mem_iff.mp hin)
    have heq : attemptOrder m m' = .eq := by
      rw [@OrientedCmp.eq_swap _ attemptOrder] at hle
      cases ho : attemptOrder m m' with
      | lt => simp [ho] at hle
      | eq => rfl
      | gt => simp [ho] at hge
    obtain ⟨hmem₁, hid₁⟩ := hmem m hin
    obtain ⟨hmem₂, hid₂⟩ := hmem m' hin'
    rw [hm, hm', h.eq hmem₁ hmem₂ (hid₁.trans hid₂.symm) heq]

section Groups

variable {envelopes envelopes' : List ContextEnvelope}

theorem flatMap_groupAttempts {β : Type} (f : Attempts → List β) (envelopes : List ContextEnvelope) :
    (groupAttempts envelopes).flatMap f = ((groupAttempts envelopes).map Prod.fst).flatMap fun id =>
      f (id, envelopes.filter fun e => e.intentId = id) := by
  rw [List.flatMap_map]
  exact List.flatMap_congr fun a ha => congrArg f (Prod.ext rfl ((groupAttempts_group envelopes).2.2 a ha))

theorem intentIds_perm (hp : envelopes.Perm envelopes') :
    ((groupAttempts envelopes).map Prod.fst).Perm ((groupAttempts envelopes').map Prod.fst) := by
  obtain ⟨hnd, hids, -⟩ := groupAttempts_group envelopes
  obtain ⟨hnd', hids', -⟩ := groupAttempts_group envelopes'
  refine (List.perm_ext_iff_of_nodup hnd hnd').mpr fun id => ?_
  rw [hids, hids']
  simp only [hp.mem_iff]

end Groups

section Invariance

variable {envelopes envelopes' : List ContextEnvelope} (hp : envelopes.Perm envelopes')
include hp

theorem workAttempts_perm (h : AttemptsApart envelopes) (landed : List String) :
    (workAttempts landed (groupAttempts envelopes)).Perm (workAttempts landed (groupAttempts envelopes')) := by
  rw [workAttempts, workAttempts, flatMap_groupAttempts _ envelopes, flatMap_groupAttempts _ envelopes']
  refine (intentIds_perm hp).flatMap fun id _ => ?_
  rw [finalAttempt_perm h (fun e he => by simpa using he) (hp.filter fun e => e.intentId = id)]

theorem totalOf_waste (h : AttemptsApart envelopes) (landed : List String) (f : IntentMetrics → Nat) :
    totalOf f (wasteAttempts landed (groupAttempts envelopes)) =
      totalOf f (wasteAttempts landed (groupAttempts envelopes')) := by
  -- work and waste part the envelopes, and the works are the same
  have hall := totalOf_perm f ((attempts_perm landed envelopes).trans (hp.trans (attempts_perm landed envelopes').symm))
  rw [totalOf_append, totalOf_append, totalOf_perm f (workAttempts_perm hp h landed)] at hall
  omega

theorem discardedIntents_perm (landed : List String) :
    discardedIntents landed (groupAttempts envelopes) = discardedIntents landed (groupAttempts envelopes') := by
  have hids (envelopes : List ContextEnvelope) : discardedIntents landed (groupAttempts envelopes) =
      (((groupAttempts envelopes).map Prod.fst).filter fun id => !landed.contains id).length := by
    rw [List.filter_map, List.length_map]
    rfl
  rw [hids, hids]
  exact ((intentIds_perm hp).filter _).length_eq

theorem retriedAgents_perm : retriedAgents (groupAttempts envelopes) = retriedAgents (groupAttempts envelopes') := by
  have hlen (id : String) := (hp.filter fun e => e.intentId = id).length_eq
  have hsum (envelopes : List ContextEnvelope) : retriedAgents (groupAttempts envelopes) =
      (((groupAttempts envelopes).map Prod.fst).map fun id =>
        (envelopes.filter fun e => e.intentId = id).length - 1).sum := by
    rw [retriedAgents, List.map_map]
    refine congrArg List.sum (List.map_congr_left fun a ha => ?_)
    rw [(groupAttempts_group envelopes).2.2 a ha]
    rfl
  rw [hsum, hsum]
  simp only [hlen]
  exact ((intentIds_perm hp).map _).sum_eq

theorem sumsFit_perm (h : AttemptsApart envelopes) (prEnvelope : ContextEnvelope) (landed : List String) (ci : CiCost) :
    SumsFit prEnvelope (workAttempts landed (groupAttempts envelopes)) (wasteAttempts landed (groupAttempts envelopes)) ci ↔
      SumsFit prEnvelope (workAttempts landed (groupAttempts envelopes'))
        (wasteAttempts landed (groupAttempts envelopes')) ci := by
  have hwork (f : IntentMetrics → Nat) := totalOf_perm f (workAttempts_perm hp h landed)
  have hwaste := totalOf_waste hp h landed
  constructor
  · intro hs
    exact ⟨hwork _ ▸ hs.1, hwork _ ▸ hs.2, hwork _ ▸ hs.3, hwaste _ ▸ hs.4, hwaste _ ▸ hs.5, hwork _ ▸ hs.6,
      hwork _ ▸ hs.7⟩
  · intro hs
    exact ⟨(hwork _).symm ▸ hs.1, (hwork _).symm ▸ hs.2, (hwork _).symm ▸ hs.3, (hwaste _).symm ▸ hs.4,
      (hwaste _).symm ▸ hs.5, (hwork _).symm ▸ hs.6, (hwork _).symm ▸ hs.7⟩

theorem accepted_perm {prEnvelope : ContextEnvelope} (hacc : Accepted prEnvelope envelopes) :
    Accepted prEnvelope envelopes' :=
  ⟨hacc.pr, fun env he => hacc.intents env (hp.mem_iff.mpr he), hacc.agentType, hacc.parent⟩

end Invariance

/-- Whichever way the envelopes are ordered, the record fails, or it has the same costs,
tokens, waste and counts. -/
theorem prRecord_arrival_order {envelopes envelopes' : List ContextEnvelope} (hp : envelopes.Perm envelopes')
    (hapart : AttemptsApart envelopes) (prEnvelope : ContextEnvelope) (prEnvelopeRef : String) (landed : List String)
    (verdicts : Nat) (ci : CiCost) (queue : PrQueueInput) :
    (∃ e e', prRecord prEnvelope prEnvelopeRef envelopes landed verdicts ci queue = .error e ∧
      prRecord prEnvelope prEnvelopeRef envelopes' landed verdicts ci queue = .error e') ∨
    ∃ record record', prRecord prEnvelope prEnvelopeRef envelopes landed verdicts ci queue = .ok record ∧
      prRecord prEnvelope prEnvelopeRef envelopes' landed verdicts ci queue = .ok record' ∧
      record.cost = record'.cost ∧ record.intentCount = record'.intentCount ∧
      record.agentCount = record'.agentCount := by
  by_cases hacc : Accepted prEnvelope envelopes
  · obtain ⟨author, hrecord⟩ := checked_prRecord hacc prEnvelopeRef landed verdicts ci queue
    obtain ⟨author', hrecord'⟩ := checked_prRecord (accepted_perm hp hacc) prEnvelopeRef landed verdicts ci queue
    have hfits := sumsFit_perm hp hapart prEnvelope landed ci
    by_cases hfit : SumsFit prEnvelope (workAttempts landed (groupAttempts envelopes))
        (wasteAttempts landed (groupAttempts envelopes)) ci
    · refine .inr ⟨_, _, hrecord.1 hfit, hrecord'.1 (hfits.mp hfit), ?_, rfl, ?_⟩
      · have hwork (f : IntentMetrics → Nat) := totalOf_perm f (workAttempts_perm hp hapart landed)
        simp only [recordOf, exactCost, hwork, totalOf_waste hp hapart, discardedIntents_perm hp, retriedAgents_perm hp]
      · exact (hp.map fun e => e.authorship.spawn.runId).dedup.length_eq
    · obtain ⟨e, -, he⟩ := hrecord.2 hfit
      obtain ⟨e', -, he'⟩ := hrecord'.2 (mt hfits.mpr hfit)
      exact .inl ⟨e, e', he, he'⟩
  · obtain ⟨e, he, -⟩ := prRecord_of_not_accepted hacc prEnvelopeRef landed verdicts ci queue
    obtain ⟨e', he', -⟩ :=
      prRecord_of_not_accepted (fun h => hacc (accepted_perm hp.symm h)) prEnvelopeRef landed verdicts ci queue
    exact .inl ⟨e, e', he, he'⟩

def siblings : List ContextEnvelope := [intentAttempt .intent "run-1" 5, intentAttempt .intent "run-2" 7]

/-- Two attempts at one intent, born at the same time. -/
theorem siblings_arrival_order :
    ∃ record record', prRecord prSession "cas:pr" siblings ["intent-1"] 0 ⟨0, 0, 0, 0⟩ ⟨0, 0, 0⟩ = .ok record ∧
      prRecord prSession "cas:pr" siblings.reverse ["intent-1"] 0 ⟨0, 0, 0, 0⟩ ⟨0, 0, 0⟩ = .ok record' ∧
      record.cost = record'.cost ∧ record.cost.work.costUsdMicros = 7 := by
  have hwork : (prRecord prSession "cas:pr" siblings ["intent-1"] 0 ⟨0, 0, 0, 0⟩ ⟨0, 0, 0⟩).map
      (·.cost.work.costUsdMicros) = .ok 7 := by
    decide +kernel
  rcases prRecord_arrival_order siblings.reverse_perm.symm (by decide) prSession "cas:pr" ["intent-1"] 0 ⟨0, 0, 0, 0⟩
      ⟨0, 0, 0⟩ with ⟨e, e', he, -⟩ | ⟨record, record', h, h', hcost, -, -⟩
  · rw [he] at hwork
    cases hwork
  · rw [h] at hwork
    exact ⟨record, record', h, h', hcost, Except.ok.inj hwork⟩

end Hugit
