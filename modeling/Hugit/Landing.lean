import Hugit.UnionAuthorization

/-! Landing a batch under an evaluation of it: the validated members land, the
excluded ones fail, or nothing moves. -/

namespace Hugit

/-- An evaluation of the batch and the calls it made. One that was invalidated
later is still one. -/
inductive UnionEvaluation.Of (batch : Batch) : UnionEvaluation → List Observation → Prop
  | plain {ω : Type} (w : World ω) (limits : EvaluationLimits) (s : ω) :
    Of batch (evaluateUnionWithClock w batch limits s).1
      (evaluateUnionWithClock w.recorded batch limits (s, [])).2.2
  | bound {ω : Type} (w : World ω) (limits : EvaluationLimits) (context : EvaluationContext) (s : ω) :
    Of batch (evaluateUnionInContext w batch limits context s).1
      (evaluateUnionInContext w.recorded batch limits context (s, [])).2.2
  | invalidated {ev : UnionEvaluation} {calls : List Observation} (h : Of batch ev calls) :
    Of batch ev.invalidate calls

structure UnionEvaluation.Snapshot (ev : UnionEvaluation) (batch : Batch)
    (calls : List Observation) : Prop where
  members : ev.evaluatedMembers = batch.ids
  validated : ev.validatedMembers.Sublist batch.ids
  excluded : ev.excludedMembers.Sublist batch.ids
  live : ev.binding = none → ev.revoked = false →
    batch.ids.Nodup ∧ ev.validatedMembers.Disjoint ev.excludedMembers ∧
      (ev.validatedMembers ≠ [] → ∃ deadline, ev.validUntil = some deadline ∧
        AnsweredGreen calls deadline ev.validatedMembers)

section

variable {batch : Batch} {ev : UnionEvaluation} {calls : List Observation}

theorem UnionEvaluation.Authorized.nodup {limits : EvaluationLimits}
    (h : ev.Authorized batch limits calls) (hlive : ev.revoked = false) : batch.ids.Nodup := by
  have hrun : ev.stopReason = none := by
    by_contra hstop
    rw [(h.stopped hstop).2.2] at hlive
    cases hlive
  by_contra hdup
  exact h.invalid (.inl fun heval => hdup heval.2.1) hrun

theorem UnionEvaluation.Authorized.toSnapshot {limits : EvaluationLimits}
    (h : ev.Authorized batch limits calls) : ev.Snapshot batch calls := by
  refine ⟨h.members, h.snapshot ▸ h.ordered.1, h.ordered.2, fun _ hlive => ?_⟩
  have hnodup := h.nodup hlive
  rw [h.snapshot]
  refine ⟨hnodup, ?_, h.answered⟩
  have hparts := h.parts.nodup_iff.mpr hnodup
  intro id hv hx
  exact (List.disjoint_of_nodup_append hparts) (List.mem_append_left _ hv) hx

theorem UnionEvaluation.Of.snapshot (h : ev.Of batch calls) : ev.Snapshot batch calls := by
  induction h with
  | plain w limits s => exact (evaluateUnionWithClock_authorized w batch limits s).toSnapshot
  | bound w limits context s =>
    simp only [evaluateUnionInContext]
    split_ifs
    · have hh := (evaluateUnionWithClock_authorized (w.scoped context) batch limits (s, [])).toSnapshot
      exact ⟨hh.members, hh.validated, hh.excluded, nofun⟩
    · have hh := (evaluateUnionWithClock_authorized w batch ⟨0, 0⟩ s).toSnapshot
      exact ⟨hh.members, hh.validated, hh.excluded, nofun⟩
  | invalidated h ih => exact ⟨ih.members, ih.validated, ih.excluded, nofun⟩

def unionFailedInOrder (batch : Batch) : List String :=
  (batch.entries.filter fun e => e.state = .unionFail).map BatchEntry.itemId

theorem outcomesForLanding_cases (ev : UnionEvaluation) (now : Nat) (ids : List String) :
    ev.outcomesForLanding now ids = [] ∨
      (ev.binding = none ∧ ev.authorizationLive now = true ∧ ids = ev.evaluatedMembers ∧
        ev.outcomesForLanding now ids = ids.filterMap fun id => (ev.outcomeOf id).map (id, ·)) := by
  unfold UnionEvaluation.outcomesForLanding
  split_ifs with h
  · exact .inl rfl
  · simp only [Bool.or_eq_true, Bool.not_eq_true', Option.isSome_iff_ne_none, bne_iff_ne, not_or,
      ne_eq, not_not, Bool.not_eq_false] at h
    exact .inr ⟨h.1.1, h.1.2, h.2, rfl⟩

theorem settle_filter_ids (batch : Batch) (outcomes : List (String × UnionOutcome)) {p : String → Bool}
    {state : EntryState}
    (h : ∀ e ∈ batch.entries, decide ((e.settle (outcomeFor outcomes e)).state = state) = p e.itemId) :
    ((batch.settle outcomes).entries.filter fun e => e.state = state).map BatchEntry.itemId =
      batch.ids.filter p := by
  simp only [Batch.settle, Batch.ids, List.filter_map, List.map_map, Function.comp_def,
    BatchEntry.settle_itemId]
  rw [List.filter_congr h]

theorem Batch.settle_members (hfresh : batch.Fresh) {now : Nat} {ids : List String}
    (h : ev.Snapshot batch calls) (hcov : batch.Covered (ev.outcomesForLanding now ids)) :
    landedInOrder (batch.settle (ev.outcomesForLanding now ids)) = ev.validatedMembers ∧
      unionFailedInOrder (batch.settle (ev.outcomesForLanding now ids)) = ev.excludedMembers ∧
      (ev.validatedMembers ≠ [] → ev.binding = none ∧ ev.authorizationLive now = true) := by
  by_cases hne : batch.entries = []
  · have hids : batch.ids = [] := by simp [Batch.ids, hne]
    have hv := List.sublist_nil.mp (hids ▸ h.validated)
    have hx := List.sublist_nil.mp (hids ▸ h.excluded)
    simp [landedInOrder, unionFailedInOrder, Batch.settle, hne, hv, hx]
  rcases outcomesForLanding_cases ev now ids with hnil | ⟨hunbound, hlive, hids, hout⟩
  · obtain ⟨e, he⟩ := List.exists_mem_of_ne_nil _ hne
    have hnone := hcov e he
    simp [hnil] at hnone
  obtain ⟨hnodup, hdisj, _⟩ := h.live hunbound ((authorizationLive_iff ev now).mp hlive).1
  have hout' : ∀ e ∈ batch.entries,
      lastWrite e.itemId (ev.outcomesForLanding now ids) = ev.outcomeOf e.itemId := by
    intro e he
    rw [hout, lastWrite_filterMap_key, hids, h.members, if_pos (Batch.mem_ids he)]
  have hboth : ∀ e ∈ batch.entries,
      (e.settle (outcomeFor (ev.outcomesForLanding now ids) e)).state =
        (if e.itemId ∈ ev.validatedMembers then .landed else .unionFail) ∧
      (e.itemId ∈ ev.validatedMembers ∨ e.itemId ∈ ev.excludedMembers) := by
    intro e he
    have hsome := hcov e he
    rw [BatchEntry.settle_landable (hfresh e he), outcomeFor]
    rw [hout' e he] at hsome ⊢
    unfold UnionEvaluation.outcomeOf at hsome ⊢
    split_ifs at hsome ⊢ with hv hx
    · exact ⟨rfl, .inl hv⟩
    · exact ⟨rfl, .inr hx⟩
    · cases hsome
  refine ⟨?_, ?_, fun _ => ⟨hunbound, hlive⟩⟩
  · rw [← filter_mem_of_sublist h.validated hnodup]
    refine settle_filter_ids batch _ fun e he => ?_
    rw [(hboth e he).1]
    split_ifs with hv <;> simp [hv]
  · rw [← filter_mem_of_sublist h.excluded hnodup]
    refine settle_filter_ids batch _ fun e he => ?_
    rw [(hboth e he).1]
    split_ifs with hv
    · simpa using fun hx => hdisj hv hx
    · simp [(hboth e he).2.resolve_left hv]

theorem Batch.Settled.landInOrder (h : batch.Settled) (outcomes : List (String × UnionOutcome)) :
    (landInOrder batch outcomes).2 = batch := by
  by_cases hcov : batch.Covered outcomes
  · rw [landInOrder_covered hcov, h.settle]
  · obtain ⟨e, _, _, hmissing⟩ := landInOrder_missing hcov
    rw [hmissing]

theorem landInOrder_uniform (h : batch.Fresh ∨ batch.Settled)
    (outcomes : List (String × UnionOutcome)) :
    (landInOrder batch outcomes).2.Fresh ∨ (landInOrder batch outcomes).2.Settled := by
  by_cases hcov : batch.Covered outcomes
  · rw [landInOrder_covered hcov]
    exact .inr (batch.settle_settled outcomes)
  · obtain ⟨e, _, _, hmissing⟩ := landInOrder_missing hcov
    rwa [hmissing]

def Batch.landings (batch : Batch) (passes : List (List (String × UnionOutcome))) : Batch :=
  passes.foldl (fun b outcomes => (landInOrder b outcomes).2) batch

theorem landings_uniform (passes : List (List (String × UnionOutcome)))
    (h : batch.Fresh ∨ batch.Settled) :
    (batch.landings passes).Fresh ∨ (batch.landings passes).Settled := by
  induction passes generalizing batch with
  | nil => exact h
  | cons outcomes rest ih => exact ih (landInOrder_uniform h outcomes)

theorem Batch.Settled.landings (h : batch.Settled) (passes : List (List (String × UnionOutcome))) :
    batch.landings passes = batch := by
  induction passes with
  | nil => rfl
  | cons outcomes rest ih =>
    rw [Batch.landings, List.foldl_cons, h.landInOrder]
    exact ih

theorem landing_exact (hfresh : batch.Fresh) (hord : batch.isQueueOrdered = true)
    (hev : ev.Of batch calls) (now : Nat) (ids : List String) :
    let outcomes := ev.outcomesForLanding now ids
    let landing := landInOrder batch outcomes
    ((∃ id, landing = (.error (.missingOutcome id), batch)) ∨
      ((∃ steps, landing.1 = .ok steps) ∧
        landedInOrder landing.2 = ev.validatedMembers ∧
        (ev.validatedMembers ≠ [] → ∃ deadline, ev.validUntil = some deadline ∧ now < deadline ∧
          AnsweredGreen calls deadline ev.validatedMembers) ∧
        unionFailedInOrder landing.2 = ev.excludedMembers ∧
        landing.2.ids = batch.ids ∧ landing.2.indices.Pairwise (· < ·) ∧
        ∀ passes, landing.2.landings passes = landing.2)) ∧
    landInOrder landing.2 outcomes = landing ∧
    ∀ passes, (batch.landings passes).Fresh ∨ (batch.landings passes).Settled := by
  refine ⟨?_, landInOrder_repeat batch _, fun passes => landings_uniform passes (.inl hfresh)⟩
  by_cases hcov : batch.Covered (ev.outcomesForLanding now ids)
  · refine .inr ?_
    have hsnap := hev.snapshot
    have hindices : (batch.settle (ev.outcomesForLanding now ids)).indices.Pairwise (· < ·) := by
      have hsame : (batch.settle (ev.outcomesForLanding now ids)).indices = batch.indices := by
        simp [Batch.settle, Batch.indices, Function.comp_def]
      rw [hsame]
      exact Batch.isQueueOrdered_iff.mp hord
    simp only [landInOrder_covered hcov]
    obtain ⟨hlanded, hfailed, hstands⟩ := Batch.settle_members hfresh hsnap hcov
    refine ⟨⟨_, rfl⟩, hlanded, fun hne => ?_, hfailed, batch.settle_ids _, hindices,
      (batch.settle_settled _).landings⟩
    obtain ⟨hunbound, hlive⟩ := hstands hne
    obtain ⟨hrevoked, deadline, huntil, hnow⟩ := (authorizationLive_iff ev now).mp hlive
    obtain ⟨_, _, hgreen⟩ := hsnap.live hunbound hrevoked
    obtain ⟨deadline', huntil', hanswered⟩ := hgreen hne
    obtain rfl : deadline' = deadline := Option.some.inj (huntil'.symm.trans huntil)
    exact ⟨deadline', huntil', hnow, hanswered⟩
  · obtain ⟨e, _, _, hmissing⟩ := landInOrder_missing hcov
    exact .inl ⟨e.itemId, hmissing⟩

end

def tickingWorld : World Nat where
  now s := (s, s + 1)
  evaluateBefore ids _ s := ((if "b" ∈ ids then .red else .green, [.executed]), s)
  evaluateInContext ids _ _ s := ((if "b" ∈ ids then .red else .green, [.executed]), s)

def brokenBatch : Batch :=
  ⟨"batch", [.new ⟨"a", "intent-a", "t1", 1⟩ [], .new ⟨"b", "intent-b", "t2", 2⟩ [],
    .new ⟨"c", "intent-c", "t3", 3⟩ []]⟩

def brokenEvaluation : UnionEvaluation :=
  (evaluateUnionWithClock tickingWorld brokenBatch ⟨16, 100⟩ 0).1

theorem brokenBatch_landed :
    (landInOrder brokenBatch (brokenEvaluation.outcomesForLanding 50 ["a", "b", "c"])).1 =
      .ok [⟨"a", .landed⟩, ⟨"b", .unionFail⟩, ⟨"c", .landed⟩] ∧
    landedInOrder (landInOrder brokenBatch
      (brokenEvaluation.outcomesForLanding 50 ["a", "b", "c"])).2 = brokenEvaluation.validatedMembers ∧
    brokenEvaluation.validatedMembers = ["a", "c"] := by
  have hok : (landInOrder brokenBatch (brokenEvaluation.outcomesForLanding 50 ["a", "b", "c"])).1 =
      .ok [⟨"a", .landed⟩, ⟨"b", .unionFail⟩, ⟨"c", .landed⟩] := by decide +kernel
  have hbuilt : Batch.tryFromEntries "batch" [(⟨"c", "intent-c", "t3", 3⟩, []),
      (⟨"a", "intent-a", "t1", 1⟩, []), (⟨"b", "intent-b", "t2", 2⟩, [])] = .ok brokenBatch := by
    decide +kernel
  obtain ⟨hfresh, hord⟩ := Batch.tryFromEntries_ok hbuilt
  have hh := landing_exact hfresh hord (.plain tickingWorld ⟨16, 100⟩ 0) 50 ["a", "b", "c"]
  rcases hh.1 with ⟨id, hmissing⟩ | ⟨_, hlanded, _⟩
  · cases hok.symm.trans (congrArg Prod.fst hmissing)
  · exact ⟨hok, hlanded, by decide +kernel⟩

end Hugit
