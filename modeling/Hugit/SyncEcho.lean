import Hugit.MirrorPasses
import Hugit.ProtectedBranch

/-! What the sync engine remembers of each direction, read off the history of its calls,
and when a change goes back to the side it came from. -/

namespace Hugit

open Std

def RefReflect.emission : RefReflect → Option (String × String)
  | emitted refName tip => some (refName, tip)
  | _ => none

def emissions : SyncCall × SyncAnswer → List (String × String)
  | (.mirrorOutForgeBranch refName _ _ _, .mirrored (.ok tip)) => [(refName, tip)]
  | (.convergeOutbound _, .converged (.ok (.emitted refName tip))) => [(refName, tip)]
  | (_, .reflected report) => report.results.filterMap RefReflect.emission
  | _ => []

def ingestions : SyncCall × SyncAnswer → List (String × String)
  | (_, .ingested (.ok (.branchIngested refName tip))) => [(refName, tip)]
  | (.convergeInbound _ _ _ _, .converged (.ok (.emitted refName tip))) => [(refName, tip)]
  | _ => []

theorem ReflectPass.lastEmitted_over (bound : Nat) (desired : List ReflectRef) (pass : ReflectPass)
    {start : ExtTreeMap String String} {refName : String}
    (h : pass.lastEmitted[refName]? =
      (lastWrite refName (pass.results.filterMap RefReflect.emission)).or start[refName]?) :
    (pass.over bound desired).lastEmitted[refName]? =
      (lastWrite refName ((pass.over bound desired).results.filterMap RefReflect.emission)).or start[refName]? := by
  induction desired generalizing pass with
  | nil => exact h
  | cons want desired ih =>
    refine ih (pass.one bound want) ?_
    generalize hone : pass.one bound want = pass'
    have hmove : pass.Move bound want pass' := hone ▸ pass.move_one bound want
    cases hmove with
    | spent => simpa [RefReflect.emission, List.filterMap_cons] using h
    | diverged => simpa [RefReflect.emission, List.filterMap_cons] using h
    | skipped => simpa [RefReflect.emission, List.filterMap_cons] using h
    | emitted =>
      simp only [List.filterMap_append, List.filterMap_cons, List.filterMap_nil, RefReflect.emission,
        lastWrite_concat, ExtTreeMap.getElem?_insert, Std.compare_eq_iff_eq]
      by_cases he : want.refName = refName
      · simp [he]
      · simpa [he] using h

section

variable {c : Crates} {s : BidirSync}

theorem remembered_run (call : SyncCall) (refName : String) :
    (call.run c s).2.emittedOutbound[refName]? =
        (lastWrite refName (emissions (call, (call.run c s).1))).or s.emittedOutbound[refName]? ∧
      (refName ≠ s.protectedRef → (call.run c s).2.ingestedInbound[refName]? =
        (lastWrite refName (ingestions (call, (call.run c s).1))).or s.ingestedInbound[refName]?) := by
  have hinsert (map : ExtTreeMap String String) (name tip : String) :
      (map.insert name tip)[refName]? = (lastWrite refName [(name, tip)]).or map[refName]? := by
    by_cases he : name = refName <;> simp [lastWrite, ExtTreeMap.getElem?_insert, he]
  cases call with
  | ingestGithubPush name tip chain recordedAt =>
    simp only [SyncCall.run, ingestGithubPush_eq]
    split_ifs
    · exact ⟨rfl, fun _ => rfl⟩
    · exact ⟨rfl, fun _ => rfl⟩
    · exact ⟨rfl, fun _ => hinsert _ _ _⟩
  | ingestGithubBranch name tip chain recordedAt =>
    simp only [SyncCall.run, BidirSync.ingestGithubBranch, ingestGithubPush_eq]
    split_ifs
    · exact ⟨rfl, fun _ => rfl⟩
    · exact ⟨rfl, fun _ => rfl⟩
    · exact ⟨rfl, fun _ => hinsert _ _ _⟩
  | landViaQueue intentId tip charter chain recordedAt =>
    rcases landViaQueue_cases c s intentId tip charter chain recordedAt with he | ⟨reason, payload, he⟩
    · rw [SyncCall.run, he]
      exact ⟨rfl, fun _ => rfl⟩
    · rw [SyncCall.run, he]
      exact ⟨rfl, fun _ => rfl⟩
  | mirrorOutForgeBranch name tip chain recordedAt =>
    simp only [SyncCall.run, BidirSync.mirrorOutForgeBranch, appendExternalUpdate_eq]
    by_cases hchain : chain = []
    · rw [if_pos hchain]
      exact ⟨rfl, fun _ => rfl⟩
    · rw [if_neg hchain]
      exact ⟨hinsert _ _ _, fun _ => rfl⟩
  | convergeOutbound name =>
    unfold SyncCall.run BidirSync.convergeOutbound
    dsimp only
    split
    · exact ⟨rfl, fun _ => rfl⟩
    · exact ⟨rfl, fun _ => rfl⟩
    · split_ifs
      · exact ⟨rfl, fun _ => rfl⟩
      · exact ⟨hinsert _ _ _, fun _ => rfl⟩
  | convergeInbound name tip chain recordedAt =>
    simp only [SyncCall.run, convergeInbound_eq]
    split_ifs with hecho hchain hprotected
    · exact ⟨rfl, fun _ => rfl⟩
    · exact ⟨rfl, fun _ => rfl⟩
    · refine ⟨rfl, fun href => ?_⟩
      have hne : name ≠ refName := fun he => href (he.symm.trans hprotected)
      simp [ingestions, lastWrite, hne]
    · exact ⟨rfl, fun _ => hinsert _ _ _⟩
  | arbitrateBranchDivergence name forgeTip githubTip chain recordedAt =>
    simp only [SyncCall.run, arbitrateBranchDivergence_eq]
    split_ifs <;> exact ⟨rfl, fun _ => rfl⟩
  | reflectBounded desired bound =>
    exact ⟨ReflectPass.lastEmitted_over bound desired ⟨s.emittedOutbound, [], none, 0⟩ rfl, fun _ => rfl⟩

end

section

variable {c : Crates} (hc : c.Sound) (hread : c.ReadsJson) (protectedRef : String) (calls : List SyncCall)
  {refName : String}

theorem emitted_runSync (c : Crates) : (runSync c (.withProtected protectedRef) calls).2.emittedOutbound[refName]? =
    lastWrite refName ((runSync c (.withProtected protectedRef) calls).1.flatMap emissions) := by
  induction calls using List.reverseRecOn with
  | nil => simp [runSync, BidirSync.withProtected]
  | append_singleton calls call ih =>
    rw [runSync_concat, syncStep, List.flatMap_append, lastWrite_append, ← ih, (remembered_run call refName).1,
      List.flatMap_singleton]

include hc hread

theorem ingested_runSync (href : refName ≠ protectedRef) :
    (runSync c (.withProtected protectedRef) calls).2.ingestedInbound[refName]? =
      lastWrite refName ((runSync c (.withProtected protectedRef) calls).1.flatMap ingestions) := by
  induction calls using List.reverseRecOn with
  | nil => simp [runSync, BidirSync.withProtected]
  | append_singleton calls call ih =>
    obtain ⟨_, _, hp⟩ := replayable_runSync hc hread protectedRef calls
    rw [runSync_concat, syncStep, List.flatMap_append, lastWrite_append, ← ih,
      (remembered_run call refName).2 (by rwa [hp]), List.flatMap_singleton]

end

theorem forgeWrite_of_ingestion {entry : SyncCall × SyncAnswer} {protectedRef refName tip : String}
    (h : (refName, tip) ∈ ingestions entry) (href : refName ≠ protectedRef) :
    forgeWrite protectedRef entry = some (refName, some tip) := by
  unfold ingestions at h
  split at h
  · obtain ⟨rfl, rfl⟩ := Prod.mk.inj (List.mem_singleton.mp h)
    rfl
  · obtain ⟨rfl, rfl⟩ := Prod.mk.inj (List.mem_singleton.mp h)
    simp [forgeWrite, href]
  · cases h

/-- A push taken in is what the forge has. While it has a tip, nothing goes out exactly when
that tip went out last; and a tip that GitHub shows is not recorded exactly when it is the
one that went out last or came in last. -/
theorem no_echo_iff {c : Crates} (hc : c.Sound) (hread : c.ReadsJson) (protectedRef : String) (calls : List SyncCall)
    {refName : String} (href : refName ≠ protectedRef) (tip : String) {chain : List String} (hchain : chain ≠ [])
    (recordedAt : Nat) :
    let run := runSync c (.withProtected protectedRef) calls
    (∀ call : SyncCall, (refName, tip) ∈ ingestions (call, (call.run c run.2).1) →
      (call.run c run.2).2.forgeTip c refName = .ok (some tip)) ∧
    (run.2.forgeTip c refName = .ok (some tip) →
      ((run.2.convergeOutbound c refName).1 = .ok .alreadyConverged ↔
        lastWrite refName (run.1.flatMap emissions) = some tip)) ∧
    ((run.2.convergeInbound c refName tip chain recordedAt).2.log = run.2.log ↔
      lastWrite refName (run.1.flatMap emissions) = some tip ∨
        lastWrite refName (run.1.flatMap ingestions) = some tip) := by
  intro run
  obtain ⟨state, hr, hp⟩ := replayable_runSync hc hread protectedRef calls
  have hemitted : run.2.emittedOutbound[refName]? = _ := emitted_runSync protectedRef calls c
  have hingested : run.2.ingestedInbound[refName]? = _ := ingested_runSync hc hread protectedRef calls href
  rw [← hemitted, ← hingested]
  refine ⟨fun call hin => ?_, fun htip => ?_, ?_⟩
  · have hstep := (replayable_run hc hread hr call).1
    rw [hp, forgeWrite_of_ingestion hin href] at hstep
    rw [forgeTip_of_replayable hstep, RefState.get_apply_some, if_pos rfl]
  · rw [BidirSync.convergeOutbound, htip]
    dsimp only
    split_ifs with hsame
    · exact iff_of_true rfl hsame
    · exact iff_of_false (by simp) hsame
  · rw [convergeInbound_eq]
    have hgrows (name : String) : (recordRefUpdate c run.2.log chain name tip recordedAt).2 ≠ run.2.log := by
      intro he
      have hlen := congrArg (fun log => log.records.length) he
      simp [recordRefUpdate_records] at hlen
    split_ifs with hecho hprotected
    · exact iff_of_true rfl hecho
    · exact absurd (hprotected.trans hp) href
    · exact iff_of_false (hgrows refName) hecho

/-- GitHub shows the tip that was mirrored out to it, after a push of its own. -/
theorem mirrored_tip_not_recorded :
    ((runSync reference .new resetCalls).2.convergeInbound reference "refs/heads/feature" "a1" ["dev"] 3).2.log =
      (runSync reference .new resetCalls).2.log :=
  (no_echo_iff reference_sound reference_readsJson "refs/heads/main" resetCalls (by decide) "a1" (by simp) 3).2.2.mpr
    (.inl (by decide +kernel))

/-- A push is taken in and goes straight back to where it came from. -/
theorem ingested_push_echoed :
    ((runSync reference .new [.ingestGithubPush "refs/heads/feature" "b2" ["dev"] 1]).2.convergeOutbound reference
      "refs/heads/feature").1 = .ok (.emitted "refs/heads/feature" "b2") := by
  obtain ⟨state, _, hf⟩ := forgeTip_concat reference_sound reference_readsJson "refs/heads/main"
    "refs/heads/feature" [] (.ingestGithubPush "refs/heads/feature" "b2" ["dev"] 1)
  have htip : (runSync reference .new [.ingestGithubPush "refs/heads/feature" "b2" ["dev"] 1]).2.forgeTip reference
      "refs/heads/feature" = .ok (some "b2") := by
    refine hf.trans ?_
    rw [show ((SyncCall.ingestGithubPush "refs/heads/feature" "b2" ["dev"] 1).run reference
      (runSync reference (.withProtected "refs/heads/main") []).2).1 =
        .ingested (.ok (.branchIngested "refs/heads/feature" "b2")) from rfl,
      forgeWrite, RefState.get_apply_some, if_pos rfl]
  rw [BidirSync.convergeOutbound, htip]
  rfl

end Hugit
