import Hugit.BidirSync

/-! Any sequence of calls of the sync engine: what each call writes to the forge,
who writes the protected branch, and where an inbound convergence ends. -/

namespace Hugit

open Std

inductive SyncCall where
  | ingestGithubPush (refName githubTip : String) (principalChain : List String) (recordedAt : Nat)
  | ingestGithubBranch (refName githubTip : String) (principalChain : List String) (recordedAt : Nat)
  | landViaQueue (intentId tip charter : String) (principalChain : List String) (recordedAt : Nat)
  | mirrorOutForgeBranch (refName forgeTip : String) (principalChain : List String) (recordedAt : Nat)
  | convergeOutbound (refName : String)
  | convergeInbound (refName observedGithubTip : String) (principalChain : List String) (recordedAt : Nat)
  | arbitrateBranchDivergence (refName forgeTip githubTip : String) (principalChain : List String)
      (recordedAt : Nat)
  | reflectBounded (desired : List ReflectRef) (bound : Nat)

inductive SyncAnswer where
  | ingested (r : Except SyncError IngestOutcome)
  | landed (r : Except SyncError Unit)
  | mirrored (r : Except SyncError String)
  | converged (r : Except SyncError ConvergeOutcome)
  | arbitrated (r : Except SyncError (DivergenceResolution × IncidentRef))
  | reflected (report : ReflectReport)
  | panicked

def SyncCall.run (c : Crates) (call : SyncCall) (s : BidirSync) : SyncAnswer × BidirSync :=
  match call with
  | ingestGithubPush refName tip chain recordedAt =>
    let r := s.ingestGithubPush c refName tip chain recordedAt
    (.ingested r.1, r.2)
  | ingestGithubBranch refName tip chain recordedAt =>
    let r := s.ingestGithubBranch c refName tip chain recordedAt
    (.ingested r.1, r.2)
  | landViaQueue intentId tip charter chain recordedAt =>
    let r := s.landViaQueue c intentId tip charter chain recordedAt
    (.landed r.1, r.2)
  | mirrorOutForgeBranch refName tip chain recordedAt =>
    let r := s.mirrorOutForgeBranch c refName tip chain recordedAt
    (.mirrored r.1, r.2)
  | convergeOutbound refName =>
    let r := s.convergeOutbound c refName
    (.converged r.1, r.2)
  | convergeInbound refName tip chain recordedAt =>
    let r := s.convergeInbound c refName tip chain recordedAt
    (.converged r.1, r.2)
  | arbitrateBranchDivergence refName forgeTip githubTip chain recordedAt =>
    let r := s.arbitrateBranchDivergence c refName forgeTip githubTip chain recordedAt
    match r.1 with
    | some answer => (.arbitrated answer, r.2)
    | none => (.panicked, r.2)
  | reflectBounded desired bound =>
    let r := s.reflectBounded desired bound
    (.reflected r.1, r.2)

abbrev SyncHistory := List (SyncCall × SyncAnswer)

def syncStep (c : Crates) (run : SyncHistory × BidirSync) (call : SyncCall) : SyncHistory × BidirSync :=
  let r := call.run c run.2
  (run.1 ++ [(call, r.1)], r.2)

def runSync (c : Crates) (s : BidirSync) (calls : List SyncCall) : SyncHistory × BidirSync :=
  calls.foldl (syncStep c) ([], s)

theorem runSync_concat (c : Crates) (s : BidirSync) (calls : List SyncCall) (call : SyncCall) :
    runSync c s (calls ++ [call]) = syncStep c (runSync c s calls) call := by
  simp [runSync]

def landedTip : SyncCall × SyncAnswer → Option String
  | (.landViaQueue _ tip _ _ _, .landed (.ok ())) => some tip
  | _ => none

def lastLanded (history : SyncHistory) : Option String :=
  (history.filterMap landedTip).getLast?

theorem lastLanded_concat (history : SyncHistory) (entry : SyncCall × SyncAnswer) :
    lastLanded (history ++ [entry]) = (landedTip entry).or (lastLanded history) := by
  unfold lastLanded
  cases h : landedTip entry <;> simp [List.filterMap_append, h]

def forgeWrite (protectedRef : String) : SyncCall × SyncAnswer → Option (String × Option String)
  | (_, .ingested (.ok (.branchIngested refName tip))) => some (refName, some tip)
  | (_, .ingested (.ok (.rerouted reroute))) => some (reroute.proposedRef, some reroute.attemptedTip)
  | (.landViaQueue _ tip _ _ _, .landed (.ok ())) => some (protectedRef, some tip)
  | (.mirrorOutForgeBranch refName _ _ _, .mirrored (.ok tip)) => some (refName, some tip)
  | (.convergeInbound _ _ _ _, .converged (.ok (.emitted refName tip))) =>
    some (if refName = protectedRef then proposedRefName tip else refName, some tip)
  | (_, .arbitrated (.ok (_, incident))) => some (incident.refName, some incident.preservedTip)
  | _ => none

section

variable {c : Crates} {s : BidirSync}

theorem appendExternalUpdate_eq (c : Crates) (s : BidirSync) (refName tip : String) (chain : List String)
    (recordedAt : Nat) :
    s.appendExternalUpdate c refName tip chain recordedAt =
      if chain = [] then (.error .missingAttribution, s)
      else (.ok (), { s with log := (recordRefUpdate c s.log chain refName tip recordedAt).2 }) := by
  unfold BidirSync.appendExternalUpdate recordExternalChange
  split_ifs <;> rfl

theorem ingestGithubPush_eq (c : Crates) (s : BidirSync) (refName tip : String) (chain : List String)
    (recordedAt : Nat) :
    s.ingestGithubPush c refName tip chain recordedAt =
      if chain = [] then (.error .missingAttribution, s)
      else if refName = s.protectedRef then
        (.ok (.rerouted ⟨proposedRefName tip, tip⟩),
          { s with log := (recordRefUpdate c s.log chain (proposedRefName tip) tip recordedAt).2 })
      else
        (.ok (.branchIngested refName tip),
          { s with log := (recordRefUpdate c s.log chain refName tip recordedAt).2,
                   ingestedInbound := s.ingestedInbound.insert refName tip }) := by
  unfold BidirSync.ingestGithubPush
  rw [appendExternalUpdate_eq, appendExternalUpdate_eq]
  split_ifs <;> rfl

theorem convergeInbound_eq (c : Crates) (s : BidirSync) (refName tip : String) (chain : List String)
    (recordedAt : Nat) :
    s.convergeInbound c refName tip chain recordedAt =
      if s.emittedOutbound[refName]? = some tip ∨ s.ingestedInbound[refName]? = some tip then
        (.ok .alreadyConverged, s)
      else if chain = [] then (.error .missingAttribution, s)
      else if refName = s.protectedRef then
        (.ok (.emitted refName tip),
          { s with log := (recordRefUpdate c s.log chain (proposedRefName tip) tip recordedAt).2 })
      else
        (.ok (.emitted refName tip),
          { s with log := (recordRefUpdate c s.log chain refName tip recordedAt).2,
                   ingestedInbound := s.ingestedInbound.insert refName tip }) := by
  unfold BidirSync.convergeInbound
  by_cases hemitted : s.emittedOutbound[refName]? = some tip
  · rw [if_pos hemitted, if_pos (.inl hemitted)]
  by_cases hingested : s.ingestedInbound[refName]? = some tip
  · rw [if_neg hemitted, if_pos hingested, if_pos (.inr hingested)]
  rw [if_neg hemitted, if_neg hingested, if_neg (not_or_intro hemitted hingested)]
  simp only [BidirSync.ingestGithubBranch, ingestGithubPush_eq]
  split_ifs <;> rfl

def divergenceResolution (refName forgeTip : String) : DivergenceResolution :=
  ⟨⟨refName, .tipMismatch⟩, ⟨refName, forgeTip, .forgeAuthoritative⟩,
    ⟨refName, DivergenceReason.tipMismatch.text, true⟩⟩

theorem arbitrateBranchDivergence_eq (c : Crates) (s : BidirSync) (refName forgeTip githubTip : String)
    (chain : List String) (recordedAt : Nat) :
    s.arbitrateBranchDivergence c refName forgeTip githubTip chain recordedAt =
      if forgeTip = githubTip then (none, s)
      else if chain = [] then (some (.error .missingAttribution), s)
      else
        (some (.ok (divergenceResolution refName forgeTip, ⟨incidentRefName refName githubTip, githubTip⟩)),
          { s with log := (recordRefUpdate c s.log chain (incidentRefName refName githubTip) githubTip recordedAt).2,
                   authority := s.authority.arbitrate refName }) := by
  have hresolve : (MirrorState.mk refName forgeTip githubTip false .mirrorSide).resolve =
      if forgeTip = githubTip then none else some (divergenceResolution refName forgeTip) := by
    by_cases he : forgeTip = githubTip <;>
      simp [MirrorState.resolve, MirrorState.classify, RefClass.isDivergent, divergenceResolution, he]
  unfold BidirSync.arbitrateBranchDivergence
  rw [hresolve]
  split_ifs with he hchain
  · rfl
  · simp only [appendExternalUpdate_eq, if_pos hchain]
  · simp only [appendExternalUpdate_eq, if_neg hchain]

theorem authorize_land_eq_allow {chain : List String} :
    authorize chain .land = .allow ↔ chain.getLast?.bind PrincipalClass.classify = some .orchestrator := by
  unfold authorize
  cases chain.getLast? with
  | none => simp
  | some actor =>
    cases hc : PrincipalClass.classify actor with
    | none => simp [hc]
    | some principal => cases principal <;> simp [hc, authorizeClass, matrix]

theorem landViaQueue_cases (c : Crates) (s : BidirSync) (intentId tip charter : String) (chain : List String)
    (recordedAt : Nat) :
    s.landViaQueue c intentId tip charter chain recordedAt =
        (.ok (), { s with
          log := (s.log.append c intentLandedKind chain
            (BidirSync.landPayload c s.protectedRef intentId tip charter) recordedAt).2,
          authority := s.authority.arbitrate s.protectedRef }) ∨
      ∃ reason payload, s.landViaQueue c intentId tip charter chain recordedAt =
        (.error (.landDenied reason), { s with log := (s.log.append c authzDeniedKind chain payload recordedAt).2 }) := by
  unfold BidirSync.landViaQueue auditedAuthorize
  cases hd : authorize chain .land with
  | allow =>
    rw [authorize_land_eq_allow.mp hd]
    exact .inl rfl
  | deny reason => exact .inr ⟨_, _, rfl⟩

def landedValue (protectedRef intentId tip charter : String) : Value :=
  .object [("charter", .string charter), ("intent_id", .string intentId), ("ref", .string protectedRef),
    ("target", .string tip)]

theorem landPayload_eq (hc : c.Sound) (protectedRef intentId tip charter : String) :
    BidirSync.landPayload c protectedRef intentId tip charter =
      c.print (landedValue protectedRef intentId tip charter) := by
  have h1 : "intent_id" < "ref" := by decide +kernel
  have h2 : "intent_id" < "target" := by decide +kernel
  have h3 : "ref" < "target" := by decide +kernel
  have h4 : "charter" < "intent_id" := by decide +kernel
  have hcanon : canonicalizeValue (.object [("intent_id", .string intentId), ("ref", .string protectedRef),
      ("target", .string tip), ("charter", .string charter)]) = landedValue protectedRef intentId tip charter := by
    simp only [canonicalizeValue, canonicalizeFields]
    rw [Value.insertSorted, Value.insertSorted_of_gt h1, Value.insertSorted, Value.insertSorted_of_gt h2,
      Value.insertSorted_of_gt h3, Value.insertSorted, Value.insertSorted_of_lt h4]
    rfl
  have hflat : (Value.object [("intent_id", .string intentId), ("ref", .string protectedRef),
      ("target", .string tip), ("charter", .string charter)]).Flat := by
    simp [Value.Flat, Value.IsLeaf]
  simp only [BidirSync.landPayload, canonicalJson, hc.round_trip _ hflat, Option.map_some, Option.getD_some, hcanon]

theorem refWrite_landed (hc : c.Sound) {r : EventRecord} {protectedRef intentId tip charter : String}
    (hk : r.kind = intentLandedKind) (hp : r.payload = BidirSync.landPayload c protectedRef intentId tip charter) :
    refWrite c r = .ok (some (protectedRef, some tip)) := by
  have hflat : (landedValue protectedRef intentId tip charter).Flat := by
    simp [landedValue, Value.Flat, Value.IsLeaf]
  have hparse : parsePayload c r = .ok (landedValue protectedRef intentId tip charter) := by
    rw [parsePayload, hp, landPayload_eq hc, hc.round_trip _ hflat]
    rfl
  simp [refWrite, hk, hparse, landedValue, inertCapture, Value.fieldStr, bind, Except.bind, pure, Except.pure]

theorem replayable_run (hc : c.Sound) (hread : c.ReadsJson) {state : RefState} (h : Replayable c s.log state)
    (call : SyncCall) :
    Replayable c (call.run c s).2.log (state.apply (forgeWrite s.protectedRef (call, (call.run c s).1))) ∧
      (call.run c s).2.protectedRef = s.protectedRef := by
  have hupdate (refName tip : String) (chain : List String) (recordedAt : Nat) :=
    h.recordRefUpdate hread chain refName tip recordedAt
  cases call with
  | ingestGithubPush refName tip chain recordedAt =>
    simp only [SyncCall.run, ingestGithubPush_eq]
    split_ifs
    · exact ⟨h, rfl⟩
    · exact ⟨hupdate _ _ _ _, rfl⟩
    · exact ⟨hupdate _ _ _ _, rfl⟩
  | ingestGithubBranch refName tip chain recordedAt =>
    simp only [SyncCall.run, BidirSync.ingestGithubBranch, ingestGithubPush_eq]
    split_ifs
    · exact ⟨h, rfl⟩
    · exact ⟨hupdate _ _ _ _, rfl⟩
    · exact ⟨hupdate _ _ _ _, rfl⟩
  | landViaQueue intentId tip charter chain recordedAt =>
    rcases landViaQueue_cases c s intentId tip charter chain recordedAt with he | ⟨reason, payload, he⟩
    · rw [SyncCall.run, he]
      exact ⟨h.append (by decide) (refWrite_landed hc rfl rfl), rfl⟩
    · rw [SyncCall.run, he]
      have hinert := @refWrite_of_inert c (EventLog.nextRecord c s.log.records authzDeniedKind chain payload recordedAt)
        (by simp [EventLog.nextRecord, authzDeniedKind])
        (by simp [EventLog.nextRecord, authzDeniedKind, intentLandedKind])
        (by simp [EventLog.nextRecord, authzDeniedKind])
      exact ⟨h.append (by decide) hinert, rfl⟩
  | mirrorOutForgeBranch refName tip chain recordedAt =>
    simp only [SyncCall.run, BidirSync.mirrorOutForgeBranch, appendExternalUpdate_eq]
    by_cases hchain : chain = []
    · rw [if_pos hchain]
      exact ⟨h, rfl⟩
    · rw [if_neg hchain]
      exact ⟨hupdate _ _ _ _, rfl⟩
  | convergeOutbound refName =>
    have hquiet (r : Except SyncError ConvergeOutcome) :
        forgeWrite s.protectedRef (.convergeOutbound refName, .converged r) = none := by
      rcases r with _ | (_ | _) <;> rfl
    rw [SyncCall.run, hquiet]
    unfold BidirSync.convergeOutbound
    split
    · exact ⟨h, rfl⟩
    · exact ⟨h, rfl⟩
    · split_ifs <;> exact ⟨h, rfl⟩
  | convergeInbound refName tip chain recordedAt =>
    simp only [SyncCall.run, convergeInbound_eq]
    split_ifs with hecho hchain hprotected
    · exact ⟨h, rfl⟩
    · exact ⟨h, rfl⟩
    · dsimp only [forgeWrite]
      rw [if_pos hprotected]
      exact ⟨hupdate _ _ _ _, rfl⟩
    · dsimp only [forgeWrite]
      rw [if_neg hprotected]
      exact ⟨hupdate _ _ _ _, rfl⟩
  | arbitrateBranchDivergence refName forgeTip githubTip chain recordedAt =>
    simp only [SyncCall.run, arbitrateBranchDivergence_eq]
    split_ifs
    · exact ⟨h, rfl⟩
    · exact ⟨h, rfl⟩
    · exact ⟨hupdate _ _ _ _, rfl⟩
  | reflectBounded desired bound => exact ⟨h, rfl⟩

theorem replayable_runSync (hc : c.Sound) (hread : c.ReadsJson) (protectedRef : String) (calls : List SyncCall) :
    ∃ state, Replayable c (runSync c (.withProtected protectedRef) calls).2.log state ∧
      (runSync c (.withProtected protectedRef) calls).2.protectedRef = protectedRef := by
  induction calls using List.reverseRecOn with
  | nil => exact ⟨.new, replayable_empty c, rfl⟩
  | append_singleton calls call ih =>
    obtain ⟨state, hr, hp⟩ := ih
    obtain ⟨hr', hp'⟩ := replayable_run hc hread hr call
    rw [runSync_concat]
    exact ⟨_, hr', hp'.trans hp⟩

theorem forgeTip_of_replayable {state : RefState} (h : Replayable c s.log state) (refName : String) :
    s.forgeTip c refName = .ok (state.get refName) := by
  rw [BidirSync.forgeTip, BidirSync.forgeRefs, h.replays]
  rfl

end

theorem proposedRefName_ne_main (tip : String) : proposedRefName tip ≠ "refs/heads/main" := by
  intro h
  have hh := congrArg String.toList h
  simp [proposedRefName, proposedRefPrefix] at hh

theorem incidentRefName_ne_main (branch tip : String) : incidentRefName branch tip ≠ "refs/heads/main" := by
  intro h
  have hh := congrArg String.toList h
  simp [incidentRefName, incidentRefPrefix] at hh

/-- What an answered call can mean for main: it landed, it was mirrored out, or
nothing. -/
inductive MainMove : SyncCall × SyncAnswer → Prop
  | landed {entry : SyncCall × SyncAnswer} {tip : String} (hl : landedTip entry = some tip)
      (hw : forgeWrite "refs/heads/main" entry = some ("refs/heads/main", some tip)) : MainMove entry
  | mirrored {tip : String} {chain : List String} {recordedAt : Nat} {answer : SyncAnswer} (hchain : chain ≠ [])
      (hl : landedTip (.mirrorOutForgeBranch "refs/heads/main" tip chain recordedAt, answer) = none)
      (hw : forgeWrite "refs/heads/main" (.mirrorOutForgeBranch "refs/heads/main" tip chain recordedAt, answer) =
        some ("refs/heads/main", some tip)) :
      MainMove (.mirrorOutForgeBranch "refs/heads/main" tip chain recordedAt, answer)
  | apart {entry : SyncCall × SyncAnswer} (hl : landedTip entry = none)
      (hw : ∀ w ∈ forgeWrite "refs/heads/main" entry, w.1 ≠ "refs/heads/main") : MainMove entry

theorem run_mirrorOut (c : Crates) (s : BidirSync) (refName tip : String) {chain : List String} (hchain : chain ≠ [])
    (recordedAt : Nat) :
    ((SyncCall.mirrorOutForgeBranch refName tip chain recordedAt).run c s).1 = .mirrored (.ok tip) := by
  rw [SyncCall.run, BidirSync.mirrorOutForgeBranch, appendExternalUpdate_eq, if_neg hchain]

section

variable {c : Crates} {s : BidirSync}

theorem mainMove_ingested (hs : s.protectedRef = "refs/heads/main") (call : SyncCall) (refName tip : String)
    (chain : List String) (recordedAt : Nat) :
    MainMove (call, .ingested (s.ingestGithubPush c refName tip chain recordedAt).1) := by
  have hl (r : Except SyncError IngestOutcome) : landedTip (call, .ingested r) = none := by
    cases call <;> rfl
  rw [ingestGithubPush_eq]
  split_ifs with hchain hprotected
  · refine .apart (hl _) ?_
    cases call <;> simp [forgeWrite]
  · refine .apart (hl _) ?_
    simp [forgeWrite, proposedRefName_ne_main]
  · refine .apart (hl _) ?_
    simpa [forgeWrite, hs] using hprotected

theorem mainMove_convergeInbound (refName tip : String) (chain : List String) (recordedAt : Nat) :
    MainMove (.convergeInbound refName tip chain recordedAt,
      .converged (s.convergeInbound c refName tip chain recordedAt).1) := by
  refine .apart rfl ?_
  cases he : (s.convergeInbound c refName tip chain recordedAt).1 with
  | error e => simp [forgeWrite]
  | ok outcome =>
    cases outcome with
    | alreadyConverged => simp [forgeWrite]
    | emitted refName' tip' =>
      simp only [forgeWrite, Option.mem_def, Option.some.injEq, forall_eq']
      split_ifs with hmain
      · exact proposedRefName_ne_main tip'
      · exact hmain

theorem mainMove_run (hs : s.protectedRef = "refs/heads/main") (call : SyncCall) :
    MainMove (call, (call.run c s).1) := by
  cases call with
  | ingestGithubPush refName tip chain recordedAt => exact mainMove_ingested hs _ _ _ _ _
  | ingestGithubBranch refName tip chain recordedAt => exact mainMove_ingested hs _ _ _ _ _
  | landViaQueue intentId tip charter chain recordedAt =>
    rcases landViaQueue_cases c s intentId tip charter chain recordedAt with he | ⟨reason, payload, he⟩
    · rw [SyncCall.run, he]
      exact .landed rfl rfl
    · rw [SyncCall.run, he]
      exact .apart rfl (by simp [forgeWrite])
  | mirrorOutForgeBranch refName tip chain recordedAt =>
    by_cases hchain : chain = []
    · rw [SyncCall.run, BidirSync.mirrorOutForgeBranch, appendExternalUpdate_eq, if_pos hchain]
      exact .apart rfl (by simp [forgeWrite])
    · rw [run_mirrorOut c s refName tip hchain]
      by_cases hmain : refName = "refs/heads/main"
      · subst hmain
        exact .mirrored hchain rfl rfl
      · exact .apart rfl (by simpa [forgeWrite] using hmain)
  | convergeOutbound refName =>
    refine .apart rfl ?_
    rw [SyncCall.run]
    rcases (s.convergeOutbound c refName).1 with _ | (_ | _) <;> simp [forgeWrite]
  | convergeInbound refName tip chain recordedAt => exact mainMove_convergeInbound _ _ _ _
  | arbitrateBranchDivergence refName forgeTip githubTip chain recordedAt =>
    simp only [SyncCall.run, arbitrateBranchDivergence_eq]
    split_ifs
    · exact .apart rfl (by simp [forgeWrite])
    · exact .apart rfl (by simp [forgeWrite])
    · exact .apart rfl (by simp [forgeWrite, incidentRefName_ne_main])
  | reflectBounded desired bound => exact .apart rfl (by simp [forgeWrite, SyncCall.run])

theorem get_apply_of_ne {state : RefState} {write : Option (String × Option String)} {name : String}
    (h : ∀ w ∈ write, w.1 ≠ name) : (state.apply write).get name = state.get name := by
  cases write with
  | none => rfl
  | some w => rw [RefState.get_apply_some, if_neg (h w rfl)]

/-- The forge has for main what the queue landed last. -/
def QueueHoldsMain (c : Crates) (calls : List SyncCall) : Prop :=
  (runSync c .new calls).2.forgeTip c "refs/heads/main" = .ok (lastLanded (runSync c .new calls).1)

theorem forgeTip_concat (hc : c.Sound) (hread : c.ReadsJson) (protectedRef refName : String) (calls : List SyncCall)
    (call : SyncCall) :
    let entry := (call, (call.run c (runSync c (.withProtected protectedRef) calls).2).1)
    ∃ state : RefState,
      (runSync c (.withProtected protectedRef) calls).2.forgeTip c refName = .ok (state.get refName) ∧
      (runSync c (.withProtected protectedRef) (calls ++ [call])).2.forgeTip c refName =
        .ok ((state.apply (forgeWrite protectedRef entry)).get refName) := by
  intro entry
  obtain ⟨state, hr, hp⟩ := replayable_runSync hc hread protectedRef calls
  have hstep := (replayable_run hc hread hr call).1
  rw [hp] at hstep
  refine ⟨state, forgeTip_of_replayable hr _, ?_⟩
  rw [runSync_concat]
  exact forgeTip_of_replayable hstep _

theorem lastLanded_runSync_concat (c : Crates) (s : BidirSync) (calls : List SyncCall) (call : SyncCall) :
    lastLanded (runSync c s (calls ++ [call])).1 =
      (landedTip (call, (call.run c (runSync c s calls).2).1)).or (lastLanded (runSync c s calls).1) := by
  rw [runSync_concat, syncStep, lastLanded_concat]

end

theorem protected_branch_single_writer {c : Crates} (hc : c.Sound) (hread : c.ReadsJson) (calls : List SyncCall) :
    (∀ before after, calls = before ++ after → QueueHoldsMain c before) ↔
      ∀ before tip chain recordedAt after,
        calls = before ++ .mirrorOutForgeBranch "refs/heads/main" tip chain recordedAt :: after → chain ≠ [] →
          (runSync c .new before).2.forgeTip c "refs/heads/main" = .ok (some tip) := by
  unfold QueueHoldsMain BidirSync.new
  constructor
  · intro h before tip chain recordedAt after he hchain
    have hbefore := h before _ he
    have hafter := h (before ++ [.mirrorOutForgeBranch "refs/heads/main" tip chain recordedAt]) after (by simp [he])
    obtain ⟨state, hf, hf'⟩ := forgeTip_concat hc hread "refs/heads/main" "refs/heads/main" before
      (.mirrorOutForgeBranch "refs/heads/main" tip chain recordedAt)
    rw [hf', lastLanded_runSync_concat, run_mirrorOut c _ _ _ hchain] at hafter
    rw [hbefore]
    simpa [forgeWrite, landedTip, RefState.get_apply_some, eq_comm] using hafter
  · intro h before after he
    induction before using List.reverseRecOn generalizing after with
    | nil => rfl
    | append_singleton before call ih =>
      have hbefore := ih (call :: after) (by simp [he])
      obtain ⟨state, hf, hf'⟩ := forgeTip_concat hc hread "refs/heads/main" "refs/heads/main" before call
      obtain ⟨_, _, hp⟩ := replayable_runSync hc hread "refs/heads/main" before
      have hmove := @mainMove_run c _ hp call
      rw [hf', lastLanded_runSync_concat]
      generalize (call.run c (runSync c (.withProtected "refs/heads/main") before).2).1 = answer at hmove ⊢
      cases hmove with
      | landed hl hw =>
        rw [hl, hw, RefState.get_apply_some, if_pos rfl]
        rfl
      | @mirrored tip chain recordedAt _ hchain hl hw =>
        have htip := h before tip chain recordedAt after (by simp [he]) hchain
        rw [hl, hw, RefState.get_apply_some, if_pos rfl, Option.none_or, ← hbefore, htip]
      | apart hl hw =>
        rw [hl, get_apply_of_ne hw, Option.none_or, ← hbefore, hf]

theorem reference_readsJson : reference.ReadsJson :=
  fun _ _ _ h => h

/-- An orchestrator lands, a developer pushes over main, another tip is mirrored out. -/
def quietCalls : List SyncCall :=
  [.landViaQueue "i-1" "a1" "fix the build" ["orchestrator:o"] 1, .ingestGithubPush "refs/heads/main" "b2" ["dev"] 2,
    .mirrorOutForgeBranch "refs/heads/feature" "c3" ["dev"] 3]

theorem quietCalls_hold_main :
    (runSync reference .new quietCalls).2.forgeTip reference "refs/heads/main" = .ok (some "a1") := by
  have hapart : ∀ before tip chain recordedAt after,
      quietCalls ≠ before ++ .mirrorOutForgeBranch "refs/heads/main" tip chain recordedAt :: after := by
    intro before tip chain recordedAt after he
    have hmem : SyncCall.mirrorOutForgeBranch "refs/heads/main" tip chain recordedAt ∈ quietCalls := by
      rw [he]
      simp
    simp [quietCalls] at hmem
  have hholds := (protected_branch_single_writer reference_sound reference_readsJson quietCalls).mpr
    (fun before tip chain recordedAt after he => absurd he (hapart before tip chain recordedAt after)) quietCalls []
    (by simp)
  rw [QueueHoldsMain] at hholds
  rw [hholds]
  decide +kernel

/-- Nothing was landed, and main has a tip. -/
theorem main_mirrored_out_unlanded :
    let run := runSync reference .new [.mirrorOutForgeBranch "refs/heads/main" "a1" ["dev"] 1]
    run.2.forgeTip reference "refs/heads/main" = .ok (some "a1") ∧ lastLanded run.1 = none := by
  obtain ⟨state, _, hf⟩ := forgeTip_concat reference_sound reference_readsJson "refs/heads/main" "refs/heads/main" []
    (.mirrorOutForgeBranch "refs/heads/main" "a1" ["dev"] 1)
  refine ⟨hf.trans ?_, by rfl⟩
  rw [run_mirrorOut reference _ _ _ (by simp), forgeWrite, RefState.get_apply_some, if_pos rfl]

theorem converge_inbound_converges {c : Crates} (hc : c.Sound) (hread : c.ReadsJson) (protectedRef : String)
    (calls : List SyncCall) {refName : String} (href : refName ≠ protectedRef) (tip : String) (chain : List String)
    (recordedAt : Nat) {outcome : ConvergeOutcome} {s' : BidirSync}
    (hok : (runSync c (.withProtected protectedRef) calls).2.convergeInbound c refName tip chain recordedAt =
      (.ok outcome, s')) :
    let s := (runSync c (.withProtected protectedRef) calls).2
    s'.forgeTip c refName = .ok (some tip) ↔
      (s.emittedOutbound[refName]? = some tip ∨ s.ingestedInbound[refName]? = some tip →
        s.forgeTip c refName = .ok (some tip)) := by
  intro s
  obtain ⟨state, hr, hp⟩ := replayable_runSync hc hread protectedRef calls
  by_cases hecho : s.emittedOutbound[refName]? = some tip ∨ s.ingestedInbound[refName]? = some tip
  · have hsame : s' = s := by
      rw [convergeInbound_eq, if_pos hecho] at hok
      exact (Prod.mk.inj hok).2.symm
    rw [hsame]
    exact ⟨fun h _ => h, fun h => h hecho⟩
  · have hstep := (replayable_run hc hread hr (.convergeInbound refName tip chain recordedAt)).1
    have hanswer : outcome = .emitted refName tip := by
      rw [convergeInbound_eq, if_neg hecho] at hok
      split_ifs at hok
      · cases (Prod.mk.inj hok).1
      · exact (Except.ok.inj (Prod.mk.inj hok).1).symm
      · exact (Except.ok.inj (Prod.mk.inj hok).1).symm
    rw [SyncCall.run, hok, hanswer, hp] at hstep
    have htip := forgeTip_of_replayable hstep refName
    rw [forgeWrite, if_neg href, RefState.get_apply_some, if_pos rfl] at htip
    exact ⟨fun _ h => absurd h hecho, fun _ => htip⟩

def resetCalls : List SyncCall :=
  [.mirrorOutForgeBranch "refs/heads/feature" "a1" ["dev"] 1, .ingestGithubPush "refs/heads/feature" "b2" ["dev"] 2]

theorem new_tip_ingested : ∃ s', (runSync reference .new resetCalls).2.convergeInbound reference "refs/heads/feature"
      "c3" ["dev"] 3 = (.ok (.emitted "refs/heads/feature" "c3"), s') ∧
    s'.forgeTip reference "refs/heads/feature" = .ok (some "c3") := by
  refine ⟨_, rfl, (converge_inbound_converges reference_sound reference_readsJson "refs/heads/main" resetCalls
    (by decide) "c3" ["dev"] 3 rfl).mpr fun h => ?_⟩
  have hnever : ¬ ((runSync reference .new resetCalls).2.emittedOutbound["refs/heads/feature"]? = some "c3" ∨
      (runSync reference .new resetCalls).2.ingestedInbound["refs/heads/feature"]? = some "c3") := by
    decide +kernel
  exact absurd h hnever

/-- GitHub goes back to a tip the forge has emitted: the forge stays where it was. -/
theorem reset_not_ingested :
    let s := (runSync reference .new resetCalls).2
    s.convergeInbound reference "refs/heads/feature" "a1" ["dev"] 3 = (.ok .alreadyConverged, s) ∧
      s.forgeTip reference "refs/heads/feature" = .ok (some "b2") := by
  intro s
  obtain ⟨state, _, hf⟩ := forgeTip_concat reference_sound reference_readsJson "refs/heads/main"
    "refs/heads/feature" [.mirrorOutForgeBranch "refs/heads/feature" "a1" ["dev"] 1]
    (.ingestGithubPush "refs/heads/feature" "b2" ["dev"] 2)
  have hanswer : ((SyncCall.ingestGithubPush "refs/heads/feature" "b2" ["dev"] 2).run reference
      (runSync reference (.withProtected "refs/heads/main")
        [.mirrorOutForgeBranch "refs/heads/feature" "a1" ["dev"] 1]).2).1 =
      .ingested (.ok (.branchIngested "refs/heads/feature" "b2")) := rfl
  refine ⟨if_pos ?_, hf.trans ?_⟩
  · decide +kernel
  · rw [hanswer, forgeWrite, RefState.get_apply_some, if_pos rfl]

theorem authorityFor_arbitrate {m : AuthorityModel} {refName : String} (h : m.authorityFor refName = .forge)
    (name : String) : (m.arbitrate name).authorityFor refName = .forge := by
  simp only [AuthorityModel.authorityFor, AuthorityModel.arbitrate, ExtTreeMap.getElem?_insert] at h ⊢
  split_ifs
  · rfl
  · exact h

/-- A call that contends for a ref gives it to the forge, and no other call moves an authority. -/
theorem authority_run (c : Crates) (s : BidirSync) (call : SyncCall) :
    (call.run c s).2.authority = s.authority ∨ ∃ name, (call.run c s).2.authority = s.authority.arbitrate name := by
  cases call with
  | ingestGithubPush | ingestGithubBranch | convergeInbound =>
    simp only [SyncCall.run, BidirSync.ingestGithubBranch, ingestGithubPush_eq, convergeInbound_eq]
    split_ifs <;> exact .inl rfl
  | landViaQueue intentId tip charter chain recordedAt =>
    rcases landViaQueue_cases c s intentId tip charter chain recordedAt with he | ⟨reason, payload, he⟩
    · exact .inr ⟨_, by rw [SyncCall.run, he]⟩
    · exact .inl (by rw [SyncCall.run, he])
  | mirrorOutForgeBranch =>
    simp only [SyncCall.run, BidirSync.mirrorOutForgeBranch, appendExternalUpdate_eq]
    split_ifs <;> exact .inl rfl
  | convergeOutbound =>
    unfold SyncCall.run BidirSync.convergeOutbound
    dsimp only
    split
    · exact .inl rfl
    · exact .inl rfl
    · split_ifs <;> exact .inl rfl
  | arbitrateBranchDivergence =>
    simp only [SyncCall.run, arbitrateBranchDivergence_eq]
    split_ifs
    · exact .inl rfl
    · exact .inl rfl
    · exact .inr ⟨_, rfl⟩
  | reflectBounded => exact .inl rfl

/-- What the log replays to after any calls are the writes that their answers tell of. -/
theorem forge_replays_answers {c : Crates} (hc : c.Sound) (hread : c.ReadsJson) (protectedRef : String)
    (calls : List SyncCall) :
    replay c (runSync c (.withProtected protectedRef) calls).2.log =
      .ok ((runSync c (.withProtected protectedRef) calls).1.foldl
        (fun state entry => state.apply (forgeWrite protectedRef entry)) .new) := by
  suffices h : Replayable c (runSync c (.withProtected protectedRef) calls).2.log
      ((runSync c (.withProtected protectedRef) calls).1.foldl
        (fun state entry => state.apply (forgeWrite protectedRef entry)) .new) ∧
      (runSync c (.withProtected protectedRef) calls).2.protectedRef = protectedRef from h.1.replays
  induction calls using List.reverseRecOn with
  | nil => exact ⟨replayable_empty c, rfl⟩
  | append_singleton calls call ih =>
    obtain ⟨hr, hp⟩ := replayable_run hc hread ih.1 call
    rw [ih.2] at hr hp
    rw [runSync_concat, syncStep, List.foldl_append]
    exact ⟨hr, hp⟩

theorem quietCalls_replay : ∃ state, replay reference (runSync reference .new quietCalls).2.log = .ok state ∧
    state.get "refs/heads/feature" = some "c3" :=
  ⟨_, forge_replays_answers reference_sound reference_readsJson "refs/heads/main" quietCalls, by decide +kernel⟩

end Hugit
