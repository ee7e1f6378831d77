import Hugit.Fallible
import Hugit.Ledger
import Hugit.SealGuard

/-! A campaign as its verbs project it from the log, and the verb that seals it:
not over pull requests in flight, and not over rejected work unless told to. -/

namespace Hugit

open Std

def prSubmittedKind : String := "pr.submitted"

def prExcludedKind : String := "pr.excluded"

def campaignAbandonedKind : String := "campaign.abandoned"

def campaignEnvelopeRefKind : String := "campaign.envelope_ref"

inductive CampaignPrPhase where
  | inFlight
  | landed
  | blocked
  | abandoned
  deriving DecidableEq

def EventRecord.prFields (c : Crates) (r : EventRecord) : Option (String × Option String) := do
  let v ← c.fromStr r.payload
  let prId ← v.fieldStr "pr_id"
  return (prId, v.fieldStr "campaign")

abbrev PhaseMap := ExtTreeMap String CampaignPrPhase compare

def phaseStep (c : Crates) (key : String) (phases : PhaseMap) (r : EventRecord) : PhaseMap :=
  match r.prFields c with
  | none => phases
  | some (prId, campaign) =>
    if r.kind = prAbandonedKind then
      match phases[prId]? with
      | some slot => if slot ≠ .landed then phases.insert prId .abandoned else phases
      | none => phases
    else if campaign ≠ some key then phases
    else if r.kind = prSubmittedKind ∨ r.kind = prOpenedKind ∨ r.kind = prQueuedKind then
      match phases[prId]? with
      | some _ => phases
      | none => phases.insert prId .inFlight
    else if r.kind = prLandedKind then phases.insert prId .landed
    else if r.kind = prExcludedKind then phases.insert prId .blocked
    else phases

section

variable (c : Crates) (log : EventLog) (key : String)

def phaseMap : PhaseMap :=
  log.records.foldl (phaseStep c key) ∅

def prPhases : List (String × CampaignPrPhase) :=
  (phaseMap c log key).toList

def inFlightPrs : List String :=
  ((prPhases c log key).filter (·.2 = .inFlight)).map Prod.fst

def hasCampaignRecord (kind : String) : Bool :=
  (log.payloads c kind).any fun v => v.fieldStr "campaign" = some key

def campaignOpened : Bool :=
  hasCampaignRecord c log key campaignOpenedKind

def campaignClosed : Bool :=
  hasCampaignRecord c log key campaignClosedKind

def campaignAbandoned : Bool :=
  hasCampaignRecord c log key campaignAbandonedKind

def campaignClosedSealCondition : Option (Bool × Nat) := do
  let v ← (log.payloads c campaignClosedKind).find? fun v => v.fieldStr "campaign" = some key
  let sealedWithRejected ← (v.get "sealed_with_rejected").bind Value.asBool
  let rejectedCount ← (v.get "rejected_count").bind Value.asU64
  return (sealedWithRejected, rejectedCount)

def campaignCharterOwner : Option (String × String) := do
  let v ← (log.payloads c campaignOpenedKind).find? fun v => v.fieldStr "campaign" = some key
  let charter ← v.fieldStr "charter"
  let owner ← v.fieldStr "owner"
  return (charter, owner)

def campaignEnvelopeRef : Option String :=
  (((log.payloads c campaignEnvelopeRefKind).filter fun v => v.fieldStr "campaign" = some key).filterMap
    fun v => v.fieldStr "envelope_ref").getLast?

end

structure CloseArgs where
  campaign : String
  allowRejected : Bool
  deriving DecidableEq

structure CloseAnswer where
  campaign : String
  alreadyClosed : Bool
  sealedWithRejected : Bool
  rejectedCount : Nat
  envelope : String
  prs : List (String × CampaignPrPhase)
  done : Nat
  proven : Nat
  rejected : Nat
  rollup : Option Value

abbrev RollupBuilder := EventLog → String → List (String × CampaignPrPhase) → Except PorcelainError (Option Value)

namespace Scrubber

variable (s : Scrubber)

def appendAuthorizedAndPersist (log : EventLog) (kind owner payload : String) (recordedAt : Nat) :
    Except PorcelainError Unit × EventLog :=
  let payload := match s.crates.fromStr payload with
    | some value => s.scrubToCanonical value
    | none => (canonicalJson s.crates payload).getD payload
  match log.appendAuthorized s.crates .human .policy kind ["user:" ++ redactText s.measures owner] payload
      recordedAt with
  | (.error denied, _) =>
    (.error ⟨"authz_denied", "campaign mutation denied by D14 guard: " ++ denied.reason.code,
      "campaign operations must be driven by a human principal (user: prefix)", []⟩, log)
  | (.ok _, log') => (.ok (), log')

def closedPayload (key : String) (envelopeRef : Option String) (sealedWithRejected : Bool) (rejectedCount : Nat) :
    Value :=
  .object [("campaign", .string key), ("envelope_ref", optText envelopeRef),
    ("sealed_with_rejected", .bool sealedWithRejected), ("rejected_count", .number (.posInt rejectedCount))]

def closeAnswer (log : EventLog) (key : String) (already sealedWithRejected : Bool) (rejectedCount : Nat)
    (rollup : Option Value) : CloseAnswer where
  campaign := key
  alreadyClosed := already
  sealedWithRejected := sealedWithRejected
  rejectedCount := rejectedCount
  envelope := (campaignEnvelopeRef s.crates log key).getD "not_captured"
  prs := prPhases s.crates log key
  done := (Ledger.fromRecords s.crates s.measures log.records).done key
  proven := (Ledger.fromRecords s.crates s.measures log.records).proven key
  rejected := (Ledger.fromRecords s.crates s.measures log.records).rejected key
  rollup := rollup

/-- A close of a sealed campaign changes nothing and reports the seal as it was
written. -/
def alreadyClosed (rollup : RollupBuilder) (log : EventLog) (key : String) : Except PorcelainError CloseAnswer := do
  let report ← rollup log key (prPhases s.crates log key)
  let live := (Ledger.fromRecords s.crates s.measures log.records).rejected key
  let condition := (campaignClosedSealCondition s.crates log key).getD (0 < live, live)
  return s.closeAnswer log key true condition.1 condition.2 report

def admitClose (rollup : RollupBuilder) (log : EventLog) (args : CloseArgs) :
    Except PorcelainError (Option Value) := do
  let key := args.campaign
  let inFlight := inFlightPrs s.crates log key
  let rejectedCount := (Ledger.fromRecords s.crates s.measures log.records).rejected key
  refuseIf (campaignOpened s.crates log key = false)
    ⟨"not_opened", "campaign '" ++ key ++ "' has no campaign.opened record on the log; open it first",
      "run `hugit campaign open --campaign <key> …` to open the campaign", []⟩
  refuseIf (inFlight ≠ [] ∧ campaignAbandoned s.crates log key = false)
    ⟨"in_flight_prs", "campaign '" ++ key ++ "' has " ++ decimal inFlight.length ++
      " PR(s) still in-flight in the landing queue", "land or abandon first",
      [("in_flight", .array (inFlight.map .string))]⟩
  refuseIf (0 < rejectedCount ∧ args.allowRejected = false)
    ⟨"campaign_has_rejected", "campaign '" ++ key ++ "' has " ++ decimal rejectedCount ++
      " intent(s) with a REJECTED latest verdict — sealing over rejected work is not allowed by default",
      "resolve the rejected intents first, or pass --allow-rejected to explicitly seal over them (the seal will " ++
      "be marked sealed_with_rejected:true)", [("rejected_count", .number (.posInt rejectedCount))]⟩
  rollup log key (prPhases s.crates log key)

def closeCampaign (rollup : RollupBuilder) (log : EventLog) (args : CloseArgs) :
    Except PorcelainError CloseAnswer × EventLog :=
  let key := args.campaign
  if campaignClosed s.crates log key then (s.alreadyClosed rollup log key, log)
  else
    match s.admitClose rollup log args with
    | .error e => (.error e, log)
    | .ok report =>
      let rejectedCount := (Ledger.fromRecords s.crates s.measures log.records).rejected key
      let sealedWithRejected := 0 < rejectedCount && args.allowRejected
      let owner := ((campaignCharterOwner s.crates log key).map Prod.snd).getD key
      let payload := s.crates.print
        (closedPayload key (campaignEnvelopeRef s.crates log key) sealedWithRejected rejectedCount)
      match s.appendAuthorizedAndPersist log campaignClosedKind owner payload 0 with
      | (.error e, log') => (.error e, log')
      | (.ok (), log') => (.ok (s.closeAnswer log key false sealedWithRejected rejectedCount report), log')

end Scrubber

section Phases

variable {c : Crates} {key id : String} {r : EventRecord}

def Proposes (c : Crates) (key id : String) (r : EventRecord) : Prop :=
  r.prFields c = some (id, some key) ∧ (r.kind = prSubmittedKind ∨ r.kind = prOpenedKind ∨ r.kind = prQueuedKind)

def Settles (c : Crates) (key id : String) (r : EventRecord) : Prop :=
  r.prFields c = some (id, some key) ∧ (r.kind = prLandedKind ∨ r.kind = prExcludedKind)

def Abandons (c : Crates) (id : String) (r : EventRecord) : Prop :=
  (r.prFields c).map Prod.fst = some id ∧ r.kind = prAbandonedKind

def prLifecycleKinds : List String :=
  [prSubmittedKind, prOpenedKind, prQueuedKind, prLandedKind, prExcludedKind, prAbandonedKind]

theorem phaseStep_of_kind (h : r.kind ∉ prLifecycleKinds) (phases : PhaseMap) : phaseStep c key phases r = phases := by
  simp only [prLifecycleKinds, List.mem_cons, List.not_mem_nil, or_false, not_or] at h
  obtain ⟨hsubmitted, hopened, hqueued, hlanded, hexcluded, habandoned⟩ := h
  unfold phaseStep
  cases r.prFields c with
  | none => rfl
  | some fields =>
    simp only [if_neg habandoned, hsubmitted, hopened, hqueued, or_self, if_neg hlanded, if_neg hexcluded, if_false,
      ite_self]

theorem foldl_phaseStep_of_kinds {records : List EventRecord} (h : ∀ q ∈ records, q.kind ∉ prLifecycleKinds)
    (phases : PhaseMap) : records.foldl (phaseStep c key) phases = phases := by
  induction records with
  | nil => rfl
  | cons q records ih =>
    obtain ⟨hq, hrecords⟩ := List.forall_mem_cons.mp h
    rw [List.foldl_cons, phaseStep_of_kind hq, ih hrecords]

theorem phaseStep_other (hp : ¬ Proposes c key id r) (hs : ¬ Settles c key id r) (ha : ¬ Abandons c id r)
    (phases : PhaseMap) : (phaseStep c key phases r)[id]? = phases[id]? := by
  unfold phaseStep
  cases hf : r.prFields c with
  | none => rfl
  | some fields =>
    obtain ⟨prId, campaign⟩ := fields
    dsimp only
    by_cases hid : prId = id
    · subst hid
      have hkind : ¬ r.kind = prAbandonedKind := fun hk => ha ⟨by rw [hf]; rfl, hk⟩
      rw [if_neg hkind]
      split_ifs with hcampaign hopen hlanded hexcluded
      · rfl
      · exact absurd ⟨not_ne_iff.mp hcampaign ▸ hf, hopen⟩ hp
      · exact absurd ⟨not_ne_iff.mp hcampaign ▸ hf, .inl hlanded⟩ hs
      · exact absurd ⟨not_ne_iff.mp hcampaign ▸ hf, .inr hexcluded⟩ hs
      · rfl
    · have hinsert (phase : CampaignPrPhase) : (phases.insert prId phase)[id]? = phases[id]? := by
        rw [ExtTreeMap.getElem?_insert, if_neg (by simpa using hid)]
      split_ifs
      · cases phases[prId]? with
        | none => rfl
        | some slot =>
          dsimp only
          split_ifs
          · exact hinsert _
          · rfl
      · rfl
      · cases phases[prId]? with
        | none => exact hinsert _
        | some slot => rfl
      · exact hinsert _
      · exact hinsert _
      · rfl

theorem phaseStep_proposes (h : Proposes c key id r) {phases : PhaseMap} (hid : phases[id]? ∈ [none, some .inFlight]) :
    (phaseStep c key phases r)[id]? = some .inFlight := by
  obtain ⟨hf, hkind⟩ := h
  have hne : ¬ r.kind = prAbandonedKind := by
    rcases hkind with hk | hk | hk <;> rw [hk] <;> decide
  simp only [phaseStep, hf, if_neg hne, ne_eq, not_true_eq_false, if_false, if_pos hkind]
  rcases List.mem_pair.mp hid with hnone | hsome
  · rw [hnone]
    exact ExtTreeMap.getElem?_insert_self
  · rw [hsome]
    exact hsome

/-- A pull request of the campaign that was proposed, was not abandoned since and
never landed or excluded. -/
def InFlight (c : Crates) (key : String) (records : List EventRecord) (id : String) : Prop :=
  ∃ before r after, records = before ++ r :: after ∧ (∀ q ∈ before, ¬ Proposes c key id q) ∧
    Proposes c key id r ∧ (∀ q ∈ after, ¬ Abandons c id q) ∧ ∀ q ∈ records, ¬ Settles c key id q

theorem InFlight.phase {log : EventLog} (h : InFlight c key log.records id) :
    (phaseMap c log key)[id]? = some .inFlight := by
  obtain ⟨before, r, after, hrecords, hbefore, hr, hafter, hsettles⟩ := h
  have hmem (q : EventRecord) (hq : q ∈ before ∨ q ∈ after) : ¬ Settles c key id q := by
    refine hsettles q ?_
    rw [hrecords]
    rcases hq with hq | hq <;> simp [hq]
  -- an abandoned pull request is not tracked before it is proposed
  have hstart : (before.foldl (phaseStep c key) ∅)[id]? = none := by
    clear hrecords
    induction before using List.reverseRecOn with
    | nil => exact ExtTreeMap.getElem?_empty
    | append_singleton before q ih =>
      have hnone := ih (fun p hp => hbefore p (List.mem_append_left _ hp))
        (fun p hp => hmem p (hp.imp_left (List.mem_append_left _)))
      rw [List.foldl_concat]
      by_cases ha : Abandons c id q
      · obtain ⟨hid, hkind⟩ := ha
        obtain ⟨⟨prId, campaign⟩, hf, rfl⟩ := Option.map_eq_some_iff.mp hid
        simp only [phaseStep, hf, if_pos hkind, hnone]
      · rw [phaseStep_other (hbefore q (by simp)) (hmem q (by simp)) ha, hnone]
  have hproposed : (phaseStep c key (before.foldl (phaseStep c key) ∅) r)[id]? = some .inFlight :=
    phaseStep_proposes hr (by simp [hstart])
  rw [phaseMap, hrecords, List.foldl_append, List.foldl_cons]
  clear hrecords
  generalize phaseStep c key (before.foldl (phaseStep c key) ∅) r = phases at hproposed
  induction after generalizing phases with
  | nil => exact hproposed
  | cons q after ih =>
    rw [List.foldl_cons]
    refine ih (fun p hp => hafter p (List.mem_cons_of_mem q hp))
      (fun p hp => hmem p (hp.imp_right (List.mem_cons_of_mem q))) _ ?_
    by_cases hp : Proposes c key id q
    · exact phaseStep_proposes hp (by simp [hproposed])
    · rw [phaseStep_other hp (hmem q (by simp)) (hafter q List.mem_cons_self), hproposed]

theorem mem_inFlightPrs {log : EventLog} : id ∈ inFlightPrs c log key ↔ (phaseMap c log key)[id]? = some .inFlight := by
  simp only [inFlightPrs, prPhases, List.mem_map, List.mem_filter, decide_eq_true_eq, Prod.exists,
    exists_and_right, exists_eq_right]
  exact ExtTreeMap.mem_toList_iff_getElem?_eq_some

end Phases

end Hugit
