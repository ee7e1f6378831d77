import Hugit.CampaignWorld
import Hugit.QueueOrder

/-! The PRs of a campaign, as the campaign projects them and as the list of PRs does. -/

namespace Hugit

open Std

inductive PrState where
  | landed
  | abandoned
  | queued
  | proposed
  deriving DecidableEq

def PrState.asStr : PrState → String
  | landed => "landed"
  | abandoned => "abandoned"
  | queued => "queued"
  | proposed => "proposed"

structure ListArgs where
  campaign : Option String
  state : Option String

structure PrRow where
  opened : OpenedPr
  state : PrState
  position : Option Nat

def PrRow.json (row : PrRow) : Value :=
  .object [("pr_id", .string row.opened.prId), ("campaign", .string row.opened.campaign),
    ("author_kind", .string row.opened.authorKind.asStr),
    ("intent_ids", .array (row.opened.intentIds.map .string)),
    ("intent_count", .number (.posInt row.opened.intentIds.length)),
    ("commit_ids", .array (row.opened.commitIds.map .string)),
    ("commit_count", .number (.posInt row.opened.commitIds.length)), ("state", .string row.state.asStr),
    ("position", (row.position.map fun n => .number (.posInt n)).getD .null)]

section Listing

variable (c : Crates) (log : EventLog)

def prState (opened : OpenedPr) : PrState :=
  if prIsLanded c log opened.prId then .landed
  else if (findPrAbandonedReason c log opened.prId).isSome then .abandoned
  else if (findPrQueued c log opened.prId).isSome then .queued
  else .proposed

/-- The latest opening of each id, in the order of the first. -/
def listedPrs : List OpenedPr :=
  ((openedPrs c log).map (·.prId)).eraseDups.filterMap (findPrOpened c log)

def prRows (args : ListArgs) : List PrRow :=
  ((listedPrs c log).filter fun o => args.campaign.all (o.campaign = ·)).filterMap fun o =>
    if args.state.any (· ≠ (prState c log o).asStr) then none
    else some ⟨o, prState c log o, (findPrQueued c log o.prId).map (·.orderIndex)⟩

def listPrs (args : ListArgs) : Value :=
  .object [("prs", .array ((prRows c log args).map PrRow.json)),
    ("count", .number (.posInt (listedPrs c log).length)),
    ("shown", .number (.posInt (prRows c log args).length))]

def ListedAs (args : ListArgs) (prId : String) (state : PrState) : Prop :=
  ∃ row ∈ prRows c log args, row.opened.prId = prId ∧ row.state = state

variable {c log}

theorem listedAs_iff {o : OpenedPr} (ho : findPrOpened c log o.prId = some o) {campaign : Option String}
    {state : PrState} :
    ListedAs c log ⟨campaign, none⟩ o.prId state ↔ campaign.all (o.campaign = ·) ∧ prState c log o = state := by
  constructor
  · rintro ⟨row, hrow, hid, rfl⟩
    obtain ⟨o', ho', hrow⟩ := List.mem_filterMap.mp hrow
    obtain ⟨hlisted, hscope⟩ := List.mem_filter.mp ho'
    obtain ⟨id, -, hfound⟩ := List.mem_filterMap.mp hlisted
    obtain rfl : ⟨o', prState c log o', (findPrQueued c log o'.prId).map (·.orderIndex)⟩ = row := by simpa using hrow
    have hsame : o'.prId = id := (mem_openedPrs_of_findPrOpened hfound).2
    rw [← hsame, show o'.prId = o.prId from hid, ho] at hfound
    obtain rfl := Option.some.inj hfound
    exact ⟨hscope, rfl⟩
  · rintro ⟨hscope, hstate⟩
    refine ⟨⟨o, prState c log o, (findPrQueued c log o.prId).map (·.orderIndex)⟩,
      List.mem_filterMap.mpr ⟨o, ?_, by simp⟩, rfl, hstate⟩
    refine List.mem_filter.mpr ⟨List.mem_filterMap.mpr ⟨o.prId, ?_, ho⟩, hscope⟩
    exact List.mem_eraseDups.mpr (List.mem_map.mpr ⟨o, (mem_openedPrs_of_findPrOpened ho).1, rfl⟩)

end Listing

section Phases

variable {c : Crates} {log : EventLog} {r : EventRecord} {key id : String} {phases : PhaseMap}

def phaseOf (c : Crates) (log : EventLog) (id : String) : CampaignPrPhase :=
  if prIsLanded c log id then .landed
  else if (findPrAbandonedReason c log id).isSome then .abandoned
  else .inFlight

theorem phaseOf_eq_landed {o : OpenedPr} : phaseOf c log o.prId = .landed ↔ prState c log o = .landed := by
  unfold phaseOf prState
  split_ifs <;> simp

theorem phaseOf_eq_abandoned {o : OpenedPr} : phaseOf c log o.prId = .abandoned ↔ prState c log o = .abandoned := by
  unfold phaseOf prState
  split_ifs <;> simp

theorem phaseOf_eq_inFlight {o : OpenedPr} :
    phaseOf c log o.prId = .inFlight ↔ prState c log o = .proposed ∨ prState c log o = .queued := by
  unfold phaseOf prState
  split_ifs <;> simp

theorem prIsLanded_concat : prIsLanded c ⟨log.records ++ [r]⟩ id =
    (prIsLanded c log id || prIsLanded c ⟨[r]⟩ id) := by
  simp only [prIsLanded, payloads_append, List.any_append]

theorem isSome_findPrAbandonedReason_concat : (findPrAbandonedReason c ⟨log.records ++ [r]⟩ id).isSome =
    ((findPrAbandonedReason c log id).isSome || (findPrAbandonedReason c ⟨[r]⟩ id).isSome) := by
  simp only [findPrAbandonedReason, payloads_append, List.filter_append, List.filterMap_append, List.getLast?_append]
  cases (((EventLog.payloads c ⟨[r]⟩ prAbandonedKind).filter fun v => v.fieldStr "pr_id" = some id).filterMap
    fun v => v.fieldStr "reason").getLast? <;> simp

theorem prFields_eq_some {v : Value} (hv : c.fromStr r.payload = some v) (hid : v.fieldStr "pr_id" = some id) :
    r.prFields c = some (id, v.fieldStr "campaign") := by
  simp [EventRecord.prFields, hv, hid]

theorem phaseOf_concat (hl : r.kind ≠ prLandedKind ∨ (r.prFields c).map Prod.fst ≠ some id)
    (ha : r.kind ≠ prAbandonedKind ∨ (r.prFields c).map Prod.fst ≠ some id) :
    phaseOf c ⟨log.records ++ [r]⟩ id = phaseOf c log id := by
  have hland : prIsLanded c ⟨[r]⟩ id = false := by
    rcases hl with hl | hl
    · rw [prIsLanded, payloads_eq_nil (by simpa using hl)]
      rfl
    · cases hv : c.fromStr r.payload with
      | none => by_cases hk : r.kind = prLandedKind <;> simp [prIsLanded, EventLog.payloads, hv, hk]
      | some v =>
        by_cases hk : r.kind = prLandedKind
        · simpa [prIsLanded, EventLog.payloads, hv, hk, EventRecord.prFields] using hl
        · simp [prIsLanded, EventLog.payloads, hk]
  have habandon : (findPrAbandonedReason c ⟨[r]⟩ id).isSome = false := by
    rcases ha with ha | ha
    · rw [findPrAbandonedReason, payloads_eq_nil (by simpa using ha)]
      rfl
    · cases hv : c.fromStr r.payload with
      | none => by_cases hk : r.kind = prAbandonedKind <;> simp [findPrAbandonedReason, EventLog.payloads, hv, hk]
      | some v =>
        by_cases hk : r.kind = prAbandonedKind
        · have hne : v.fieldStr "pr_id" ≠ some id := by simpa [EventRecord.prFields, hv] using ha
          simp [findPrAbandonedReason, EventLog.payloads, hv, hk, hne]
        · simp [findPrAbandonedReason, EventLog.payloads, hk]
  rw [phaseOf, phaseOf, prIsLanded_concat, isSome_findPrAbandonedReason_concat, hland, habandon, Bool.or_false,
    Bool.or_false]

theorem phaseMap_concat : phaseMap c ⟨log.records ++ [r]⟩ key = phaseStep c key (phaseMap c log key) r := by
  rw [phaseMap, List.foldl_append]
  rfl

theorem phaseStep_frame (h : (r.prFields c).map Prod.fst ≠ some id) :
    (phaseStep c key phases r)[id]? = phases[id]? := by
  have hfields : ∀ x, r.prFields c ≠ some (id, x) := fun x hx => h (by rw [hx]; rfl)
  exact phaseStep_other (fun hp => hfields _ hp.1) (fun hs => hfields _ hs.1) (fun ha => h ha.1) phases

theorem phaseStep_unscoped (hk : r.kind ≠ prAbandonedKind) (h : r.prFields c ≠ some (id, some key)) :
    (phaseStep c key phases r)[id]? = phases[id]? :=
  phaseStep_other (fun hp => h hp.1) (fun hs => h hs.1) (fun ha => hk ha.2) phases

theorem phaseStep_landed (hk : r.kind = prLandedKind) (hf : r.prFields c = some (id, some key)) :
    (phaseStep c key phases r)[id]? = some .landed := by
  have hkinds : prLandedKind ≠ prAbandonedKind ∧ prLandedKind ≠ prSubmittedKind ∧ prLandedKind ≠ prOpenedKind ∧
      prLandedKind ≠ prQueuedKind := by decide
  simp [phaseStep, hf, hk, hkinds]

theorem phaseStep_abandoned (hk : r.kind = prAbandonedKind) {campaign : Option String}
    (hf : r.prFields c = some (id, campaign)) {phase : CampaignPrPhase} (h : phases[id]? = some phase)
    (hphase : phase ≠ .landed) : (phaseStep c key phases r)[id]? = some .abandoned := by
  simp [phaseStep, hf, hk, h, hphase]

theorem phaseStep_abandoned_none (hk : r.kind = prAbandonedKind) {campaign : Option String}
    (hf : r.prFields c = some (id, campaign)) (h : phases[id]? = none) : (phaseStep c key phases r)[id]? = none := by
  simp [phaseStep, hf, hk, h]

end Phases

structure Agreed (s : Scrubber) (log : EventLog) : Prop where
  plain : ∀ o ∈ openedPrs s.crates log, structuralSecretScrub s.measures o.prId = o.prId ∧
    structuralSecretScrub s.measures o.campaign = o.campaign
  distinct : ∀ o ∈ openedPrs s.crates log, ∀ o' ∈ openedPrs s.crates log, o.prId = o'.prId → o = o'
  phase : ∀ o ∈ openedPrs s.crates log, ∀ key,
    (phaseMap s.crates log key)[o.prId]? = if o.campaign = key then some (phaseOf s.crates log o.prId) else none
  known : ∀ key id, (phaseMap s.crates log key)[id]? ≠ none → ∃ o ∈ openedPrs s.crates log, o.prId = id
  settled : ∀ id, phaseOf s.crates log id ≠ .inFlight → ∃ o ∈ openedPrs s.crates log, o.prId = id

section Steps

variable {s : Scrubber} {log : EventLog} {r : EventRecord} {o : OpenedPr}

theorem openedPrs_concat_other (h : r.kind ≠ prOpenedKind) :
    openedPrs s.crates ⟨log.records ++ [r]⟩ = openedPrs s.crates log := by
  rw [openedPrs_append, @openedPrs_eq_nil s.crates [r] (by simpa using h), List.append_nil]

namespace Agreed

theorem other (h : Agreed s log) (hk : r.kind ∉ prLifecycleKinds) : Agreed s ⟨log.records ++ [r]⟩ := by
  have hkinds := hk
  simp only [prLifecycleKinds, List.mem_cons, List.not_mem_nil, or_false, not_or] at hkinds
  have hphase : ∀ id, phaseOf s.crates ⟨log.records ++ [r]⟩ id = phaseOf s.crates log id :=
    fun id => phaseOf_concat (.inl hkinds.2.2.2.1) (.inl hkinds.2.2.2.2.2)
  have hmap : ∀ key, phaseMap s.crates ⟨log.records ++ [r]⟩ key = phaseMap s.crates log key :=
    fun key => phaseMap_concat.trans (phaseStep_of_kind hk _)
  have hopened := @openedPrs_concat_other s log r hkinds.2.1
  refine ⟨hopened ▸ h.plain, hopened ▸ h.distinct, ?_, ?_, ?_⟩
  · intro o ho key
    rw [hmap, hphase]
    exact h.phase o (hopened ▸ ho) key
  · intro key id hid
    rw [hopened]
    exact h.known key id (hmap key ▸ hid)
  · intro id hid
    rw [hopened]
    exact h.settled id (hphase id ▸ hid)

theorem about (h : Agreed s log) (hk : r.kind ≠ prOpenedKind) (ho : o ∈ openedPrs s.crates log)
    (hid : (r.prFields s.crates).map Prod.fst = some o.prId)
    (hphase : ∀ key, (phaseStep s.crates key (phaseMap s.crates log key) r)[o.prId]? =
      if o.campaign = key then some (phaseOf s.crates ⟨log.records ++ [r]⟩ o.prId) else none) :
    Agreed s ⟨log.records ++ [r]⟩ := by
  have hopened := @openedPrs_concat_other s log r hk
  have hframe : ∀ id, id ≠ o.prId → (r.prFields s.crates).map Prod.fst ≠ some id := by
    intro id hne he
    rw [hid] at he
    exact hne (Option.some.inj he).symm
  refine ⟨hopened ▸ h.plain, hopened ▸ h.distinct, ?_, ?_, ?_⟩
  · intro o' ho' key
    rw [hopened] at ho'
    rw [phaseMap_concat]
    by_cases hsame : o'.prId = o.prId
    · rw [h.distinct o' ho' o ho hsame]
      exact hphase key
    · rw [phaseStep_frame (hframe _ hsame), phaseOf_concat (.inr (hframe _ hsame)) (.inr (hframe _ hsame))]
      exact h.phase o' ho' key
  · intro key id hne
    rw [hopened]
    by_cases hsame : id = o.prId
    · exact ⟨o, ho, hsame.symm⟩
    · rw [phaseMap_concat, phaseStep_frame (hframe _ hsame)] at hne
      exact h.known key id hne
  · intro id hne
    rw [hopened]
    by_cases hsame : id = o.prId
    · exact ⟨o, ho, hsame.symm⟩
    · rw [phaseOf_concat (.inr (hframe _ hsame)) (.inr (hframe _ hsame))] at hne
      exact h.settled id hne

theorem queued (h : Agreed s log) {args : LandArgs} (hr : Queueing s log args r) : Agreed s ⟨log.records ++ [r]⟩ := by
  obtain ⟨o, hfound, -⟩ := hr.opened
  obtain ⟨ho, hid⟩ := mem_openedPrs_of_findPrOpened hfound
  obtain ⟨v, hv, hcampaign⟩ := hr.unscoped
  have hparsed := hr.parsed
  simp only [parseQueued, hv, Option.bind_eq_bind, Option.bind_some, Option.bind_eq_some_iff] at hparsed
  obtain ⟨prId, hprId, itemId, -, index, -, hq⟩ := hparsed
  have hsame : prId = o.prId := (congrArg QueuedPr.prId (Option.some.inj hq)).trans hid.symm
  have hfields : r.prFields s.crates = some (o.prId, none) := by rw [prFields_eq_some hv hprId, hsame, hcampaign]
  refine h.about (by rw [hr.kind]; decide) ho (by rw [hfields]; rfl) fun key => ?_
  rw [phaseStep_unscoped (by rw [hr.kind]; decide) (by simp [hfields]),
    phaseOf_concat (.inl (by rw [hr.kind]; decide)) (.inl (by rw [hr.kind]; decide))]
  exact h.phase o ho key

theorem abandoned (h : Agreed s log) {args : AbandonArgs} (hr : Abandoning s log args r) :
    Agreed s ⟨log.records ++ [r]⟩ := by
  obtain ⟨o, hfound⟩ := hr.opened
  obtain ⟨ho, hid⟩ := mem_openedPrs_of_findPrOpened hfound
  obtain ⟨v, hv, hprId, hreason⟩ := hr.parsed
  rw [← hid] at hprId
  have hunlanded : prIsLanded s.crates log o.prId = false := hid ▸ hr.notLanded
  have hinFlight : phaseOf s.crates log o.prId ≠ .landed := by
    rw [phaseOf, hunlanded]
    simp only [Bool.false_eq_true, if_false]
    split_ifs <;> nofun
  have hfields := prFields_eq_some hv hprId
  have hland : prIsLanded s.crates ⟨[r]⟩ o.prId = false := by
    rw [prIsLanded, payloads_eq_nil fun x hx => by rw [List.mem_singleton.mp hx, hr.kind]; decide]
    rfl
  have habandon : (findPrAbandonedReason s.crates ⟨[r]⟩ o.prId).isSome = true := by
    simp [findPrAbandonedReason, EventLog.payloads, hr.kind, hv, hprId, hreason]
  refine h.about (by rw [hr.kind]; decide) ho (by rw [hfields]; rfl) fun key => ?_
  have hbefore := h.phase o ho key
  by_cases hkey : o.campaign = key
  · rw [if_pos hkey] at hbefore
    rw [phaseStep_abandoned hr.kind hfields hbefore hinFlight, if_pos hkey, phaseOf, prIsLanded_concat, hunlanded,
      hland, isSome_findPrAbandonedReason_concat, habandon, Bool.or_true]
    rfl
  · rw [if_neg hkey] at hbefore
    rw [phaseStep_abandoned_none hr.kind hfields hbefore, if_neg hkey]

theorem landed (hc : s.crates.Json) (h : Agreed s log) (hk : r.kind = prLandedKind) (ho : o ∈ openedPrs s.crates log)
    (hr : r.payload = s.scrubToCanonical (prLandedPayload o o.prId)) : Agreed s ⟨log.records ++ [r]⟩ := by
  obtain ⟨hid, hcampaign⟩ := h.plain o ho
  have hp := Scrubber.prLandedPayload_printable o o.prId
  have hread : s.crates.fromStr r.payload = some (s.stored (prLandedPayload o o.prId)) := by
    rw [hr]
    exact Scrubber.fromStr_scrubToCanonical hc hp
  have hprId : (s.stored (prLandedPayload o o.prId)).fieldStr "pr_id" = some o.prId := by
    rw [Scrubber.fieldStr_stored_address hp (by decide) (by decide)]
    exact congrArg some hid
  have hfield : (s.stored (prLandedPayload o o.prId)).fieldStr "campaign" = some o.campaign := by
    rw [Scrubber.fieldStr_stored_address hp (by decide) (by decide)]
    exact congrArg some hcampaign
  have hfields : r.prFields s.crates = some (o.prId, some o.campaign) := by
    rw [prFields_eq_some hread hprId, hfield]
  have hland : prIsLanded s.crates ⟨[r]⟩ o.prId = true := by
    simp [prIsLanded, EventLog.payloads, hk, hread, hprId]
  refine h.about (by rw [hk]; decide) ho (by rw [hfields]; rfl) fun key => ?_
  by_cases hkey : o.campaign = key
  · rw [phaseStep_landed hk (hkey ▸ hfields), if_pos hkey, phaseOf, prIsLanded_concat, hland, Bool.or_true]
    rfl
  · rw [phaseStep_unscoped (by rw [hk]; decide) (by simpa [hfields] using hkey), h.phase o ho key, if_neg hkey,
      if_neg hkey]

theorem opened (h : Agreed s log) {args : OpenArgs} (hr : Opening s log args r) : Agreed s ⟨log.records ++ [r]⟩ := by
  have hone : openedPrs s.crates ⟨[r]⟩ = [args.opened s.measures r.seq] := by simp [openedPrs, hr.kind, hr.parsed]
  have hopened : openedPrs s.crates ⟨log.records ++ [r]⟩ =
      openedPrs s.crates log ++ [args.opened s.measures r.seq] := by rw [openedPrs_append, hone]
  have hnew : ∀ o ∈ openedPrs s.crates log, o.prId ≠ structuralSecretScrub s.measures args.prId :=
    findPrOpened_eq_none.mp hr.unopened
  have hfields : r.prFields s.crates = some (structuralSecretScrub s.measures args.prId,
      some (structuralSecretScrub s.measures args.campaign)) := by
    have hparsed := hr.parsed
    simp only [parseOpened, Option.bind_eq_bind, Option.bind_eq_some_iff] at hparsed
    obtain ⟨v, hv, prId, hprId, campaign, hcampaign, author, -, intents, -, ho⟩ := hparsed
    have ho := Option.some.inj ho
    rw [prFields_eq_some hv hprId, hcampaign, show prId = _ from congrArg OpenedPr.prId ho,
      show campaign = _ from congrArg OpenedPr.campaign ho]
    rfl
  have hframe : ∀ o ∈ openedPrs s.crates log, (r.prFields s.crates).map Prod.fst ≠ some o.prId := by
    intro o ho he
    rw [hfields] at he
    exact hnew o ho (Option.some.inj he).symm
  have hphase : ∀ id, phaseOf s.crates ⟨log.records ++ [r]⟩ id = phaseOf s.crates log id := fun id =>
    phaseOf_concat (.inl (by rw [hr.kind]; decide)) (.inl (by rw [hr.kind]; decide))
  refine ⟨?_, ?_, ?_, ?_, ?_⟩
  · rw [hopened]
    intro o ho
    rcases List.mem_append.mp ho with ho | ho
    · exact h.plain o ho
    · rw [List.mem_singleton.mp ho]
      exact ⟨structuralSecretScrub_idem _ _, structuralSecretScrub_idem _ _⟩
  · rw [hopened]
    intro o ho o' ho' he
    rcases List.mem_append.mp ho with ho | ho <;> rcases List.mem_append.mp ho' with ho' | ho'
    · exact h.distinct o ho o' ho' he
    · rw [List.mem_singleton.mp ho'] at he
      exact absurd he (hnew o ho)
    · rw [List.mem_singleton.mp ho] at he
      exact absurd he.symm (hnew o' ho')
    · rw [List.mem_singleton.mp ho, List.mem_singleton.mp ho']
  · rw [hopened]
    intro o ho key
    rw [phaseMap_concat, hphase]
    rcases List.mem_append.mp ho with ho | ho
    · rw [phaseStep_frame (hframe o ho)]
      exact h.phase o ho key
    · obtain rfl := List.mem_singleton.mp ho
      have hnone : (phaseMap s.crates log key)[structuralSecretScrub s.measures args.prId]? = none := by
        by_contra hne
        obtain ⟨o, ho, hid⟩ := h.known _ _ hne
        exact hnew o ho hid
      have hinFlight : phaseOf s.crates log (structuralSecretScrub s.measures args.prId) = .inFlight := by
        by_contra hne
        obtain ⟨o, ho, hid⟩ := h.settled _ hne
        exact hnew o ho hid
      rw [show (args.opened s.measures r.seq).prId = structuralSecretScrub s.measures args.prId from rfl,
        show (args.opened s.measures r.seq).campaign = structuralSecretScrub s.measures args.campaign from rfl,
        hinFlight]
      by_cases hkey : structuralSecretScrub s.measures args.campaign = key
      · rw [if_pos hkey]
        exact phaseStep_proposes ⟨hkey ▸ hfields, .inr (.inl hr.kind)⟩ (List.mem_pair.mpr (.inl hnone))
      · rw [phaseStep_unscoped (by rw [hr.kind]; decide) (by simpa [hfields] using hkey), hnone, if_neg hkey]
  · intro key id hne
    rw [hopened]
    by_cases hsame : id = structuralSecretScrub s.measures args.prId
    · exact ⟨_, List.mem_append_right _ (List.mem_singleton_self _), hsame.symm⟩
    · rw [phaseMap_concat, phaseStep_frame (by rw [hfields]; exact fun he => hsame (Option.some.inj he).symm)] at hne
      obtain ⟨o, ho, hid⟩ := h.known key id hne
      exact ⟨o, List.mem_append_left _ ho, hid⟩
  · intro id hne
    rw [hphase] at hne
    rw [hopened]
    obtain ⟨o, ho, hid⟩ := h.settled id hne
    exact ⟨o, List.mem_append_left _ ho, hid⟩

theorem filed (hc : s.crates.Json) {rs : List EventRecord} (hrs : ∀ r ∈ rs, Scrubber.Filed s log r)
    (h : Agreed s log) : Agreed s ⟨log.records ++ rs⟩ := by
  induction rs using List.reverseRecOn with
  | nil => rwa [List.append_nil]
  | append_singleton rs r ih =>
    have hbefore := ih fun x hx => hrs x (List.mem_append_left _ hx)
    rw [← List.append_assoc]
    rcases hrs r (List.mem_append_right _ (List.mem_singleton_self r)) with hk | ⟨hk, o, ho, hpayload⟩
    · refine @other s ⟨log.records ++ rs⟩ r hbefore ?_
      simp only [List.mem_cons, List.not_mem_nil, or_false] at hk
      rcases hk with hk | hk | hk <;> rw [hk] <;> decide
    · refine @landed s ⟨log.records ++ rs⟩ r o hc hbefore hk ?_ hpayload
      rw [openedPrs_append]
      exact List.mem_append_left _ ho

theorem call (hc : s.crates.Json) (h : Agreed s log) {ω : Type} (host : LandHost ω) (call : PrCall ω) :
    Agreed s (call.run s host log) := by
  cases call with
  | openPr args =>
    simp only [PrCall.run]
    rcases Scrubber.openPr_effect hc log args with ⟨hsame, -⟩ | ⟨r, hr, happend⟩
    · rwa [hsame]
    · rw [happend]
      exact h.opened hr
  | landPr args =>
    simp only [PrCall.run]
    rcases Scrubber.landPr_effect hc log args with hsame | ⟨r, hr, happend⟩
    · rwa [hsame]
    · rw [happend]
      exact h.queued hr
  | abandonPr args =>
    simp only [PrCall.run]
    rcases Scrubber.abandonPr_effect hc log args with ⟨hsame, -⟩ | ⟨r, hr, happend⟩
    · rwa [hsame]
    · rw [happend]
      exact h.abandoned hr
  | settlePr args =>
    obtain ⟨rs, hrs, happend⟩ := Scrubber.settlePr_filed (s := s) log args
    simp only [PrCall.run, happend]
    exact h.filed hc hrs
  | batchLand args w =>
    obtain ⟨rs, hrs, happend⟩ := Scrubber.batchLand_filed (s := s) host log args w
    simp only [PrCall.run, happend]
    exact h.filed hc hrs

theorem run (hc : s.crates.Json) {ω : Type} (host : LandHost ω) (calls : List (PrCall ω)) (h : Agreed s log) :
    Agreed s (runPrCalls s host calls log) := by
  induction calls generalizing log with
  | nil => exact h
  | cons first calls ih => exact ih (h.call hc host first)

theorem empty (s : Scrubber) : Agreed s ⟨[]⟩ :=
  ⟨nofun, nofun, nofun, fun _ _ h => absurd ExtTreeMap.getElem?_empty h, fun _ h => absurd rfl h⟩

end Agreed

end Steps

/-- The campaign's projection reports the PR as the list does. -/
structure SameView (c : Crates) (log : EventLog) (key : String) (args : ListArgs) (id : String) : Prop where
  landed : (id, .landed) ∈ prPhases c log key ↔ ListedAs c log args id .landed
  abandoned : (id, .abandoned) ∈ prPhases c log key ↔ ListedAs c log args id .abandoned
  inFlight : (id, .inFlight) ∈ prPhases c log key ↔ ListedAs c log args id .proposed ∨ ListedAs c log args id .queued

namespace Agreed

variable {s : Scrubber} {log : EventLog} {o : OpenedPr}

theorem findPrOpened (h : Agreed s log) (ho : o ∈ openedPrs s.crates log) :
    findPrOpened s.crates log o.prId = some o := by
  cases hfound : Hugit.findPrOpened s.crates log o.prId with
  | none => exact absurd rfl (findPrOpened_eq_none.mp hfound o ho)
  | some o' =>
    obtain ⟨ho', hid⟩ := mem_openedPrs_of_findPrOpened hfound
    rw [h.distinct o' ho' o ho hid]

theorem mem_prPhases (h : Agreed s log) (ho : o ∈ openedPrs s.crates log) {key : String} {phase : CampaignPrPhase} :
    (o.prId, phase) ∈ prPhases s.crates log key ↔ o.campaign = key ∧ phaseOf s.crates log o.prId = phase := by
  rw [prPhases, ExtTreeMap.mem_toList_iff_getElem?_eq_some, h.phase o ho key]
  split_ifs with hkey <;> simp [hkey]

theorem sameView (h : Agreed s log) (ho : o ∈ openedPrs s.crates log) {key : String} {campaign : Option String}
    (hscope : campaign.all (o.campaign = ·) ↔ o.campaign = key) :
    SameView s.crates log key ⟨campaign, none⟩ o.prId := by
  have hfound := h.findPrOpened ho
  refine ⟨?_, ?_, ?_⟩
  · rw [h.mem_prPhases ho, listedAs_iff hfound, phaseOf_eq_landed, hscope]
  · rw [h.mem_prPhases ho, listedAs_iff hfound, phaseOf_eq_abandoned, hscope]
  · rw [h.mem_prPhases ho, listedAs_iff hfound, listedAs_iff hfound, phaseOf_eq_inFlight, hscope, and_or_left]

end Agreed

theorem campaign_view_agrees {s : Scrubber} (hc : s.crates.Json) {ω : Type} (host : LandHost ω)
    (calls : List (PrCall ω)) {log : EventLog} (hlog : log = runPrCalls s host calls ⟨[]⟩) {o : OpenedPr}
    (ho : o ∈ openedPrs s.crates log) (key : String) :
    SameView s.crates log key ⟨some key, none⟩ o.prId ∧
      (o.campaign = key → SameView s.crates log key ⟨none, none⟩ o.prId) := by
  have hagreed : Agreed s log := hlog ▸ (Agreed.empty s).run hc host calls
  refine ⟨hagreed.sameView ho ?_, fun hkey => hagreed.sameView ho ?_⟩
  · simp
  · simp [hkey]

theorem settledBehind_views_agree : ∃ o ∈ openedPrs plainScrubber.crates (runPrCalls plainScrubber quietLandHost
    settledBehind ⟨[]⟩), o.prId = "a" ∧ o.campaign = "c" ∧
      SameView plainScrubber.crates (runPrCalls plainScrubber quietLandHost settledBehind ⟨[]⟩) "c" ⟨none, none⟩
        o.prId := by
  have ha := plainScrubber_letters "a" (by simp)
  have hc := plainScrubber_letters "c" (by simp)
  obtain ⟨o₁, o₂, o₃, item₁, item₂, hreads⟩ :=
    settledBehind_reads plainScrubber_json ha (plainScrubber_letters "b" (by simp)) hc
  have ho : (humanOpens "a").opened plainScrubber.measures o₁ ∈ openedPrs plainScrubber.crates
      (runPrCalls plainScrubber quietLandHost settledBehind ⟨[]⟩) := by
    rw [hreads.opened]
    exact List.mem_cons_self
  exact ⟨_, ho, ha, hc, (campaign_view_agrees plainScrubber_json quietLandHost settledBehind rfl ho "c").2 hc⟩

end Hugit
