import Hugit.IntentLanding
import Hugit.QueueOrder
import Hugit.Verdicts

/-! Recorded verdicts and the marks of the ledger. A claim counts for its lens when
neither the scrubber nor a colon in the name of the lens changes it. -/

namespace Hugit

open Std

inductive VerdictRun (s : Scrubber) : EventLog → List VerdictRecordArgs → Prop
  | start {log : EventLog} (h : ∀ r ∈ log.records, r.kind ≠ verdictRecordedKind) : VerdictRun s log []
  | land {log : EventLog} {calls : List VerdictRecordArgs} (run : VerdictRun s log calls) (sidecar : IntentSidecar)
      (principalChain : List String) (recordedAt : Nat) :
      VerdictRun s (s.landIntent log sidecar principalChain recordedAt).2 calls
  | other {log : EventLog} {calls : List VerdictRecordArgs} (run : VerdictRun s log calls) {r : EventRecord}
      (h : r.kind ≠ verdictRecordedKind) : VerdictRun s ⟨log.records ++ [r]⟩ calls
  | record {log log' : EventLog} {calls : List VerdictRecordArgs} (run : VerdictRun s log calls)
      {args : VerdictRecordArgs} {answer : Value} (hstore : args.store = true)
      (h : s.recordVerdict log args = (.ok answer, log')) : VerdictRun s log' (calls ++ [args])

def latestResult (calls : List VerdictRecordArgs) (intent lens : String) : Option Verdict :=
  lastWrite lens ((calls.filter (·.intent = intent)).flatMap (·.lensVerdicts))

/-- Neither the id of the intent nor a claim looks like a credential, and no lens
has a colon in its name. -/
structure PlainPanel (m : Measures) (args : VerdictRecordArgs) : Prop where
  intent : isSecret m args.intent.toList = false
  claims : ∀ claim ∈ claimTexts args.lensVerdicts, isSecret m claim.toList = false
  lens : ∀ p ∈ args.lensVerdicts, ':' ∉ p.1.toList

section Claims

theorem ofClaim_toStr (v : Verdict) : Verdict.ofClaim v.toStr = v := by
  cases v <;> decide

theorem splitClaim_claim {lens : String} (h : ':' ∉ lens.toList) (result : String) :
    splitClaim (lens ++ ":" ++ result) = some (lens, result) := by
  rw [splitClaim, String.toList_append, String.toList_append, List.append_assoc]
  show (splitOnce ':' (lens.toList ++ ':' :: result.toList)).map _ = _
  rw [splitOnce_append h]
  simp

theorem parsedClaims_claimTexts {vo : VerdictObject} {lensVerdicts : List (String × Verdict)}
    (hclaims : vo.claimsChecked = claimTexts lensVerdicts) (hlens : ∀ p ∈ lensVerdicts, ':' ∉ p.1.toList) :
    vo.parsedClaims = lensVerdicts := by
  rw [VerdictObject.parsedClaims, hclaims, claimTexts]
  clear hclaims
  induction lensVerdicts with
  | nil => rfl
  | cons p rest ih =>
    obtain ⟨hp, hrest⟩ := List.forall_mem_cons.mp hlens
    rw [List.map_cons, List.filterMap_cons_some (splitClaim_claim hp _), List.map_cons, ih hrest, ofClaim_toStr]

theorem lensOutcomes_claimTexts {vo : VerdictObject} {lensVerdicts : List (String × Verdict)}
    (hclaims : vo.claimsChecked = claimTexts lensVerdicts) (hlens : ∀ p ∈ lensVerdicts, ':' ∉ p.1.toList)
    (hne : lensVerdicts ≠ []) (hagree : ∀ p ∈ lensVerdicts, ∀ q ∈ lensVerdicts, p.1 = q.1 → p.2 = q.2)
    (lens : String) : vo.lensOutcomes[lens]? = lastWrite lens lensVerdicts := by
  rw [VerdictObject.lensOutcomes, parsedClaims_claimTexts hclaims hlens, if_neg hne, getElem?_merged_of_agree hagree]

end Claims

section Steps

variable {s : Scrubber} {log log' : EventLog} {calls : List VerdictRecordArgs} {args : VerdictRecordArgs}

theorem latestResult_concat (calls : List VerdictRecordArgs) (args : VerdictRecordArgs) (intent lens : String) :
    latestResult (calls ++ [args]) intent lens =
      if args.intent = intent then (lastWrite lens args.lensVerdicts).or (latestResult calls intent lens)
      else latestResult calls intent lens := by
  rw [latestResult, List.filter_append, List.flatMap_append, lastWrite_append]
  by_cases h : args.intent = intent <;> simp [h, latestResult]

def Agrees (s : Scrubber) (log : EventLog) (calls : List VerdictRecordArgs) : Prop :=
  ∀ intent lens, Ledger.lensOutcome (Ledger.verdictsFor s.crates log.records intent) lens =
    latestResult calls intent lens

theorem verdictsFor_append (c : Crates) (records later : List EventRecord) (intent : String) :
    Ledger.verdictsFor c (records ++ later) intent =
      Ledger.verdictsFor c records intent ++ Ledger.verdictsFor c later intent := by
  rw [Ledger.verdictsFor, Ledger.verdicts_append, List.filter_append]
  rfl

theorem verdicts_eq_nil {c : Crates} {records : List EventRecord} (h : ∀ r ∈ records, r.kind ≠ verdictRecordedKind) :
    Ledger.verdicts c records = [] :=
  List.filterMap_eq_nil_iff.mpr fun r hr => if_neg (h r hr)

theorem Agrees.other (hagrees : Agrees s log calls) {r : EventRecord} (h : r.kind ≠ verdictRecordedKind) :
    Agrees s ⟨log.records ++ [r]⟩ calls := by
  intro intent lens
  have hnil : Ledger.verdicts s.crates [r] = [] := verdicts_eq_nil (by simpa using h)
  rw [verdictsFor_append, Ledger.verdictsFor, Ledger.verdictsFor, hnil, List.filter_nil, List.append_nil]
  exact hagrees intent lens

theorem Agrees.land (hagrees : Agrees s log calls) (sidecar : IntentSidecar) (principalChain : List String)
    (recordedAt : Nat) : Agrees s (s.landIntent log sidecar principalChain recordedAt).2 calls := by
  rcases @landIntent_cases s log sidecar principalChain recordedAt with ⟨he, -⟩ | ⟨he, -⟩
  · rw [he]
    exact hagrees
  · rw [he]
    exact hagrees.other (show intentLandedKind ≠ verdictRecordedKind by decide)

theorem lensOutcomes_stored (hplain : PlainPanel s.measures args)
    (hlens : lensVerdictsOf s.measures args = .ok args.lensVerdicts) (lens : String) :
    (s.storedVerdict (panelVerdict args args.lensVerdicts)).intent = args.intent ∧
      (s.storedVerdict (panelVerdict args args.lensVerdicts)).lensOutcomes[lens]? =
        lastWrite lens args.lensVerdicts := by
  obtain ⟨-, hne, hagree⟩ := lensVerdictsOf_eq_ok hlens
  have hclaims : (s.storedVerdict (panelVerdict args args.lensVerdicts)).claimsChecked =
      claimTexts args.lensVerdicts := by
    refine (List.map_congr_left fun claim hclaim => ?_).trans (List.map_id _)
    rw [Scrubber.storedItem_freeText (by decide)]
    exact redactText_eq_self_iff.mpr (hplain.claims claim hclaim)
  refine ⟨?_, lensOutcomes_claimTexts hclaims hplain.lens hne hagree lens⟩
  show s.storedText "intent" args.intent = args.intent
  rw [Scrubber.storedText_freeText (by decide) (by decide), redactText_eq_self_iff.mpr hplain.intent]

theorem Agrees.record (hc : s.crates.Json) (hagrees : Agrees s log calls) (hplain : PlainPanel s.measures args)
    (hstore : args.store = true) {answer : Value} (h : s.recordVerdict log args = (.ok answer, log')) :
    Agrees s log' (calls ++ [args]) := by
  obtain ⟨hlens, -, heffect⟩ := recordVerdict_cases h hstore
  obtain ⟨-, hne, hagree⟩ := lensVerdictsOf_eq_ok hlens
  intro intent lens
  rw [latestResult_concat, ← hagrees intent lens]
  rcases heffect with ⟨rfl, latest, hlatest, hclaims⟩ | rfl
  · -- the latest verdict on the intent already says the same
    split_ifs with hintent
    · subst hintent
      have hlast : (Ledger.verdictsFor s.crates log'.records args.intent).getLast? = some latest := by
        rw [Ledger.verdictsFor, ← List.head?_reverse, ← List.filter_reverse, List.head?_filter]
        exact hlatest
      obtain ⟨earlier, he⟩ := List.getLast?_eq_some_iff.mp hlast
      rw [he, Ledger.lensOutcome_append, Ledger.lensOutcome_singleton,
        lensOutcomes_claimTexts hclaims hplain.lens hne hagree, ← Option.or_assoc, Option.or_self]
    · rfl
  · obtain ⟨hintent, houtcome⟩ := lensOutcomes_stored hplain hlens lens
    have hnew : Ledger.verdicts s.crates [s.panelRecord log args args.lensVerdicts] =
        [s.storedVerdict (panelVerdict args args.lensVerdicts)] := by
      rw [Ledger.verdicts, List.filterMap_cons_some (verdictObject_panelRecord hc _), List.filterMap_nil]
    rw [verdictsFor_append, Ledger.lensOutcome_append]
    nth_rewrite 1 [Ledger.verdictsFor]
    rw [hnew]
    split_ifs with hi
    · have hkeep : (s.storedVerdict (panelVerdict args args.lensVerdicts)).intent = intent := hintent.trans hi
      rw [List.filter_cons_of_pos (by simpa using hkeep), List.filter_nil, Ledger.lensOutcome_singleton, houtcome]
    · have hdrop : ¬ (s.storedVerdict (panelVerdict args args.lensVerdicts)).intent = intent :=
        fun he => hi (hintent.symm.trans he)
      rw [List.filter_cons_of_neg (by simpa using hdrop)]
      rfl

theorem VerdictRun.agrees (hc : s.crates.Json) (run : VerdictRun s log calls)
    (hplain : ∀ args ∈ calls, PlainPanel s.measures args) : Agrees s log calls := by
  induction run with
  | start h =>
    intro intent lens
    rw [Ledger.verdictsFor, verdicts_eq_nil h]
    rfl
  | land run sidecar principalChain recordedAt ih => exact (ih hplain).land sidecar principalChain recordedAt
  | other run h ih => exact (ih hplain).other h
  | record run hstore h ih =>
    obtain ⟨hcalls, hargs⟩ := List.forall_mem_append.mp hplain
    exact (ih hcalls).record hc (hargs _ (by simp)) hstore h

end Steps

/-- On a log where each intent is landed once, the ledger marks an intent by the
most recent results of its lenses, if every panel is plain. -/
theorem recorded_verdicts_count {s : Scrubber} (hc : s.crates.Json) {log : EventLog} {calls : List VerdictRecordArgs}
    (run : VerdictRun s log calls) (hplain : ∀ args ∈ calls, PlainPanel s.measures args)
    (honce : ((Ledger.landings s.crates log.records).map fun l => Ledger.rawIntentId l.2).Nodup) {i : Nat}
    {l : EventRecord × Value} (hl : (Ledger.landings s.crates log.records)[i]? = some l) :
    ∃ e, (Ledger.fromRecords s.crates s.measures log.records).entries[i]? = some e ∧
      e.unmarked = Ledger.landedEntry s.measures l.1 l.2 ∧
      Ledger.Marked e (latestResult calls (Ledger.rawIntentId l.2)) := by
  obtain ⟨e, he, hshown, hmarked⟩ := @Ledger.entry_of_landing s.crates s.measures log.records i l hl
  refine ⟨e, he, hshown, ?_⟩
  rw [Ledger.linkedVerdicts_of_last hl (Ledger.lastLanded_of_nodup honce hl)] at hmarked
  have hagrees : Ledger.lensOutcome (Ledger.verdictsFor s.crates log.records (Ledger.rawIntentId l.2)) =
      latestResult calls (Ledger.rawIntentId l.2) := funext fun lens => run.agrees hc hplain _ lens
  rwa [hagrees] at hmarked

section Scenarios

variable {s : Scrubber}

def landedOnce (s : Scrubber) : EventLog :=
  (s.landIntent ⟨[]⟩ ⟨"i", ""⟩ [] 0).2

theorem landedOnce_eq (s : Scrubber) : landedOnce s = ⟨[s.landedRecord ⟨[]⟩ ⟨"i", ""⟩ [] 0]⟩ := rfl

def panelOf (lens result : List String) : VerdictRecordArgs :=
  ⟨"i", "", true, lens, result, "", 0⟩

theorem landed_landedRecord (hc : s.crates.Json) (log : EventLog) (sidecar : IntentSidecar)
    (principalChain : List String) (recordedAt : Nat) :
    (s.landedRecord log sidecar principalChain recordedAt).landed s.crates =
      some (s.stored (intentLandedPayload sidecar (chainCampaign principalChain))) :=
  Scrubber.fromStr_scrubToCanonical hc (intentLandedPayload_printable _ _)

theorem landings_landedOnce (hc : s.crates.Json) (rs : List EventRecord) (h : ∀ r ∈ rs, r.kind ≠ intentLandedKind) :
    Ledger.landings s.crates ((landedOnce s).records ++ rs) =
      [(s.landedRecord ⟨[]⟩ ⟨"i", ""⟩ [] 0, s.stored (intentLandedPayload ⟨"i", ""⟩ ""))] := by
  have hnil : Ledger.landings s.crates rs = [] :=
    List.filterMap_eq_nil_iff.mpr fun r hr => by simp [EventRecord.landed, h r hr]
  rw [Ledger.landings_append, hnil, List.append_nil, landedOnce_eq, Ledger.landings,
    List.filterMap_cons_some (by rw [landed_landedRecord hc]; rfl), List.filterMap_nil]
  rfl

theorem storedIntent_fields (hi : structuralSecretScrub s.measures "i" = "i") :
    (s.stored (intentLandedPayload ⟨"i", ""⟩ "")).fieldStr "intent_id" = some "i" ∧
      (s.stored (intentLandedPayload ⟨"i", ""⟩ "")).fieldStr "campaign" = none := by
  have hp := intentLandedPayload_printable ⟨"i", ""⟩ ""
  constructor
  · rw [Scrubber.fieldStr_stored_address hp (by decide) (by decide)]
    exact congrArg some hi
  · rw [Scrubber.fieldStr_stored hp (by decide)]
    rfl

theorem verdicts_landedOnce (s : Scrubber) : Ledger.verdicts s.crates (landedOnce s).records = [] := by
  refine verdicts_eq_nil fun r hr => ?_
  rw [List.mem_singleton.mp hr]
  exact show intentLandedKind ≠ verdictRecordedKind by decide

theorem recordVerdict_landedOnce (hc : s.crates.Json) (hi : structuralSecretScrub s.measures "i" = "i")
    {lens result : List String}
    (hlens : lensVerdictsOf s.measures (panelOf lens result) = .ok (panelOf lens result).lensVerdicts) :
    ∃ answer, s.recordVerdict (landedOnce s) (panelOf lens result) = (.ok answer, ⟨(landedOnce s).records ++
      [s.panelRecord (landedOnce s) (panelOf lens result) (panelOf lens result).lensVerdicts]⟩) := by
  obtain ⟨hid, hcampaign⟩ := storedIntent_fields hi
  have hread : s.crates.fromStr (s.landedRecord ⟨[]⟩ ⟨"i", ""⟩ [] 0).payload =
      some (s.stored (intentLandedPayload ⟨"i", ""⟩ "")) :=
    Scrubber.fromStr_scrubToCanonical hc (intentLandedPayload_printable _ _)
  have hkind : (s.landedRecord ⟨[]⟩ ⟨"i", ""⟩ [] 0).kind = intentLandedKind := rfl
  have hpayloads : (landedOnce s).payloads s.crates intentLandedKind =
      [s.stored (intentLandedPayload ⟨"i", ""⟩ "")] := by
    simp [EventLog.payloads, landedOnce_eq, hkind, hread]
  refine recordVerdict_appends hlens rfl (guardVerdict_eq_ok ?_ ?_) ?_
  · show intentLandedOnLog s.crates (landedOnce s) "i" = true
    simp [intentLandedOnLog, hpayloads, hid]
  · show campaignForIntent s.crates (landedOnce s) "i" = none
    simp [campaignForIntent, hpayloads, hcampaign]
  · rw [findExistingVerdict, verdicts_landedOnce]
    rfl

theorem storedPanel_intent (hintent : redactText s.measures "i" = "i") (lens result : List String) :
    (s.storedVerdict (panelVerdict (panelOf lens result) (panelOf lens result).lensVerdicts)).intent = "i" := by
  have hstored : (s.storedVerdict (panelVerdict (panelOf lens result) (panelOf lens result).lensVerdicts)).intent =
      s.storedText "intent" (panelOf lens result).intent := rfl
  rw [hstored, show (panelOf lens result).intent = "i" from rfl,
    Scrubber.storedText_freeText (by decide) (by decide), hintent]

theorem panelRun (hc : s.crates.Json) (hi : structuralSecretScrub s.measures "i" = "i")
    (hintent : redactText s.measures "i" = "i") {lens result : List String}
    (hlens : lensVerdictsOf s.measures (panelOf lens result) = .ok (panelOf lens result).lensVerdicts) :
    ∃ log l e, VerdictRun s log [panelOf lens result] ∧ Ledger.landings s.crates log.records = [l] ∧
      Ledger.rawIntentId l.2 = "i" ∧ (Ledger.fromRecords s.crates s.measures log.records).entries[0]? = some e ∧
      Ledger.Marked e ((s.storedVerdict (panelVerdict (panelOf lens result)
        (panelOf lens result).lensVerdicts)).lensOutcomes[·]?) := by
  obtain ⟨answer, hrecord⟩ := recordVerdict_landedOnce hc hi hlens
  have hstart : VerdictRun s ⟨[]⟩ [] := .start nofun
  have hl := landings_landedOnce hc [s.panelRecord (landedOnce s) (panelOf lens result)
    (panelOf lens result).lensVerdicts] fun r hr => by
      rw [List.mem_singleton.mp hr]
      exact show verdictRecordedKind ≠ intentLandedKind by decide
  have hid : Ledger.rawIntentId (s.stored (intentLandedPayload ⟨"i", ""⟩ "")) = "i" := by
    rw [Ledger.rawIntentId, (storedIntent_fields hi).1, Option.getD_some]
  have hget := congrArg (·[0]?) hl
  obtain ⟨e, he, -, hmarked⟩ := @Ledger.entry_of_landing s.crates s.measures _ 0 _ hget
  rw [Ledger.linkedVerdicts_of_last hget (Ledger.lastLanded_of_nodup (by rw [hl]; simp) hget), hid] at hmarked
  refine ⟨_, _, e, (hstart.land ⟨"i", ""⟩ [] 0).record rfl hrecord, hl, hid, he, ?_⟩
  have hone : Ledger.verdictsFor s.crates ((landedOnce s).records ++ [s.panelRecord (landedOnce s)
      (panelOf lens result) (panelOf lens result).lensVerdicts]) "i" =
      [s.storedVerdict (panelVerdict (panelOf lens result) (panelOf lens result).lensVerdicts)] := by
    have hfor := storedPanel_intent hintent lens result
    rw [Ledger.verdictsFor, Ledger.verdicts_append, verdicts_landedOnce, List.nil_append, Ledger.verdicts,
      List.filterMap_cons_some (verdictObject_panelRecord hc _), List.filterMap_nil,
      List.filter_cons_of_pos (by simpa using hfor), List.filter_nil]
  rw [hone] at hmarked
  simpa only [funext (Ledger.lensOutcome_singleton _)] using hmarked

/-- A panel that rejects under a lens named after a credential. -/
def tokenPanel : VerdictRecordArgs :=
  panelOf ["token", "style"] ["reject", "approve"]

theorem tokenPanel_proves (hc : s.crates.Json) (hi : structuralSecretScrub s.measures "i" = "i")
    (hintent : redactText s.measures "i" = "i") (htoken : redactText s.measures "token:reject" = redactedMarker)
    (hstyle : redactText s.measures "style:approve" = "style:approve") :
    ∃ log l e, VerdictRun s log [tokenPanel] ∧ Ledger.landings s.crates log.records = [l] ∧
      Ledger.rawIntentId l.2 = "i" ∧ (Ledger.fromRecords s.crates s.measures log.records).entries[0]? = some e ∧
      e.proven = true ∧ e.rejected = false := by
  obtain ⟨log, l, e, run, hl, hid, he, hmarked⟩ :=
    panelRun hc hi hintent (show lensVerdictsOf s.measures tokenPanel = _ from rfl)
  refine ⟨log, l, e, run, hl, hid, he, ?_⟩
  have hclaims : (s.storedVerdict (panelVerdict tokenPanel tokenPanel.lensVerdicts)).claimsChecked =
      [redactedMarker, "style:approve"] := by
    show [s.storedItem "claims_checked" "token:reject", s.storedItem "claims_checked" "style:approve"] = _
    rw [Scrubber.storedItem_freeText (by decide), Scrubber.storedItem_freeText (by decide), htoken, hstyle]
  have hparsed : (s.storedVerdict (panelVerdict tokenPanel tokenPanel.lensVerdicts)).parsedClaims =
      [("style", .approve)] := by
    rw [VerdictObject.parsedClaims, hclaims]
    rfl
  have houtcome : ∀ lens, (s.storedVerdict (panelVerdict tokenPanel tokenPanel.lensVerdicts)).lensOutcomes[lens]? =
      if "style" = lens then some .approve else none := by
    intro lens
    rw [VerdictObject.lensOutcomes, hparsed, if_neg (by simp), getElem?_merged_of_agree (by simp)]
    simp [lastWrite]
  constructor
  · refine hmarked.proven.mpr ⟨⟨"style", .approve, (houtcome _).trans (if_pos rfl)⟩, fun lens v hv => ?_⟩
    have hv' := (houtcome lens).symm.trans hv
    split_ifs at hv'
    exact (Option.some.inj hv').symm
  · refine Bool.eq_false_iff.mpr fun hr => ?_
    obtain ⟨lens, v, hv, hne⟩ := hmarked.rejected.mp hr
    have hv' := (houtcome lens).symm.trans hv
    split_ifs at hv'
    exact hne (Option.some.inj hv').symm

/-- A recorded rejection is lost: the entry of the intent is proven. -/
theorem recorded_rejection_lost :
    latestResult [tokenPanel] "i" "token" = some .reject ∧
      ∃ log l e, VerdictRun plainScrubber log [tokenPanel] ∧
        Ledger.landings plainScrubber.crates log.records = [l] ∧ Ledger.rawIntentId l.2 = "i" ∧
        (Ledger.fromRecords plainScrubber.crates plainScrubber.measures log.records).entries[0]? = some e ∧
        e.proven = true ∧ e.rejected = false := by
  refine ⟨by decide +kernel, tokenPanel_proves plainScrubber_json (by decide +kernel) (by decide +kernel)
    (by decide +kernel) (by decide +kernel)⟩

def stylePanel : VerdictRecordArgs :=
  panelOf ["style"] ["reject"]

theorem stylePanel_plain : PlainPanel plainScrubber.measures stylePanel where
  intent := by decide +kernel
  claims := by decide +kernel
  lens := by decide +kernel

theorem plain_rejection_counts :
    ∃ log e, VerdictRun plainScrubber log [stylePanel] ∧
      (Ledger.fromRecords plainScrubber.crates plainScrubber.measures log.records).entries[0]? = some e ∧
      e.rejected = true := by
  obtain ⟨log, l, -, run, hl, hid, -, -⟩ := panelRun plainScrubber_json (by decide +kernel) (by decide +kernel)
    (show lensVerdictsOf plainScrubber.measures stylePanel = _ from rfl)
  obtain ⟨e, he, -, hmarked⟩ := recorded_verdicts_count plainScrubber_json run
    (fun args h => by rw [List.mem_singleton.mp h]; exact stylePanel_plain) (by rw [hl]; simp) (i := 0) (l := l)
    (by rw [hl]; rfl)
  refine ⟨log, e, run, he, hmarked.rejected.mpr ⟨"style", .reject, ?_, by decide⟩⟩
  rw [hid]
  decide +kernel

end Scenarios

end Hugit
