import Hugit.CampaignWorld
import Hugit.VerdictCounts

/-! What the seal of a campaign promises. The guard counts the rejected entries
that the ledger shows under the key, not the intents that were landed under it. -/

namespace Hugit

open Std

section Claims

/-- What a verdict record claims of the lenses, in order. Without a readable
claim it speaks for the lens `panel`. -/
def VerdictObject.claims (vo : VerdictObject) : List (String × Verdict) :=
  if vo.parsedClaims = [] then [("panel", vo.verdict)] else vo.parsedClaims

theorem lensOutcomes_eq (vo : VerdictObject) :
    vo.lensOutcomes = vo.claims.foldl (fun slot w => mergeLensOutcome slot w.1 w.2) ∅ := by
  rw [VerdictObject.lensOutcomes, VerdictObject.claims]
  split_ifs <;> rfl

def latestClaim (c : Crates) (records : List EventRecord) (id lens : String) : Option Verdict :=
  lastWrite lens ((Ledger.verdictsFor c records id).flatMap (·.claims))

/-- Some lens was last claimed to reject the intent, or to have it fixed first. -/
def RejectedIn (c : Crates) (records : List EventRecord) (id : String) : Prop :=
  ∃ lens v, latestClaim c records id lens = some v ∧ v ≠ .approve

theorem getElem?_merged_of_none {ws : List (String × Verdict)} {lens : String} (h : lastWrite lens ws = none) :
    (ws.foldl (fun slot w => mergeLensOutcome slot w.1 w.2) ∅ : LensMap)[lens]? = none := by
  induction ws using List.reverseRecOn with
  | nil => exact ExtTreeMap.getElem?_empty
  | append_singleton ws w ih =>
    rw [lastWrite_concat] at h
    have hk : ¬ w.1 = lens := fun hk => by simp [hk] at h
    rw [if_neg hk] at h
    rw [List.foldl_concat, getElem?_mergeLensOutcome, if_neg fun hh => hk hh.1, ih h]

theorem lensOutcome_of_reject {objects : List VerdictObject} {lens : String} {v : Verdict}
    (h : lastWrite lens (objects.flatMap (·.claims)) = some v) (hv : v ≠ .approve) :
    Ledger.lensOutcome objects lens = some v := by
  induction objects using List.reverseRecOn with
  | nil => cases h
  | append_singleton objects vo ih =>
    rw [List.flatMap_append, List.flatMap_singleton, lastWrite_append] at h
    rw [Ledger.lensOutcome_append, Ledger.lensOutcome_singleton, lensOutcomes_eq]
    cases hlast : lastWrite lens vo.claims with
    | none =>
      rw [hlast, Option.none_or] at h
      rw [getElem?_merged_of_none hlast, Option.none_or, ih h]
    | some w =>
      rw [hlast, Option.some_or] at h
      obtain rfl := Option.some.inj h
      rw [getElem?_merged_of_reject hlast hv, Option.some_or]

end Claims

section Close

variable {s : Scrubber} {rollup : RollupBuilder} {log : EventLog} {args : CloseArgs} {key : String}

def Scrubber.Seals (s : Scrubber) (rollup : RollupBuilder) (log : EventLog) (args : CloseArgs) : Prop :=
  ∃ r, r.kind = campaignClosedKind ∧ (s.closeCampaign rollup log args).2 = ⟨log.records ++ [r]⟩

theorem appendAuthorizedAndPersist_eq (s : Scrubber) (log : EventLog) (kind owner payload : String)
    (recordedAt : Nat) :
    ∃ r, r.kind = kind ∧
      s.appendAuthorizedAndPersist log kind owner payload recordedAt = (.ok (), ⟨log.records ++ [r]⟩) :=
  ⟨_, rfl, rfl⟩

theorem seals_iff : s.Seals rollup log args ↔
    campaignClosed s.crates log args.campaign = false ∧ ∃ report, s.admitClose rollup log args = .ok report := by
  have hgrows : ∀ r : EventRecord, log ≠ ⟨log.records ++ [r]⟩ := fun r he => by
    have hlength := congrArg (fun l : EventLog => l.records.length) he
    simp at hlength
  rw [Scrubber.Seals, Scrubber.closeCampaign]
  cases hclosed : campaignClosed s.crates log args.campaign with
  | true => simpa using fun r _ => hgrows r
  | false =>
    cases hadm : s.admitClose rollup log args with
    | error e => simpa using fun r _ => hgrows r
    | ok report =>
      obtain ⟨r, hkind, happend⟩ := appendAuthorizedAndPersist_eq s log campaignClosedKind
        (((campaignCharterOwner s.crates log args.campaign).map Prod.snd).getD args.campaign)
        (s.crates.print (Scrubber.closedPayload args.campaign (campaignEnvelopeRef s.crates log args.campaign)
          (0 < (Ledger.fromRecords s.crates s.measures log.records).rejected args.campaign && args.allowRejected)
          ((Ledger.fromRecords s.crates s.measures log.records).rejected args.campaign))) 0
      refine iff_of_true ⟨r, hkind, ?_⟩ ⟨rfl, report, rfl⟩
      simp [happend]

theorem admitClose_eq_ok {report : Option Value} : s.admitClose rollup log args = .ok report ↔
    campaignOpened s.crates log args.campaign = true ∧
      (inFlightPrs s.crates log args.campaign = [] ∨ campaignAbandoned s.crates log args.campaign = true) ∧
      ((Ledger.fromRecords s.crates s.measures log.records).rejected args.campaign = 0 ∨ args.allowRejected = true) ∧
      rollup log args.campaign (prPhases s.crates log args.campaign) = .ok report := by
  unfold Scrubber.admitClose
  simp only [bind_eq_ok, refuseIf_eq_ok, not_and_or, Bool.not_eq_false, not_not, Nat.pos_iff_ne_zero,
    exists_and_left, exists_const]

theorem rejected_pos {ledger : Ledger} {e : Ledger.Entry} {i : Nat} (he : ledger.entries[i]? = some e)
    (hkey : e.campaign = key) (hrejected : e.rejected = true) : 0 < ledger.rejected key := by
  refine List.length_pos_iff_exists_mem.mpr ⟨e, ?_⟩
  simp [Ledger.byCampaign, List.mem_of_getElem? he, hkey, hrejected]

/-- The last landing of the intent is shown under the key. -/
def ShownUnder (s : Scrubber) (records : List EventRecord) (key id : String) : Prop :=
  ∃ i l, Ledger.lastLanded s.crates records id = some i ∧ (Ledger.landings s.crates records)[i]? = some l ∧
    redactText s.measures (Ledger.rawCampaign l.2) = key

theorem ShownUnder.rejected_pos {id : String} (hshown : ShownUnder s log.records key id)
    (hrejected : RejectedIn s.crates log.records id) :
    0 < (Ledger.fromRecords s.crates s.measures log.records).rejected key := by
  obtain ⟨i, l, hlast, hl, hkey⟩ := hshown
  obtain ⟨l', hl', hid⟩ := Ledger.landing_of_lastLanded hlast
  obtain rfl := Option.some.inj (hl'.symm.trans hl)
  subst hid
  obtain ⟨e, he, hentry, hmarked⟩ := @Ledger.entry_of_landing s.crates s.measures log.records i l' hl
  rw [Ledger.linkedVerdicts_of_last hl hlast] at hmarked
  obtain ⟨lens, v, hclaim, hv⟩ := hrejected
  refine Hugit.rejected_pos he ?_ (hmarked.rejected.mpr ⟨lens, v, lensOutcome_of_reject hclaim hv, hv⟩)
  rw [← hkey]
  exact congrArg Ledger.Entry.campaign hentry

end Close

/-- A campaign that is sealed without leave to seal over rejected work has none,
and nothing in flight unless it was abandoned, exactly if every rejected intent
that was landed under its key is shown under that key. -/
theorem seal_clean_iff {s : Scrubber} {rollup : RollupBuilder} {log : EventLog} {key : String}
    (h : s.Seals rollup log ⟨key, false⟩) :
    ((∀ l ∈ Ledger.landings s.crates log.records, Ledger.rawCampaign l.2 = key →
        ¬ RejectedIn s.crates log.records (Ledger.rawIntentId l.2)) ∧
      ∀ id, InFlight s.crates key log.records id → campaignAbandoned s.crates log key = true) ↔
    ∀ l ∈ Ledger.landings s.crates log.records, Ledger.rawCampaign l.2 = key →
      RejectedIn s.crates log.records (Ledger.rawIntentId l.2) →
        ShownUnder s log.records key (Ledger.rawIntentId l.2) := by
  obtain ⟨-, report, hadm⟩ := seals_iff.mp h
  obtain ⟨-, hflight, hrejected, -⟩ := admitClose_eq_ok.mp hadm
  have hnone := hrejected.resolve_right nofun
  refine ⟨fun hclean l hl hkey hrej => absurd hrej (hclean.1 l hl hkey), fun hshown => ⟨fun l hl hkey hrej => ?_, ?_⟩⟩
  · exact absurd hnone ((hshown l hl hkey hrej).rejected_pos hrej).ne'
  · intro id hid
    refine hflight.resolve_left fun hnil => ?_
    exact List.ne_nil_of_mem (mem_inFlightPrs.mpr hid.phase) hnil

section Scenarios

variable {s : Scrubber} {key result : String}

def openedPayload (key : String) : Value :=
  .object [("campaign", .string key), ("charter", .string ""), ("owner", .string "o")]

def judgedLog (s : Scrubber) (key result : String) : EventLog :=
  let opened := EventLog.nextRecord s.crates [] campaignOpenedKind ["user:o"]
    (s.scrubToCanonical (openedPayload key)) 0
  let landed := s.landedRecord ⟨[opened]⟩ ⟨"i", ""⟩ ["campaign:" ++ key] 0
  let panel := panelOf ["style"] [result]
  ⟨[opened, landed, s.panelRecord ⟨[opened, landed]⟩ panel panel.lensVerdicts]⟩

theorem chainCampaign_singleton (key : String) : chainCampaign ["campaign:" ++ key] = key := by
  have hstrip : stripPrefix "campaign:".toList ("campaign:" ++ key).toList = some key.toList := by
    rw [String.toList_append, stripPrefix_append]
  rw [chainCampaign, List.findSome?_cons_of_isSome (by rw [hstrip]; rfl), hstrip]
  exact String.ofList_toList

theorem openedPayload_printable (key : String) : (openedPayload key).Printable 127 := by
  refine .object (by simp) ?_
  simp only [List.forall_mem_cons, List.not_mem_nil, IsEmpty.forall_iff, implies_true, and_true]
  exact ⟨.string _, .string _, .string _⟩

theorem verifies_append {c : Crates} {records : List EventRecord}
    (h : RedactionFree records ∧ verifyChain c records = .ok ()) {kind : String} (hk : kind ≠ provenanceRedactionKind)
    (principalChain : List String) (payload : String) (recordedAt : Nat) :
    RedactionFree (records ++ [EventLog.nextRecord c records kind principalChain payload recordedAt]) ∧
      verifyChain c (records ++ [EventLog.nextRecord c records kind principalChain payload recordedAt]) = .ok () := by
  obtain ⟨hfree, hv⟩ := h
  refine ⟨fun r hr => ?_, @verifyChain_append_of_ne c ⟨records⟩ hv (redactionFree_markers hfree _) _ hk _ _ _⟩
  rcases List.mem_append.mp hr with hr | hr
  · exact hfree r hr
  · rw [List.mem_singleton.mp hr]
    exact hk

theorem judgedLog_verifies (s : Scrubber) (key result : String) :
    verifyChain s.crates (judgedLog s key result).records = .ok () := by
  have hempty : RedactionFree [] ∧ verifyChain s.crates [] = .ok () := ⟨by simp [RedactionFree], rfl⟩
  have hopened := verifies_append hempty (show campaignOpenedKind ≠ provenanceRedactionKind by decide) ["user:o"]
    (s.scrubToCanonical (openedPayload key)) 0
  have hlanded := verifies_append hopened (show intentLandedKind ≠ provenanceRedactionKind by decide)
    ["campaign:" ++ key] (s.scrubToCanonical (intentLandedPayload ⟨"i", ""⟩ (chainCampaign ["campaign:" ++ key]))) 0
  exact (verifies_append hlanded (show verdictRecordedKind ≠ provenanceRedactionKind by decide)
    ["orchestrator:verdict-recorder"] _ 0).2

theorem judgedLog_kinds {r : EventRecord} (hr : r ∈ (judgedLog s key result).records) :
    r.kind ∈ [campaignOpenedKind, intentLandedKind, verdictRecordedKind] := by
  simp only [judgedLog, List.mem_cons, List.not_mem_nil, or_false] at hr
  rcases hr with rfl | rfl | rfl
  · exact List.mem_cons_self
  · exact List.mem_cons_of_mem _ List.mem_cons_self
  · exact List.mem_cons_of_mem _ (List.mem_cons_of_mem _ List.mem_cons_self)

theorem judgedLog_inFlight (s : Scrubber) (key result : String) :
    inFlightPrs s.crates (judgedLog s key result) key = [] := by
  refine List.eq_nil_iff_forall_not_mem.mpr fun id hid => ?_
  have hother : ∀ kind ∈ [campaignOpenedKind, intentLandedKind, verdictRecordedKind], kind ∉ prLifecycleKinds := by
    decide
  rw [mem_inFlightPrs, phaseMap, foldl_phaseStep_of_kinds fun r hr => hother _ (judgedLog_kinds hr)] at hid
  simp at hid

theorem judgedLog_landings (hc : s.crates.Json) (key result : String) :
    ∃ r, Ledger.landings s.crates (judgedLog s key result).records =
      [(r, s.stored (intentLandedPayload ⟨"i", ""⟩ key))] := by
  refine ⟨s.landedRecord ⟨[EventLog.nextRecord s.crates [] campaignOpenedKind ["user:o"]
    (s.scrubToCanonical (openedPayload key)) 0]⟩ ⟨"i", ""⟩ ["campaign:" ++ key] 0, ?_⟩
  have hopened : ∀ records payload, (EventLog.nextRecord s.crates records campaignOpenedKind ["user:o"] payload
      0).landed s.crates = none := fun _ _ => if_neg (show ¬ campaignOpenedKind = intentLandedKind by decide)
  have hpanel : ∀ log args lenses, (s.panelRecord log args lenses).landed s.crates = none :=
    fun _ _ _ => if_neg (show ¬ verdictRecordedKind = intentLandedKind by decide)
  simp only [Ledger.landings, judgedLog, List.filterMap_cons, hopened, hpanel, landed_landedRecord hc,
    chainCampaign_singleton, Option.map_none, Option.map_some, List.filterMap_nil]

theorem judgedLog_verdicts (hc : s.crates.Json) (hi : redactText s.measures "i" = "i") (key result : String) :
    Ledger.verdictsFor s.crates (judgedLog s key result).records "i" =
      [s.storedVerdict (panelVerdict (panelOf ["style"] [result]) (panelOf ["style"] [result]).lensVerdicts)] := by
  have hopened : ∀ records payload, (EventLog.nextRecord s.crates records campaignOpenedKind ["user:o"] payload
      0).verdictObject s.crates = none := fun _ _ => if_neg (show ¬ campaignOpenedKind = verdictRecordedKind by decide)
  have hlanded : ∀ log chain, (s.landedRecord log ⟨"i", ""⟩ chain 0).verdictObject s.crates = none :=
    fun _ _ => if_neg (show ¬ intentLandedKind = verdictRecordedKind by decide)
  have hfor := storedPanel_intent hi ["style"] [result]
  simp only [Ledger.verdictsFor, Ledger.verdicts, judgedLog, List.filterMap_cons, hopened, hlanded,
    verdictObject_panelRecord hc, List.filterMap_nil]
  rw [List.filter_cons_of_pos (by simpa using hfor), List.filter_nil]

theorem storedLanding_fields (hi : structuralSecretScrub s.measures "i" = "i") (hne : key ≠ "")
    (hkey : structuralSecretScrub s.measures key = key) :
    Ledger.rawIntentId (s.stored (intentLandedPayload ⟨"i", ""⟩ key)) = "i" ∧
      Ledger.rawCampaign (s.stored (intentLandedPayload ⟨"i", ""⟩ key)) = key := by
  have hp := intentLandedPayload_printable ⟨"i", ""⟩ key
  rw [Ledger.rawIntentId, Ledger.rawCampaign, Scrubber.fieldStr_stored_address hp (by decide) (by decide),
    Scrubber.fieldStr_stored_address hp (by decide) (by decide), intentLandedPayload, if_neg hne]
  exact ⟨hi, hkey⟩

theorem judgedLog_opened (hc : s.crates.Json) (hkey : structuralSecretScrub s.measures key = key) (result : String) :
    campaignOpened s.crates (judgedLog s key result) key = true := by
  have hread : (s.stored (openedPayload key)).fieldStr "campaign" = some key := by
    rw [Scrubber.fieldStr_stored_address (openedPayload_printable key) (by decide) (by decide)]
    exact congrArg some hkey
  refine List.any_eq_true.mpr ⟨s.stored (openedPayload key), ?_, by simpa using hread⟩
  refine List.mem_filterMap.mpr ⟨_, List.mem_filter.mpr ⟨List.mem_cons_self, decide_eq_true rfl⟩, ?_⟩
  exact Scrubber.fromStr_scrubToCanonical hc (openedPayload_printable key)

theorem judgedLog_closed (s : Scrubber) (key result : String) :
    campaignClosed s.crates (judgedLog s key result) key = false := by
  have hnil : (judgedLog s key result).payloads s.crates campaignClosedKind = [] := by
    refine payloads_eq_nil fun r hr he => ?_
    have hkind := judgedLog_kinds hr
    rw [he] at hkind
    revert hkind
    decide
  rw [campaignClosed, hasCampaignRecord, hnil]
  rfl

theorem judgedPanel_claims {v : Verdict}
    (hclaim : redactText s.measures ("style:" ++ v.toStr) = "style:" ++ v.toStr) :
    (s.storedVerdict (panelVerdict (panelOf ["style"] [v.toStr])
      (panelOf ["style"] [v.toStr]).lensVerdicts)).claimsChecked = claimTexts [("style", v)] := by
  have hlenses : (panelOf ["style"] [v.toStr]).lensVerdicts = [("style", v)] := by
    cases v <;> decide +kernel
  rw [hlenses]
  show [s.storedItem "claims_checked" ("style:" ++ v.toStr)] = _
  rw [Scrubber.storedItem_freeText (by decide), hclaim]
  rfl

theorem judgedLog_claim (hc : s.crates.Json) (hi : redactText s.measures "i" = "i") {v : Verdict}
    (hclaim : redactText s.measures ("style:" ++ v.toStr) = "style:" ++ v.toStr) (key : String) :
    latestClaim s.crates (judgedLog s key v.toStr).records "i" "style" = some v := by
  rw [latestClaim, judgedLog_verdicts hc hi, List.flatMap_singleton, VerdictObject.claims,
    parsedClaims_claimTexts (judgedPanel_claims hclaim) (by simp), if_neg (by simp)]
  simp [lastWrite]

theorem judgedLog_seals (hc : s.crates.Json) (hkey : structuralSecretScrub s.measures key = key)
    (hrejected : (Ledger.fromRecords s.crates s.measures (judgedLog s key result).records).rejected key = 0) :
    s.Seals (fun _ _ _ => .ok none) (judgedLog s key result) ⟨key, false⟩ :=
  seals_iff.mpr ⟨judgedLog_closed s key result, none, admitClose_eq_ok.mpr
    ⟨judgedLog_opened hc hkey result, .inl (judgedLog_inFlight s key result), .inl hrejected, rfl⟩⟩

theorem judgedLog_entry (hc : s.crates.Json) (hid : structuralSecretScrub s.measures "i" = "i")
    (hi : redactText s.measures "i" = "i") (hne : key ≠ "") (hkey : structuralSecretScrub s.measures key = key)
    {e : Ledger.Entry} (he : e ∈ (Ledger.fromRecords s.crates s.measures (judgedLog s key result).records).entries) :
    e.campaign = redactText s.measures key ∧
      Ledger.Marked e ((s.storedVerdict (panelVerdict (panelOf ["style"] [result])
        (panelOf ["style"] [result]).lensVerdicts)).lensOutcomes[·]?) := by
  obtain ⟨r, hl⟩ := judgedLog_landings hc key result
  obtain ⟨hraw, hcampaign⟩ := storedLanding_fields hid hne hkey
  obtain ⟨i, he⟩ := List.mem_iff_getElem?.mp he
  obtain ⟨l, hget⟩ := Ledger.landing_of_entry he
  have hstored : l = (r, s.stored (intentLandedPayload ⟨"i", ""⟩ key)) := by
    rw [hl] at hget
    exact List.mem_singleton.mp (List.mem_of_getElem? hget)
  obtain ⟨e', he', hentry, hmarked⟩ := @Ledger.entry_of_landing s.crates s.measures _ i l hget
  obtain rfl := Option.some.inj (he'.symm.trans he)
  rw [Ledger.linkedVerdicts_of_last hget (Ledger.lastLanded_of_nodup (by rw [hl]; simp) hget), hstored, hraw,
    judgedLog_verdicts hc hi] at hmarked
  refine ⟨(congrArg Ledger.Entry.campaign hentry).trans ?_, ?_⟩
  · rw [hstored, Ledger.landedEntry, hcampaign]
  · simpa only [funext (Ledger.lensOutcome_singleton _)] using hmarked

end Scenarios

/-- A key that reads like a digest, and so is shown redacted. -/
def hexKey : String := "0123456789abcdef0123456789abcdef01234567"

/-- A campaign under such a key is sealed over an intent that was rejected. -/
theorem sealed_over_rejected :
    validateIdentifier plainScrubber.measures hexKey "--campaign" = .ok () ∧
      ∃ log, verifyChain plainScrubber.crates log.records = .ok () ∧
        plainScrubber.Seals (fun _ _ _ => .ok none) log ⟨hexKey, false⟩ ∧
        ∃ l ∈ Ledger.landings plainScrubber.crates log.records, Ledger.rawCampaign l.2 = hexKey ∧
          latestClaim plainScrubber.crates log.records (Ledger.rawIntentId l.2) "style" = some .reject := by
  have hid : structuralSecretScrub plainScrubber.measures "i" = "i" := by decide +kernel
  have hi : redactText plainScrubber.measures "i" = "i" := by decide +kernel
  have hkey : structuralSecretScrub plainScrubber.measures hexKey = hexKey := by decide +kernel
  have hshown : redactText plainScrubber.measures hexKey ≠ hexKey := by decide +kernel
  obtain ⟨r, hl⟩ := judgedLog_landings plainScrubber_json hexKey Verdict.reject.toStr
  obtain ⟨hraw, hcampaign⟩ := storedLanding_fields hid (show hexKey ≠ "" by decide) hkey
  refine ⟨?_, judgedLog plainScrubber hexKey Verdict.reject.toStr, judgedLog_verifies _ _ _,
    judgedLog_seals plainScrubber_json hkey ?_, _, hl ▸ List.mem_singleton_self _, hcampaign, ?_⟩
  · have htrim : String.ofList (trim hexKey.toList) = hexKey := by decide +kernel
    simp only [validateIdentifier, htrim]
    rw [if_neg (by decide), if_neg (not_not.mpr hkey)]
  · -- the ledger shows the intent under the redacted key
    refine List.length_eq_zero_iff.mpr (List.filter_eq_nil_iff.mpr fun e he => ?_)
    obtain ⟨he, hcounted⟩ := List.mem_filter.mp he
    exact absurd ((judgedLog_entry plainScrubber_json hid hi (by decide) hkey he).1.symm.trans
      (of_decide_eq_true hcounted)) hshown
  · rw [hraw]
    exact judgedLog_claim plainScrubber_json hi (by decide +kernel) hexKey

/-- Under a plain key the seal keeps its promise. -/
theorem plain_seal_clean : ∃ log, plainScrubber.Seals (fun _ _ _ => .ok none) log ⟨"c", false⟩ ∧
    ∃ l ∈ Ledger.landings plainScrubber.crates log.records, Ledger.rawCampaign l.2 = "c" ∧
      ¬ RejectedIn plainScrubber.crates log.records (Ledger.rawIntentId l.2) := by
  have hid : structuralSecretScrub plainScrubber.measures "i" = "i" := by decide +kernel
  have hi : redactText plainScrubber.measures "i" = "i" := by decide +kernel
  have hkey : structuralSecretScrub plainScrubber.measures "c" = "c" := by decide +kernel
  have hshown : redactText plainScrubber.measures "c" = "c" := by decide +kernel
  obtain ⟨r, hl⟩ := judgedLog_landings plainScrubber_json "c" Verdict.approve.toStr
  obtain ⟨-, hcampaign⟩ := storedLanding_fields hid (show "c" ≠ "" by decide) hkey
  have hmem : (r, plainScrubber.stored (intentLandedPayload ⟨"i", ""⟩ "c")) ∈
      Ledger.landings plainScrubber.crates (judgedLog plainScrubber "c" Verdict.approve.toStr).records := by
    rw [hl]
    exact List.mem_singleton_self _
  have hseals : plainScrubber.Seals (fun _ _ _ => .ok none) (judgedLog plainScrubber "c" Verdict.approve.toStr)
      ⟨"c", false⟩ := by
    refine judgedLog_seals plainScrubber_json hkey
      (List.length_eq_zero_iff.mpr (List.filter_eq_nil_iff.mpr fun e he hrejected => ?_))
    obtain ⟨-, hmarked⟩ := judgedLog_entry plainScrubber_json hid hi (by decide) hkey (List.mem_filter.mp he).1
    obtain ⟨lens, v, hv, hne⟩ := hmarked.rejected.mp hrejected
    rw [lensOutcomes_claimTexts (judgedPanel_claims (by decide +kernel)) (by simp) (by simp) (by simp)] at hv
    obtain ⟨-, rfl⟩ := Prod.mk.inj (List.mem_singleton.mp (mem_of_lastWrite hv))
    exact hne rfl
  refine ⟨_, hseals, _, hmem, hcampaign, ((seal_clean_iff hseals).mpr fun l hl' _ _ => ?_).1 _ hmem hcampaign⟩
  rw [hl] at hl'
  obtain rfl := List.mem_singleton.mp hl'
  have hget := congrArg (·[0]?) hl
  refine ⟨0, _, Ledger.lastLanded_of_nodup (by rw [hl]; simp) hget, hget, ?_⟩
  rw [hcampaign, hshown]

end Hugit
