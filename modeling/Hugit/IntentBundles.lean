import Hugit.ImportRuns
import Hugit.IntentLanding
import Hugit.QueueOrder

/-! Landed intents as the content of a PR. The id of an intent is scrubbed as an address
when it lands, and as free text when a PR names it. -/

namespace Hugit

section Landed

variable {c : Crates} {log : EventLog} {rs : List EventRecord} {id : String}

theorem intentLandedOnLog_append : intentLandedOnLog c ⟨log.records ++ rs⟩ id =
    (intentLandedOnLog c log id || intentLandedOnLog c ⟨rs⟩ id) := by
  rw [intentLandedOnLog, payloads_append, List.any_append]
  rfl

theorem intentLandedOnLog_of_alreadyLanded (h : alreadyLanded c log id = true) :
    intentLandedOnLog c log id = true := by
  obtain ⟨r, hr, hid⟩ := List.any_eq_true.mp h
  obtain ⟨hkind, hid⟩ := Bool.and_eq_true_iff.mp hid
  cases hv : c.fromStr r.payload with
  | none => simp [hv] at hid
  | some v =>
    refine List.any_eq_true.mpr ⟨v, List.mem_filterMap.mpr ⟨r, ?_, hv⟩, ?_⟩
    · exact List.mem_filter.mpr ⟨hr, decide_eq_true (beq_iff_eq.mp hkind)⟩
    · cases hf : v.fieldStr "intent_id" with
      | none => simp [hv, hf] at hid
      | some text => simpa [hv, hf] using hid

theorem intentLandedOnLog_of_landedById (h : landedById c log id = true) : intentLandedOnLog c log id = true := by
  rw [landedById, intentsFromRecords] at h
  cases hparse : parseIntents c log.records with
  | error e => simp [hparse, Except.map] at h
  | ok intents =>
    simp only [hparse, Except.map, List.any_eq_true, decide_eq_true_eq] at h
    exact intentLandedOnLog_of_alreadyLanded ((alreadyLanded_iff hparse id).mpr (List.mem_map.mpr h))

theorem hasKind_of_intentLandedOnLog (h : intentLandedOnLog c log id = true) :
    log.hasKind intentLandedKind = true := by
  obtain ⟨v, hv, -⟩ := List.any_eq_true.mp h
  obtain ⟨r, hr, -⟩ := List.mem_filterMap.mp hv
  obtain ⟨hr, hkind⟩ := List.mem_filter.mp hr
  exact List.any_eq_true.mpr ⟨r, hr, hkind⟩

end Landed

section Bundled

variable {s : Scrubber} {log log' : EventLog} {sidecar : IntentSidecar} {principalChain : List String}
  {recordedAt : Nat}

theorem landIntent_eq_ok (h : s.landIntent log sidecar principalChain recordedAt = (.ok (), log')) :
    log' = log ∧ landedById s.crates log sidecar.intentId = true ∨
      log' = ⟨log.records ++ [s.landedRecord log sidecar principalChain recordedAt]⟩ := by
  rcases @landIntent_cases s log sidecar principalChain recordedAt with ⟨hsame, hlanded⟩ | ⟨he, -⟩
  · rw [h] at hsame hlanded
    exact .inl ⟨hsame, hlanded rfl⟩
  · exact .inr (Prod.mk.inj (h.symm.trans he)).2

theorem intentLandedOnLog_landedRecord (hc : s.crates.Json) (id : String) :
    intentLandedOnLog s.crates ⟨[s.landedRecord log sidecar principalChain recordedAt]⟩ id = true ↔
      structuralSecretScrub s.measures sidecar.intentId = id := by
  have hp := intentLandedPayload_printable sidecar (chainCampaign principalChain)
  have hread : s.crates.fromStr (s.landedRecord log sidecar principalChain recordedAt).payload =
      some (s.stored (intentLandedPayload sidecar (chainCampaign principalChain))) :=
    Scrubber.fromStr_scrubToCanonical hc hp
  have hkind : (s.landedRecord log sidecar principalChain recordedAt).kind = intentLandedKind := rfl
  have hid : (s.stored (intentLandedPayload sidecar (chainCampaign principalChain))).fieldStr "intent_id" =
      some (structuralSecretScrub s.measures sidecar.intentId) := by
    rw [Scrubber.fieldStr_stored_address hp (by decide) (by decide)]
    rfl
  simp [intentLandedOnLog, EventLog.payloads, hkind, hread, hid]

theorem intentLandedOnLog_landIntent (hc : s.crates.Json)
    (h : s.landIntent log sidecar principalChain recordedAt = (.ok (), log')) :
    log'.hasKind intentLandedKind = true ∧ (intentLandedOnLog s.crates log' sidecar.intentId = true ↔
      structuralSecretScrub s.measures sidecar.intentId = sidecar.intentId ∨
        intentLandedOnLog s.crates log sidecar.intentId = true) := by
  rcases landIntent_eq_ok h with ⟨rfl, hlanded⟩ | rfl
  · have hon := intentLandedOnLog_of_landedById hlanded
    exact ⟨hasKind_of_intentLandedOnLog hon, iff_of_true hon (.inr hon)⟩
  · refine ⟨by simp [EventLog.hasKind, Scrubber.landedRecord, EventLog.nextRecord], ?_⟩
    rw [intentLandedOnLog_append, Bool.or_eq_true, intentLandedOnLog_landedRecord hc, or_comm]

end Bundled

section Opening

variable {s : Scrubber} {log log' : EventLog} {args : OpenArgs} {id : String}

/-- The call does not refuse the intent as missing, and the PR under its id then
lists this intent alone. -/
structure Scrubber.Bundles (s : Scrubber) (log : EventLog) (args : OpenArgs) (id : String) : Prop where
  known : ∀ prId missing, (s.openPr log args).1 ≠ .error (.missingIntents prId missing)
  listed : ∀ v, (s.openPr log args).1 = .ok v → ∃ o,
    findPrOpened s.crates (s.openPr log args).2 (structuralSecretScrub s.measures args.prId) = some o ∧
      o.intentIds = [id]

theorem openPr_of_opened {existing : OpenedPr}
    (h : findPrOpened s.crates log (structuralSecretScrub s.measures args.prId) = some existing) :
    s.openPr log args =
      if existing.campaign ≠ structuralSecretScrub s.measures args.campaign then
        (.error (.campaignMismatch (structuralSecretScrub s.measures args.prId) existing.campaign
          (structuralSecretScrub s.measures args.campaign)), log)
      else (.ok (existing.openJson true), log) := by
  unfold Scrubber.openPr
  dsimp only [Scrubber.scrubOpenArgs]
  simp only [h]

theorem openPr_of_refused {e : PrError}
    (hnew : findPrOpened s.crates log (structuralSecretScrub s.measures args.prId) = none)
    (h : validateOpen s.crates log (s.scrubOpenArgs args) = .error e) : s.openPr log args = (.error e, log) := by
  have hnone : findPrOpened s.crates log (s.scrubOpenArgs args).prId = none := hnew
  unfold Scrubber.openPr
  simp only [hnone, h]

theorem findPrOpened_of_opening {r : EventRecord} (h : Opening s log args r) :
    findPrOpened s.crates ⟨log.records ++ [r]⟩ (structuralSecretScrub s.measures args.prId) =
      some (args.opened s.measures r.seq) := by
  have hone : openedPrs s.crates ⟨[r]⟩ = [args.opened s.measures r.seq] := by
    simp [openedPrs, h.kind, h.parsed]
  have hall := @openedPrs_append s.crates log [r]
  rw [hone] at hall
  rw [findPrOpened]
  unfold openedPrs at hall
  rw [hall, List.reverse_append]
  exact List.find?_cons_of_pos (by simp [OpenArgs.opened])

theorem openPr_of_valid (hc : s.crates.Json)
    (hnew : findPrOpened s.crates log (structuralSecretScrub s.measures args.prId) = none)
    (h : validateOpen s.crates log (s.scrubOpenArgs args) = .ok ()) :
    ∃ v seq, (s.openPr log args).1 = .ok v ∧
      findPrOpened s.crates (s.openPr log args).2 (structuralSecretScrub s.measures args.prId) =
        some (args.opened s.measures seq) := by
  obtain ⟨r, hr⟩ : ∃ r, EventLog.nextRecord s.crates log.records prOpenedKind
      (authorPrincipalChain (s.scrubOpenArgs args).authorKind (s.scrubOpenArgs args).runId
        (s.scrubOpenArgs args).principal) (s.canonicalOpenPayload (s.scrubOpenArgs args))
      (s.scrubOpenArgs args).recordedAt = r := ⟨_, rfl⟩
  have hopening : Opening s log args r := by
    rw [← hr]
    exact ⟨rfl, hnew, Scrubber.parseOpened_canonicalOpenPayload hc args rfl⟩
  have hfound : findPrOpened s.crates ⟨log.records ++ [r]⟩ (s.scrubOpenArgs args).prId =
      some (args.opened s.measures r.seq) := findPrOpened_of_opening hopening
  have hnone : findPrOpened s.crates log (s.scrubOpenArgs args).prId = none := hnew
  unfold Scrubber.openPr
  simp only [hnone, h, Scrubber.appendAsAuthor_eq, hr, hfound]
  exact ⟨_, _, rfl, hfound⟩

/-- Of the checks that an opening goes through, the one for intents. -/
theorem validateOpen_eq (hids : args.intentIds = [id]) (hkind : log.hasKind intentLandedKind = true)
    (hbinding : validateAuthorBinding args.authorKind (s.scrubOpenArgs args).runId (s.scrubOpenArgs args).principal =
      .ok ())
    (hcampaign : validateCampaign s.crates log (s.scrubOpenArgs args).prId (s.scrubOpenArgs args).campaign = .ok ()) :
    validateOpen s.crates log (s.scrubOpenArgs args) =
      if intentLandedOnLog s.crates log (redactText s.measures id) = true then
        validateCommits s.crates log (s.scrubOpenArgs args)
      else .error (.missingIntents (s.scrubOpenArgs args).prId [redactText s.measures id]) := by
  have hscrubbed : (s.scrubOpenArgs args).intentIds = [redactText s.measures id] := by
    rw [Scrubber.scrubOpenArgs, hids]
    rfl
  have hintents : validateIntents s.crates log (s.scrubOpenArgs args) =
      if intentLandedOnLog s.crates log (redactText s.measures id) = true then .ok ()
      else .error (.missingIntents (s.scrubOpenArgs args).prId [redactText s.measures id]) := by
    rw [validateIntents, hkind, hscrubbed]
    by_cases hon : intentLandedOnLog s.crates log (redactText s.measures id) = true <;> simp [hon]
  rw [validateOpen, show (s.scrubOpenArgs args).authorKind = args.authorKind from rfl, hbinding, hcampaign, hintents]
  split_ifs <;> rfl

theorem validateCommits_ne_missingIntents (log : EventLog) (args : OpenArgs) (prId : String) (missing : List String) :
    validateCommits s.crates log args ≠ .error (.missingIntents prId missing) := by
  rw [validateCommits]
  split_ifs <;> nofun

theorem bundles_of_opened {existing : OpenedPr}
    (h : findPrOpened s.crates log (structuralSecretScrub s.measures args.prId) = some existing) :
    s.Bundles log args id ↔
      (existing.campaign = structuralSecretScrub s.measures args.campaign → existing.intentIds = [id]) := by
  have hopen := openPr_of_opened h
  constructor
  · intro hb hsame
    rw [if_neg (not_not.mpr hsame)] at hopen
    obtain ⟨o, ho, hids⟩ := hb.listed _ (by rw [hopen])
    rw [hopen, h] at ho
    rwa [Option.some.inj ho]
  · intro hlisted
    split_ifs at hopen with hother
    · exact ⟨fun _ _ => by rw [hopen]; nofun, fun v => by rw [hopen]; nofun⟩
    · refine ⟨fun _ _ => by rw [hopen]; nofun, fun v _ => ⟨existing, by rw [hopen, h], ?_⟩⟩
      exact hlisted (not_not.mp hother)

theorem bundles_of_new (hc : s.crates.Json) (hids : args.intentIds = [id])
    (hnew : findPrOpened s.crates log (structuralSecretScrub s.measures args.prId) = none)
    (hkind : log.hasKind intentLandedKind = true)
    (hbinding : validateAuthorBinding args.authorKind (s.scrubOpenArgs args).runId (s.scrubOpenArgs args).principal =
      .ok ())
    (hcampaign : validateCampaign s.crates log (s.scrubOpenArgs args).prId (s.scrubOpenArgs args).campaign = .ok ()) :
    s.Bundles log args id ↔ intentLandedOnLog s.crates log (redactText s.measures id) = true ∧
      (validateCommits s.crates log (s.scrubOpenArgs args) = .ok () → redactText s.measures id = id) := by
  have hvalid := validateOpen_eq hids hkind hbinding hcampaign
  by_cases hon : intentLandedOnLog s.crates log (redactText s.measures id) = true
  · rw [if_pos hon] at hvalid
    rw [and_iff_right hon]
    cases hcommits : validateCommits s.crates log (s.scrubOpenArgs args) with
    | error e =>
      have hopen := openPr_of_refused hnew (hvalid.trans hcommits)
      refine iff_of_true ⟨fun prId missing hmissing => ?_, fun v hv => ?_⟩ fun hv => ?_
      · rw [hopen] at hmissing
        refine validateCommits_ne_missingIntents _ _ prId missing (hcommits.trans ?_)
        rw [Except.error.inj hmissing]
      · rw [hopen] at hv
        cases hv
      · cases hv
    | ok _ =>
      obtain ⟨v, seq, hok, hfound⟩ := openPr_of_valid hc hnew (hvalid.trans hcommits)
      have hopened : (args.opened s.measures seq).intentIds = [redactText s.measures id] := by
        rw [OpenArgs.opened, hids]
        rfl
      constructor
      · intro hb _
        obtain ⟨o, ho, hlisted⟩ := hb.listed v hok
        rw [hfound] at ho
        rw [← Option.some.inj ho, hopened] at hlisted
        exact List.singleton_inj.mp hlisted
      · intro hfix
        refine ⟨fun _ _ he => ?_, fun _ _ => ⟨_, hfound, by rw [hopened, hfix rfl]⟩⟩
        rw [hok] at he
        cases he
  · rw [if_neg hon] at hvalid
    refine iff_of_false (fun hb => ?_) fun h => hon h.1
    exact hb.known _ _ (by rw [openPr_of_refused hnew hvalid])

end Opening

section Bundled

variable {s : Scrubber} {log log' : EventLog} {sidecar : IntentSidecar} {principalChain : List String}
  {recordedAt : Nat} {args : OpenArgs}

/-- Which openings that name a landed intent bundle it. For a new PR, free text must
keep the id, and a record must name it as it is. The last case records nothing: the
redacted id has landed too, and the commits are refused. -/
theorem landed_intent_bundled_iff (hc : s.crates.Json)
    (hland : s.landIntent log sidecar principalChain recordedAt = (.ok (), log')) (later : List EventRecord)
    (hids : args.intentIds = [sidecar.intentId])
    (hbinding : validateAuthorBinding args.authorKind (s.scrubOpenArgs args).runId (s.scrubOpenArgs args).principal =
      .ok ())
    (hcampaign : validateCampaign s.crates ⟨log'.records ++ later⟩ (s.scrubOpenArgs args).prId
      (s.scrubOpenArgs args).campaign = .ok ()) :
    s.Bundles ⟨log'.records ++ later⟩ args sidecar.intentId ↔
      (∀ existing, findPrOpened s.crates ⟨log'.records ++ later⟩ (structuralSecretScrub s.measures args.prId) =
          some existing → existing.campaign = structuralSecretScrub s.measures args.campaign →
        existing.intentIds = [sidecar.intentId]) ∧
      (findPrOpened s.crates ⟨log'.records ++ later⟩ (structuralSecretScrub s.measures args.prId) = none →
        redactText s.measures sidecar.intentId = sidecar.intentId ∧
            (structuralSecretScrub s.measures sidecar.intentId = sidecar.intentId ∨
              intentLandedOnLog s.crates log sidecar.intentId = true ∨
              intentLandedOnLog s.crates ⟨later⟩ sidecar.intentId = true) ∨
          redactText s.measures sidecar.intentId ≠ sidecar.intentId ∧
            intentLandedOnLog s.crates ⟨log'.records ++ later⟩ (redactText s.measures sidecar.intentId) = true ∧
            validateCommits s.crates ⟨log'.records ++ later⟩ (s.scrubOpenArgs args) ≠ .ok ()) := by
  obtain ⟨hkind, hon⟩ := intentLandedOnLog_landIntent hc hland
  have hlater : intentLandedOnLog s.crates ⟨log'.records ++ later⟩ sidecar.intentId = true ↔
      structuralSecretScrub s.measures sidecar.intentId = sidecar.intentId ∨
        intentLandedOnLog s.crates log sidecar.intentId = true ∨
        intentLandedOnLog s.crates ⟨later⟩ sidecar.intentId = true := by
    rw [intentLandedOnLog_append, Bool.or_eq_true, hon, or_assoc]
  cases hfind : findPrOpened s.crates ⟨log'.records ++ later⟩ (structuralSecretScrub s.measures args.prId) with
  | some existing =>
    rw [bundles_of_opened hfind]
    simp
  | none =>
    have hkept : EventLog.hasKind ⟨log'.records ++ later⟩ intentLandedKind = true := by
      rw [EventLog.hasKind, List.any_append, Bool.or_eq_true]
      exact .inl hkind
    rw [bundles_of_new hc hids hfind hkept hbinding hcampaign]
    by_cases hfix : redactText s.measures sidecar.intentId = sidecar.intentId
    · simp [hfix, hlater]
    · simp [hfix]

theorem landIntent_empty (s : Scrubber) (sidecar : IntentSidecar) (h : sidecar.intentId ≠ "") :
    s.landIntent ⟨[]⟩ sidecar [] 0 = (.ok (), ⟨[s.landedRecord ⟨[]⟩ sidecar [] 0]⟩) := by
  have hcampaign : chainCampaign [] = "" := by decide
  have hnew : landedById s.crates ⟨[]⟩ sidecar.intentId = false := by
    simp [landedById, intentsFromRecords, parseIntents, Except.map]
  simp only [Scrubber.landIntent, hcampaign, if_true, hnew, Bool.false_eq_true, if_false,
    Scrubber.importSidecarAuthorized, if_neg h]
  rfl

def opensIntent (id : String) : OpenArgs :=
  { humanOpens "a" with intentIds := [id] }

theorem findPrOpened_landedRecord (s : Scrubber) (sidecar : IntentSidecar) (prId : String) :
    findPrOpened s.crates ⟨[s.landedRecord ⟨[]⟩ sidecar [] 0] ++ []⟩ prId = none := by
  refine findPrOpened_eq_none.mpr fun o ho => ?_
  have hkind : ∀ r ∈ [s.landedRecord ⟨[]⟩ sidecar [] 0] ++ [], r.kind ≠ prOpenedKind := by
    intro r hr
    rw [List.mem_singleton.mp hr]
    exact show intentLandedKind ≠ prOpenedKind by decide
  rw [openedPrs_eq_nil hkind] at ho
  cases ho

theorem plain_intent_bundled :
    plainScrubber.landIntent ⟨[]⟩ ⟨"i", "why"⟩ [] 0 =
        (.ok (), ⟨[plainScrubber.landedRecord ⟨[]⟩ ⟨"i", "why"⟩ [] 0]⟩) ∧
      plainScrubber.Bundles ⟨[plainScrubber.landedRecord ⟨[]⟩ ⟨"i", "why"⟩ [] 0] ++ []⟩ (opensIntent "i") "i" := by
  have hland := landIntent_empty plainScrubber ⟨"i", "why"⟩ (by decide)
  have hnone := findPrOpened_landedRecord plainScrubber ⟨"i", "why"⟩
  refine ⟨hland, (landed_intent_bundled_iff plainScrubber_json hland [] rfl (by decide +kernel) rfl).mpr
    ⟨?_, fun _ => ?_⟩⟩
  · intro existing hsome
    rw [hnone] at hsome
    cases hsome
  · exact .inl ⟨by decide +kernel, .inl (by decide +kernel)⟩

theorem openPr_after_landing (hc : s.crates.Json) (sidecar : IntentSidecar)
    (hbinding : validateAuthorBinding .human none (some (structuralSecretScrub s.measures "ada")) = .ok ())
    (hne : structuralSecretScrub s.measures sidecar.intentId ≠ redactText s.measures sidecar.intentId) :
    s.openPr ⟨[s.landedRecord ⟨[]⟩ sidecar [] 0]⟩ (opensIntent sidecar.intentId) =
      (.error (.missingIntents (structuralSecretScrub s.measures "a") [redactText s.measures sidecar.intentId]),
        ⟨[s.landedRecord ⟨[]⟩ sidecar [] 0]⟩) := by
  refine openPr_of_refused (findPrOpened_landedRecord s sidecar _) ?_
  rw [validateOpen_eq rfl rfl hbinding rfl, if_neg (mt (intentLandedOnLog_landedRecord hc _).mp hne)]
  simp only [Scrubber.scrubOpenArgs, opensIntent, humanOpens]

/-- A landed id of forty hex digits is an address that a PR cannot name. -/
theorem digest_intent_missing :
    plainScrubber.landIntent ⟨[]⟩ ⟨"da39a3ee5e6b4b0d3255bfef95601890afd80709", "why"⟩ [] 0 =
        (.ok (), ⟨[plainScrubber.landedRecord ⟨[]⟩ ⟨"da39a3ee5e6b4b0d3255bfef95601890afd80709", "why"⟩ [] 0]⟩) ∧
      plainScrubber.openPr
          ⟨[plainScrubber.landedRecord ⟨[]⟩ ⟨"da39a3ee5e6b4b0d3255bfef95601890afd80709", "why"⟩ [] 0]⟩
          (opensIntent "da39a3ee5e6b4b0d3255bfef95601890afd80709") =
        (.error (.missingIntents "a" [redactedMarker]),
          ⟨[plainScrubber.landedRecord ⟨[]⟩ ⟨"da39a3ee5e6b4b0d3255bfef95601890afd80709", "why"⟩ [] 0]⟩) := by
  have hredacted := redactText_of_bareHexDigest plainScrubber.measures
    (show isBareHexDigestShape "da39a3ee5e6b4b0d3255bfef95601890afd80709".toList = true by decide +kernel)
  have hkept : structuralSecretScrub plainScrubber.measures "da39a3ee5e6b4b0d3255bfef95601890afd80709" ≠
      redactedMarker := by decide +kernel
  have hopen := openPr_after_landing plainScrubber_json ⟨"da39a3ee5e6b4b0d3255bfef95601890afd80709", "why"⟩
    (by decide +kernel) (by rw [hredacted]; exact hkept)
  rw [hredacted, plainScrubber_letters "a" (by simp)] at hopen
  exact ⟨landIntent_empty plainScrubber _ (by decide), hopen⟩

end Bundled

end Hugit
