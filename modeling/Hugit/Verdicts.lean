import Hugit.Fallible
import Hugit.Ledger
import Hugit.SealGuard

/-! The verb that records the verdict of a review panel: one record for the panel,
with the results of its lenses as texts `lens:result`. -/

namespace Hugit

open Std

structure VerdictRecordArgs where
  intent : String
  log : String
  store : Bool
  lens : List String
  result : List String
  treeHash : String
  recordedAt : Nat

def parseVerdict (text : String) : Option Verdict :=
  match String.ofList (toAsciiLowercase text.toList) with
  | "approve" => some .approve
  | "fix_first" => some .fixFirst
  | "reject" => some .reject
  | _ => none

def Verdict.toStr : Verdict → String
  | approve => "approve"
  | fixFirst => "fix_first"
  | reject => "reject"

def aggregateVerdict (lensVerdicts : List (String × Verdict)) : Verdict :=
  if lensVerdicts.all (·.2 = .approve) then .approve else .reject

def parseLensVerdicts : List (String × String) → Except PorcelainError (List (String × Verdict))
  | [] => .ok []
  | (name, raw) :: rest => do
    let v ← okOr (parseVerdict raw) ⟨"invalid_result", "--result '" ++ raw ++ "' is not a valid verdict outcome " ++
      "(expected approve, fix_first, or reject)", "pass --result approve, --result fix_first, or --result reject",
      [("got", .string raw)]⟩
    return (name, v) :: (← parseLensVerdicts rest)

/-- A lens may be given twice only with the same result. -/
def rejectConflicts (m : Measures) : LensMap → List (String × Verdict) → Except PorcelainError Unit
  | _, [] => .ok ()
  | seen, (name, v) :: rest =>
    if seen[name]?.any (· ≠ v) then
      let safeLens := redactText m name
      .error ⟨"duplicate_lens", "lens '" ++ safeLens ++ "' appears more than once in this call with conflicting " ++
        "--result values: a single verdict cannot both reject and approve the same lens",
        "pass each --lens at most once per call (or repeat it with the same --result); to revise a prior verdict, " ++
        "record it in a later call", [("lens", .string safeLens)]⟩
    else rejectConflicts m (seen.insert name v) rest

/-- The empty hash stands for a tree that is not known. -/
def validateTreeHash (m : Measures) (treeHash : String) : Except PorcelainError Unit :=
  if trim treeHash.toList = [] then .ok () else validateIdentifier m treeHash "--tree-hash"

def lensVerdictsOf (m : Measures) (args : VerdictRecordArgs) : Except PorcelainError (List (String × Verdict)) :=
  if args.lens = [] then
    .error ⟨"missing_lens", "at least one --lens <name> --result <outcome> pair is required",
      "pass e.g. --lens security --result approve (repeatable)", []⟩
  else if args.lens.length ≠ args.result.length then
    .error ⟨"lens_result_mismatch", decimal args.lens.length ++ " --lens flags but " ++ decimal args.result.length ++
      " --result flags: they must pair 1:1", "pass one --result per --lens, in the same order",
      [("lens_count", .number (.posInt args.lens.length)), ("result_count", .number (.posInt args.result.length))]⟩
  else do
    validateTreeHash m args.treeHash
    let lensVerdicts ← parseLensVerdicts (args.lens.zip args.result)
    rejectConflicts m ∅ lensVerdicts
    return lensVerdicts

def claimTexts (lensVerdicts : List (String × Verdict)) : List String :=
  lensVerdicts.map fun p => p.1 ++ ":" ++ p.2.toStr

def lensJson (lens result : String) : Value :=
  .object [("lens", .string lens), ("result", .string result)]

section Lookups

variable (c : Crates) (log : EventLog) (intent : String)

def findExistingVerdict (lensVerdicts : List (String × Verdict)) : Option (List Value × Value) :=
  match (Ledger.verdicts c log.records).reverse.find? (·.intent = intent) with
  | none => none
  | some latest =>
    if latest.claimsChecked ≠ claimTexts lensVerdicts then none
    else some ((latest.claimsChecked.filterMap splitClaim).map fun p => lensJson p.1 p.2,
      .string latest.verdict.toStr)

def campaignForIntent : Option String :=
  ((log.payloads c intentLandedKind).filter fun v => v.fieldStr "intent_id" = some intent).findSome? fun v =>
    v.fieldStr "campaign"

end Lookups

def verdictAnswer (recorded stored : Bool) (already : Option Bool) (intent : String) (lenses : List Value)
    (aggregate : Value) : Value :=
  .object ([("verdict_recorded", .bool recorded)] ++ (already.map fun b => ("already_recorded", .bool b)).toList ++
    [("stored", .bool stored), ("intent", .string intent), ("lenses", .array lenses), ("aggregate", aggregate)])

def panelVerdict (args : VerdictRecordArgs) (lensVerdicts : List (String × Verdict)) : VerdictObject where
  intent := args.intent
  treeHash := args.treeHash
  lens := "panel"
  model := "porcelain"
  promptDigest := String.ofList (List.replicate 64 '0')
  verdict := aggregateVerdict lensVerdicts
  claimsChecked := claimTexts lensVerdicts
  evidenceRefs := []

namespace Scrubber

variable (s : Scrubber)

def guardVerdict (log : EventLog) (args : VerdictRecordArgs) : Except PorcelainError Unit :=
  let safeIntent := redactText s.measures args.intent
  if log.hasKind intentLandedKind && !intentLandedOnLog s.crates log args.intent then
    .error ⟨"intent_not_found", "no intent.landed record for intent '" ++ safeIntent ++ "' on the log: cannot " ++
      "record a verdict for a nonexistent intent",
      "run `hugit intent new --log <path> --id <id> …` first, or check the --intent id is spelled correctly",
      [("intent", .string safeIntent), ("log", .string args.log)]⟩
  else
    match campaignForIntent s.crates log args.intent with
    | none => .ok ()
    | some key =>
      (guardNotSealed s.crates log key).mapError fun v =>
        ⟨v.kind, v.message, v.fix, [("intent", .string safeIntent),
          ("campaign", .string (redactText s.measures v.campaign)), ("log", .string args.log)]⟩

def panelPayload (args : VerdictRecordArgs) (lensVerdicts : List (String × Verdict)) : String :=
  s.scrubToCanonical (VerdictObject.serde.toValue (panelVerdict args lensVerdicts))

def recordVerdict (log : EventLog) (args : VerdictRecordArgs) : Except PorcelainError Value × EventLog :=
  match lensVerdictsOf s.measures args with
  | .error e => (.error e, log)
  | .ok lensVerdicts =>
    let lenses := lensVerdicts.map fun p => lensJson p.1 p.2.toStr
    let aggregate := Value.string (aggregateVerdict lensVerdicts).toStr
    if args.store = false then (.ok (verdictAnswer false false none args.intent lenses aggregate), log)
    else
      match s.guardVerdict log args with
      | .error e => (.error e, log)
      | .ok () =>
        match findExistingVerdict s.crates log args.intent lensVerdicts with
        | some existing => (.ok (verdictAnswer true true (some true) args.intent existing.1 existing.2), log)
        | none =>
          match log.appendAuthorized s.crates .orchestrator .land verdictRecordedKind
              ["orchestrator:verdict-recorder"] (s.panelPayload args lensVerdicts) args.recordedAt with
          | (.error denied, _) =>
            (.error ⟨"authz_denied", "verdict.recorded append denied by D14 guard: " ++ denied.reason.code,
              "verdict recording requires the orchestrator principal class", []⟩, log)
          | (.ok _, log') => (.ok (verdictAnswer true true (some false) args.intent lenses aggregate), log')

def storedVerdict (vo : VerdictObject) : VerdictObject where
  intent := s.storedText "intent" vo.intent
  treeHash := s.storedText "tree_hash" vo.treeHash
  lens := s.storedText "lens" vo.lens
  model := s.storedText "model" vo.model
  promptDigest := s.storedText "prompt_digest" vo.promptDigest
  verdict := vo.verdict
  claimsChecked := vo.claimsChecked.map (s.storedItem "claims_checked")
  evidenceRefs := vo.evidenceRefs.map (s.storedItem "evidence_refs")

end Scrubber

section Parsing

variable {m : Measures}

def VerdictRecordArgs.lensVerdicts (args : VerdictRecordArgs) : List (String × Verdict) :=
  (args.lens.zip args.result).filterMap fun p => (parseVerdict p.2).map (p.1, ·)

variable {lensVerdicts : List (String × Verdict)}

theorem parseLensVerdicts_eq_ok {pairs : List (String × String)} (h : parseLensVerdicts pairs = .ok lensVerdicts) :
    lensVerdicts = pairs.filterMap (fun p => (parseVerdict p.2).map (p.1, ·)) ∧
      lensVerdicts.length = pairs.length := by
  induction pairs generalizing lensVerdicts with
  | nil =>
    cases h
    exact ⟨rfl, rfl⟩
  | cons p pairs ih =>
    obtain ⟨name, raw⟩ := p
    rw [parseLensVerdicts] at h
    obtain ⟨v, hv, h⟩ := bind_eq_ok.mp h
    obtain ⟨rest, hrest, h⟩ := bind_eq_ok.mp h
    obtain rfl := pure_eq_ok.mp h
    obtain ⟨hr, hl⟩ := ih hrest
    rw [List.filterMap_cons_some (by rw [okOr_eq_ok.mp hv]; rfl), ← hr]
    exact ⟨rfl, congrArg (· + 1) hl⟩

theorem rejectConflicts_eq_ok {seen : LensMap} (h : rejectConflicts m seen lensVerdicts = .ok ()) :
    (∀ p ∈ lensVerdicts, ∀ v, seen[p.1]? = some v → v = p.2) ∧
      ∀ p ∈ lensVerdicts, ∀ q ∈ lensVerdicts, p.1 = q.1 → p.2 = q.2 := by
  induction lensVerdicts generalizing seen with
  | nil => exact ⟨nofun, nofun⟩
  | cons p rest ih =>
    obtain ⟨name, v⟩ := p
    rw [rejectConflicts] at h
    obtain ⟨hfresh, h⟩ := ite_error_eq_ok.mp h
    obtain ⟨hseen, hagree⟩ := ih h
    have hrest : ∀ q ∈ rest, q.1 = name → q.2 = v := fun q hq he =>
      (hseen q hq v (by rw [he, ExtTreeMap.getElem?_insert_self])).symm
    constructor
    · intro q hq u hu
      rcases List.mem_cons.mp hq with rfl | hq
      · by_contra hne
        exact hfresh (by simp [hu, hne])
      · by_cases he : q.1 = name
        · rw [hrest q hq he]
          by_contra hne
          exact hfresh (by simp [← he, hu, hne])
        · exact hseen q hq u (by rw [ExtTreeMap.getElem?_insert, if_neg (by simpa using Ne.symm he), hu])
    · intro q hq q' hq' he
      rcases List.mem_cons.mp hq with rfl | hq <;> rcases List.mem_cons.mp hq' with rfl | hq'
      · rfl
      · exact (hrest q' hq' he.symm).symm
      · exact hrest q hq he
      · exact hagree q hq q' hq' he

theorem lensVerdictsOf_eq_ok {args : VerdictRecordArgs} (h : lensVerdictsOf m args = .ok lensVerdicts) :
    lensVerdicts = args.lensVerdicts ∧ lensVerdicts ≠ [] ∧
      ∀ p ∈ lensVerdicts, ∀ q ∈ lensVerdicts, p.1 = q.1 → p.2 = q.2 := by
  obtain ⟨hne, h⟩ := ite_error_eq_ok.mp h
  obtain ⟨hl, h⟩ := ite_error_eq_ok.mp h
  obtain ⟨_, -, h⟩ := bind_eq_ok.mp h
  obtain ⟨parsed, hparsed, h⟩ := bind_eq_ok.mp h
  obtain ⟨_, hagree, h⟩ := bind_eq_ok.mp h
  obtain rfl := pure_eq_ok.mp h
  obtain ⟨heq, hlen⟩ := parseLensVerdicts_eq_ok hparsed
  refine ⟨heq, fun hnil => hne ?_, (rejectConflicts_eq_ok hagree).2⟩
  rw [hnil, List.length_zip, ← not_ne_iff.mp hl, Nat.min_self] at hlen
  exact List.length_eq_zero_iff.mp hlen.symm

end Parsing

section Stored

theorem redactText_verdict (m : Measures) (v : Verdict) : redactText m v.toStr = v.toStr := by
  cases v <;> exact redactText_eq_self_iff.mpr (isSecret_of_short m (by decide +kernel) (by decide +kernel))

theorem Verdict.toValue_eq (v : Verdict) : Verdict.serde.toValue v = .string v.toStr := by
  cases v <;> rfl

theorem ofValue_storedVerdict (s : Scrubber) (vo : VerdictObject) :
    VerdictObject.serde.ofValue (s.stored (VerdictObject.serde.toValue vo)) = some (s.storedVerdict vo) := by
  have hp : (VerdictObject.serde.toValue vo).Printable 127 := (VerdictObject.serde_reads 125 vo).printable
  have hverdict : s.storedText "verdict" vo.verdict.toStr = vo.verdict.toStr :=
    (Scrubber.storedText_freeText (by decide) (by decide) _).trans (redactText_verdict _ _)
  have hread : Verdict.serde.ofValue (.string vo.verdict.toStr) = some vo.verdict := by
    rw [← Verdict.toValue_eq]
    exact (Verdict.serde_reads 0 vo.verdict).reads
  have htext : ∀ {key text : String}, Scrubber.PlainKey key →
      (VerdictObject.serde.toValue vo).get key = some (.string text) →
      (s.stored (VerdictObject.serde.toValue vo)).get key = some (.string (s.storedText key text)) :=
    Scrubber.get_stored_text hp
  have htexts : ∀ {key : String} {texts : List String},
      (VerdictObject.serde.toValue vo).get key = some (.array (texts.map .string)) →
      (s.stored (VerdictObject.serde.toValue vo)).get key =
        some (.array ((texts.map (s.storedItem key)).map .string)) :=
    Scrubber.get_stored_texts hp
  have hget : (s.stored (VerdictObject.serde.toValue vo)).get "verdict" = some (.string vo.verdict.toStr) := by
    rw [← hverdict]
    exact htext (by decide) (congrArg some (Verdict.toValue_eq vo.verdict))
  refine (Scrubber.ofValue_stored hp (.cons (htext (by decide) rfl) (.cons (htext (by decide) rfl)
    (.cons (htext (by decide) rfl) (.cons (htext (by decide) rfl) (.cons (htext (by decide) rfl) (.cons hget
      (.cons (htexts rfl) (.cons (htexts rfl) .nil))))))))).trans ?_
  have hstr : ∀ text, Serde.str.ofValue (.string text) = some text := fun _ => rfl
  have hvec : ∀ texts : List String, Serde.str.vec.ofValue (.array (texts.map .string)) = some texts :=
    fun texts => (strVec_reads 0 texts).reads
  simp only [hstr, hread, hvec, Option.bind_eq_bind, Option.bind_some]
  rfl

end Stored

section Effects

variable {s : Scrubber} {log log' : EventLog} {args : VerdictRecordArgs}

def Scrubber.panelRecord (s : Scrubber) (log : EventLog) (args : VerdictRecordArgs)
    (lensVerdicts : List (String × Verdict)) : EventRecord :=
  EventLog.nextRecord s.crates log.records verdictRecordedKind ["orchestrator:verdict-recorder"]
    (s.panelPayload args lensVerdicts) args.recordedAt

theorem verdictObject_panelRecord (hc : s.crates.Json) (lensVerdicts : List (String × Verdict)) :
    (s.panelRecord log args lensVerdicts).verdictObject s.crates =
      some (s.storedVerdict (panelVerdict args lensVerdicts)) := by
  have hp := (VerdictObject.serde_reads 125 (panelVerdict args lensVerdicts)).printable
  have hread : s.crates.fromStr (s.panelRecord log args lensVerdicts).payload =
      some (s.stored (VerdictObject.serde.toValue (panelVerdict args lensVerdicts))) :=
    Scrubber.fromStr_scrubToCanonical hc hp
  have hkind : (s.panelRecord log args lensVerdicts).kind = verdictRecordedKind := rfl
  rw [EventRecord.verdictObject, if_pos hkind, hread, Option.bind_some, ofValue_storedVerdict]

theorem recordVerdict_cases {answer : Value} (h : s.recordVerdict log args = (.ok answer, log'))
    (hstore : args.store = true) :
    lensVerdictsOf s.measures args = .ok args.lensVerdicts ∧ s.guardVerdict log args = .ok () ∧
      ((log' = log ∧ ∃ latest, (Ledger.verdicts s.crates log.records).reverse.find? (·.intent = args.intent) =
          some latest ∧ latest.claimsChecked = claimTexts args.lensVerdicts) ∨
        log' = ⟨log.records ++ [s.panelRecord log args args.lensVerdicts]⟩) := by
  unfold Scrubber.recordVerdict at h
  cases hlens : lensVerdictsOf s.measures args with
  | error e => simp [hlens] at h
  | ok lensVerdicts =>
    obtain ⟨rfl, -, -⟩ := lensVerdictsOf_eq_ok hlens
    simp only [hlens, hstore, Bool.true_eq_false, if_false] at h
    cases hguard : s.guardVerdict log args with
    | error e => simp [hguard] at h
    | ok _ =>
      refine ⟨rfl, rfl, ?_⟩
      simp only [hguard] at h
      cases hexisting : findExistingVerdict s.crates log args.intent args.lensVerdicts with
      | some existing =>
        simp only [hexisting, Prod.mk.injEq] at h
        refine .inl ⟨h.2.symm, ?_⟩
        unfold findExistingVerdict at hexisting
        cases hlatest : (Ledger.verdicts s.crates log.records).reverse.find? (·.intent = args.intent) with
        | none => simp [hlatest] at hexisting
        | some latest =>
          refine ⟨latest, rfl, ?_⟩
          by_contra hne
          simp [hlatest, hne] at hexisting
      | none =>
        simp only [hexisting] at h
        exact .inr (congrArg Prod.snd h).symm

theorem guardVerdict_eq_ok (hknown : intentLandedOnLog s.crates log args.intent = true)
    (hnone : campaignForIntent s.crates log args.intent = none) : s.guardVerdict log args = .ok () := by
  have hfound : ¬ (log.hasKind intentLandedKind && !intentLandedOnLog s.crates log args.intent) = true := by
    simp [hknown]
  unfold Scrubber.guardVerdict
  rw [if_neg hfound, hnone]

theorem recordVerdict_appends (hlens : lensVerdictsOf s.measures args = .ok args.lensVerdicts)
    (hstore : args.store = true) (hguard : s.guardVerdict log args = .ok ())
    (hfirst : findExistingVerdict s.crates log args.intent args.lensVerdicts = none) :
    ∃ answer, s.recordVerdict log args =
      (.ok answer, ⟨log.records ++ [s.panelRecord log args args.lensVerdicts]⟩) := by
  have hstored : ¬ args.store = false := by simp [hstore]
  unfold Scrubber.recordVerdict
  rw [hlens]
  dsimp only
  rw [if_neg hstored, hguard]
  dsimp only
  rw [hfirst]
  exact ⟨_, rfl⟩

end Effects

end Hugit
