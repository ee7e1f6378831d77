import Hugit.EventRecord

/-! The exit report and the money gate. The digest of a report covers its status
and counts, an absent anchor as zero, and not the retention rate. -/

namespace Hugit

inductive VerifyError where
  | digestMismatch (expected actual : String)
  | attestationInvalid
  | emptyCohort

/-- What the report takes from elsewhere: the digest, the floating point
division and comparison of the rate, and the formatting of a rate and of an error. -/
structure ExitPlatform (F : Type) where
  digest : Bytes → Bytes
  ratio : Nat → Nat → F
  meetsThreshold : F → Bool
  percent : F → String
  debug : VerifyError → String

structure CohortState where
  teamCount : UInt64
  minWeeksRealUse : UInt32
  daysSinceAnchor : Option UInt64

inductive CohortGuardResult where
  | satisfied
  | insufficientOrOutOfWindow (reason : String)

def evaluateCohortGuards (state : CohortState) : CohortGuardResult :=
  if state.teamCount < 10 then
    .insufficientOrOutOfWindow
      ("insufficient: only " ++ toString state.teamCount.toNat ++ " teams (need ≥10)")
  else if state.minWeeksRealUse < 3 then
    .insufficientOrOutOfWindow
      ("insufficient: only " ++ toString state.minWeeksRealUse.toNat ++ " weeks real use (need ≥3)")
  else match state.daysSinceAnchor with
    | none => .insufficientOrOutOfWindow
        "out-of-window: first-10-paying-customers anchor event has not occurred"
    | some days =>
      if 90 < days then .insufficientOrOutOfWindow
        ("out-of-window: " ++ toString days.toNat ++ " days since anchor exceeds 90-day window")
      else .satisfied

structure ActivityEvent where
  installId : String
  week : UInt32
  active : Bool

structure RetentionMetrics (F : Type) where
  totalInstallsAtWeek3 : Nat
  activeAtWeek3 : Nat
  retentionRate : Option F

inductive RetentionResult (F : Type) where
  | pass (metrics : RetentionMetrics F)
  | fail (metrics : RetentionMetrics F)
  | insufficient

def RetentionResult.rate {F : Type} : RetentionResult F → Option F
  | pass metrics | fail metrics => metrics.retentionRate
  | insufficient => none

def RetentionResult.isPass {F : Type} : RetentionResult F → Bool
  | pass _ => true
  | fail _ | insufficient => false

def computeRetention {F : Type} (p : ExitPlatform F) (events : List ActivityEvent) : RetentionResult F :=
  let week3 := events.filter fun ev => ev.week = 3
  let totalCount := (week3.map ActivityEvent.installId).dedup.length
  let activeCount := ((week3.filter ActivityEvent.active).map ActivityEvent.installId).dedup.length
  if totalCount = 0 then .insufficient
  else
    let rate := p.ratio activeCount totalCount
    let metrics := ⟨totalCount, activeCount, some rate⟩
    if p.meetsThreshold rate then .pass metrics else .fail metrics

inductive FeedbackKind where
  | unprompted
  | prompted
  deriving DecidableEq

structure FeedbackSignal where
  kind : FeedbackKind

def countUnprompted (signals : List FeedbackSignal) : UInt64 :=
  .ofNat (signals.countP fun s => s.kind = .unprompted)

inductive ExitReportStatus where
  | pass
  | fail (reason : String)
  | insufficientOrOutOfWindow (reason : String)
  deriving DecidableEq

structure ExitReport (F : Type) where
  status : ExitReportStatus
  teamCount : UInt64
  minWeeksRealUse : UInt32
  daysSinceAnchor : Option UInt64
  cohortGuard : CohortGuardResult
  retentionRate : Option F
  retentionResult : RetentionResult F
  unpromptedCount : UInt64
  totalSignals : UInt64
  bodyDigest : String
  attestation : Option String

def ExitReportStatus.value : ExitReportStatus → Value
  | pass => .string "Pass"
  | fail reason => .object [("Fail", .string reason)]
  | insufficientOrOutOfWindow reason => .object [("InsufficientOrOutOfWindow", .string reason)]

def leBytes (width n : Nat) : Bytes :=
  (beBytes width n).reverse

namespace ExitReport

variable {F : Type} (p : ExitPlatform F)

def preimage (report : ExitReport F) (corpusSeal : String) : Bytes :=
  utf8 (printJson report.status.value) ++ (leBytes 8 report.teamCount.toNat ++
    (leBytes 4 report.minWeeksRealUse.toNat ++ (leBytes 8 (report.daysSinceAnchor.getD 0).toNat ++
      (leBytes 8 report.unpromptedCount.toNat ++ (leBytes 8 report.totalSignals.toNat ++ utf8 corpusSeal)))))

def hashFields (report : ExitReport F) (corpusSeal : String) : String :=
  hexEncode (p.digest (report.preimage corpusSeal))

def verify (report : ExitReport F) (corpusSeal : String) : Except VerifyError Unit :=
  if report.teamCount = 0 then .error .emptyCohort
  else if report.bodyDigest ≠ report.hashFields p corpusSeal then
    .error (.digestMismatch report.bodyDigest (report.hashFields p corpusSeal))
  else if report.attestation.isSome then .error .attestationInvalid
  else .ok ()

/-- A report on a cohort outside its guards leaves without a digest. -/
def generateReport (cohort : CohortState) (activityEvents : List ActivityEvent)
    (feedbackSignals : List FeedbackSignal) : ExitReport F :=
  let retentionResult := computeRetention p activityEvents
  let unpromptedCount := countUnprompted feedbackSignals
  let report (status : ExitReportStatus) (guard : CohortGuardResult) : ExitReport F :=
    { status := status
      teamCount := cohort.teamCount
      minWeeksRealUse := cohort.minWeeksRealUse
      daysSinceAnchor := cohort.daysSinceAnchor
      cohortGuard := guard
      retentionRate := retentionResult.rate
      retentionResult := retentionResult
      unpromptedCount := unpromptedCount
      totalSignals := .ofNat feedbackSignals.length
      bodyDigest := ""
      attestation := none }
  match evaluateCohortGuards cohort with
  | .insufficientOrOutOfWindow reason =>
    report (.insufficientOrOutOfWindow reason) (.insufficientOrOutOfWindow reason)
  | .satisfied =>
    let retentionOk := retentionResult.isPass
    let unpromptedOk := decide (3 ≤ unpromptedCount)
    let status := if retentionOk && unpromptedOk then .pass
      else
        let retention := if retentionOk then [] else
          ["retention " ++ (match retentionResult.rate with
            | some rate => "Some(\"" ++ p.percent rate ++ "\")"
            | none => "None") ++ " < 40%"]
        let unprompted := if unpromptedOk then [] else
          ["only " ++ toString unpromptedCount.toNat ++ " unprompted signals (need ≥3)"]
        .fail ("; ".intercalate (retention ++ unprompted))
    let draft := report status .satisfied
    { draft with bodyDigest := draft.hashFields p "" }

end ExitReport

inductive GateEvaluatorState where
  | healthy
  | degraded

inductive MoneyGateDecision where
  | allow
  | block (reason : String)

/-- The money gate in a given state of its evaluator. -/
def MoneyGate.evaluate {F : Type} (p : ExitPlatform F) (state : GateEvaluatorState) (report : ExitReport F) :
    MoneyGateDecision :=
  match report.verify p "" with
  | .error e => .block ("exit report forge check failed: " ++ p.debug e ++ " — billing blocked (fail closed)")
  | .ok () =>
    match state with
    | .degraded => .block
        "gate evaluator is DEGRADED — treating as insufficient; billing blocked (fail closed)"
    | .healthy =>
      match report.status with
      | .pass => .allow
      | .fail reason => .block ("exit report is FAIL (" ++ reason ++ "); billing blocked")
      | .insufficientOrOutOfWindow reason =>
        .block ("exit report is insufficient/out-of-window (" ++ reason ++ "); billing blocked")

namespace ExitReport

variable {F : Type} {p : ExitPlatform F}

/-- The two reports agree in all that the digest covers. -/
structure SameSeal (r s : ExitReport F) : Prop where
  status : r.status = s.status
  teamCount : r.teamCount = s.teamCount
  minWeeksRealUse : r.minWeeksRealUse = s.minWeeksRealUse
  anchor : r.daysSinceAnchor.getD 0 = s.daysSinceAnchor.getD 0
  unpromptedCount : r.unpromptedCount = s.unpromptedCount
  totalSignals : r.totalSignals = s.totalSignals

theorem SameSeal.preimage {r s : ExitReport F} (h : r.SameSeal s) (corpusSeal : String) :
    r.preimage corpusSeal = s.preimage corpusSeal := by
  rw [ExitReport.preimage, ExitReport.preimage, h.status, h.teamCount, h.minWeeksRealUse, h.anchor,
    h.unpromptedCount, h.totalSignals]

theorem leBytes_append_inj {width m n : Nat} {r s : Bytes} (hm : m < 256 ^ width) (hn : n < 256 ^ width)
    (h : leBytes width m ++ r = leBytes width n ++ s) : m = n ∧ r = s := by
  obtain ⟨hb, hr⟩ := List.append_inj h (by simp [leBytes])
  exact ⟨beBytes_inj hm hn (List.reverse_injective hb), hr⟩

theorem leBytes_u64_inj {m n : UInt64} {r s : Bytes} (h : leBytes 8 m.toNat ++ r = leBytes 8 n.toNat ++ s) :
    m = n ∧ r = s := by
  obtain ⟨he, hr⟩ := leBytes_append_inj m.toNat_lt n.toNat_lt h
  exact ⟨UInt64.toNat_inj.mp he, hr⟩

theorem status_eq_pass {status : ExitReportStatus} {r s : Bytes}
    (h : utf8 (printJson status.value) ++ r = utf8 (printJson ExitReportStatus.pass.value) ++ s) :
    status = .pass := by
  have hother (fields : List (String × Value)) :
      ¬ utf8 (printJson (.object fields)) ++ r = utf8 (printJson ExitReportStatus.pass.value) ++ s := by
    intro heq
    have hhead := congrArg List.head? heq
    have hbrace : String.utf8EncodeChar '{' = [123] := by decide
    have hquote : String.utf8EncodeChar '"' = [34] := by decide
    simp only [printJson, utf8_ofList, ExitReportStatus.value] at hhead
    cases fields <;> simp [JsonText.printValue, JsonText.printText, hbrace, hquote] at hhead
  cases status with
  | pass => rfl
  | fail reason => exact absurd h (hother _)
  | insufficientOrOutOfWindow reason => exact absurd h (hother _)

theorem sameSeal_of_preimage {r s : ExitReport F} (hs : s.status = .pass) {corpusSeal : String}
    (h : r.preimage corpusSeal = s.preimage corpusSeal) : r.SameSeal s := by
  rw [ExitReport.preimage, ExitReport.preimage, hs] at h
  have hstatus := status_eq_pass h
  rw [hstatus] at h
  obtain ⟨hteams, h⟩ := leBytes_u64_inj (List.append_cancel_left h)
  obtain ⟨hweeks, h⟩ := leBytes_append_inj r.minWeeksRealUse.toNat_lt s.minWeeksRealUse.toNat_lt h
  obtain ⟨hanchor, h⟩ := leBytes_u64_inj h
  obtain ⟨hunprompted, h⟩ := leBytes_u64_inj h
  obtain ⟨htotal, -⟩ := leBytes_u64_inj h
  exact ⟨hstatus.trans hs.symm, hteams, UInt32.toNat_inj.mp hweeks, hanchor, hunprompted, htotal⟩

theorem verify_ok_iff {report : ExitReport F} {corpusSeal : String} :
    report.verify p corpusSeal = .ok () ↔ report.teamCount ≠ 0 ∧
      report.bodyDigest = report.hashFields p corpusSeal ∧ report.attestation = none := by
  unfold verify
  cases report.attestation <;> split_ifs <;> simp_all

theorem evaluate_allow_iff {report : ExitReport F} :
    MoneyGate.evaluate p .healthy report = .allow ↔ report.verify p "" = .ok () ∧ report.status = .pass := by
  rw [MoneyGate.evaluate]
  cases report.verify p "" with
  | error e => simp
  | ok u => cases report.status <;> simp

theorem teamCount_of_satisfied {cohort : CohortState} (h : evaluateCohortGuards cohort = .satisfied) :
    cohort.teamCount ≠ 0 := by
  intro hzero
  rw [evaluateCohortGuards, hzero, if_pos (by decide)] at h
  cases h

theorem generateReport_cases (cohort : CohortState) (events : List ActivityEvent) (signals : List FeedbackSignal) :
    let report := generateReport p cohort events signals
    report.bodyDigest = "" ∧ report.status ≠ .pass ∨
      report.bodyDigest = report.hashFields p "" ∧ report.teamCount ≠ 0 := by
  intro report
  cases hguard : evaluateCohortGuards cohort with
  | insufficientOrOutOfWindow reason =>
    have hreport : report.bodyDigest = "" ∧ report.status = .insufficientOrOutOfWindow reason := by
      simp only [report, generateReport, hguard, and_self]
    exact .inl ⟨hreport.1, by simp [hreport.2]⟩
  | satisfied =>
    right
    have hteams := teamCount_of_satisfied hguard
    simp only [report, generateReport, hguard]
    exact ⟨rfl, hteams⟩

theorem evaluate_same_digest (hlen : ∀ message, (p.digest message).length = 32) {cohort : CohortState}
    {events : List ActivityEvent} {signals : List FeedbackSignal} {other : ExitReport F}
    (hdigest : other.bodyDigest = (generateReport p cohort events signals).bodyDigest)
    (hfree : p.digest ((generateReport p cohort events signals).preimage "") = p.digest (other.preimage "") →
      (generateReport p cohort events signals).preimage "" = other.preimage "") :
    MoneyGate.evaluate p .healthy other = .allow ↔ (generateReport p cohort events signals).status = .pass ∧
      (generateReport p cohort events signals).SameSeal other ∧ other.attestation = none := by
  have hcases := generateReport_cases (p := p) cohort events signals
  simp only at hcases
  generalize generateReport p cohort events signals = report at *
  rw [evaluate_allow_iff, verify_ok_iff]
  constructor
  · rintro ⟨⟨-, hsealed, hatt⟩, hpass⟩
    rcases hcases with ⟨hempty, -⟩ | ⟨hself, -⟩
    · rw [hdigest, hempty] at hsealed
      have hnil : [] = _ := hexEncode_injective hsealed
      have hfull := hlen (other.preimage "")
      rw [← hnil] at hfull
      cases hfull
    · rw [hdigest, hself] at hsealed
      have hsame := sameSeal_of_preimage hpass (hfree (hexEncode_injective hsealed))
      exact ⟨hsame.status.trans hpass, hsame, hatt⟩
  · rintro ⟨hpass, hsame, hatt⟩
    rcases hcases with ⟨-, hfail⟩ | ⟨hself, hteams⟩
    · exact absurd hpass hfail
    · refine ⟨⟨hsame.teamCount ▸ hteams, ?_, hatt⟩, hsame.status ▸ hpass⟩
      rw [hdigest, hself, hashFields, hashFields, hsame.preimage]

end ExitReport

open ExitReport

def exactPlatform : ExitPlatform ℚ where
  digest := reference.digest
  ratio active total := active / total
  meetsThreshold rate := 2 / 5 ≤ rate
  percent _ := "100.0%"
  debug _ := ""

def passingReport : ExitReport ℚ :=
  generateReport exactPlatform ⟨10, 3, some 0⟩ [⟨"a", 3, true⟩] [⟨.unprompted⟩, ⟨.unprompted⟩, ⟨.unprompted⟩]

theorem passingReport_status : passingReport.status = .pass := by
  decide +kernel

end Hugit
