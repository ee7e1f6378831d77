import Hugit.CheckedSums
import Hugit.PullRequests

/-! The price of the authoring work on a pull request: the usage records of the PR and of
its intents, each priced by its own model and rounded down by itself. -/

namespace Hugit

structure TokenCounts where
  input : Nat
  output : Nat
  cacheRead : Nat
  cacheWrite : Nat
  total : Nat
  deriving DecidableEq

structure PerTokenMicros where
  input : Nat
  output : Nat
  cacheRead : Nat
  cacheWrite : Nat
  deriving DecidableEq

def picoPerMicro : Nat := 1000000

def usdPerMtokToPicoPerToken : Nat := 1000000

def PerTokenMicros.fromCentsPerMtok (inputCents outputCents cacheReadCents cacheWriteCents : Nat) :
    PerTokenMicros :=
  let centsToPico := usdPerMtokToPicoPerToken / 100
  { input := inputCents * centsToPico
    output := outputCents * centsToPico
    cacheRead := cacheReadCents * centsToPico
    cacheWrite := cacheWriteCents * centsToPico }

structure ModelPriceCard where
  version : String
  rates : List (String × PerTokenMicros)

def ModelPriceCard.rate (card : ModelPriceCard) (modelId : String) : Option PerTokenMicros :=
  (card.rates.find? fun entry => entry.1 = modelId).map Prod.snd

def ModelPriceCard.current : ModelPriceCard where
  version := "pc-2026-07"
  rates := [("claude-opus-4-8", .fromCentsPerMtok 500 2500 50 625),
    ("claude-sonnet-4-6", .fromCentsPerMtok 300 1500 30 375),
    ("claude-haiku-4-5-20251001", .fromCentsPerMtok 100 500 10 125),
    ("claude-haiku-4-5", .fromCentsPerMtok 100 500 10 125),
    ("claude-fable-5", .fromCentsPerMtok 1000 5000 100 1250)]

def costMicros (card : ModelPriceCard) (modelId : String) (tokens : TokenCounts) : Option Nat := do
  let rate ← card.rate modelId
  let pico ← checkedMulU64 tokens.input rate.input
  let pico ← checkedAddU64 pico (← checkedMulU64 tokens.output rate.output)
  let pico ← checkedAddU64 pico (← checkedMulU64 tokens.cacheRead rate.cacheRead)
  let pico ← checkedAddU64 pico (← checkedMulU64 tokens.cacheWrite rate.cacheWrite)
  return pico / picoPerMicro

structure PricedUsage where
  tokens : TokenCounts
  costUsdMicros : Nat
  deriving DecidableEq

def ctxUsageKind : String := "ctx.usage"

structure UsageTotals where
  contributing : Nat
  cost : Nat
  input : Nat
  output : Nat
  cacheRead : Nat
  cacheWrite : Nat

def UsageTotals.zero : UsageTotals := ⟨0, 0, 0, 0, 0, 0⟩

def contributes (opened : OpenedPr) (v : Value) : Bool :=
  let targetId := (v.fieldStr "target_id").getD ""
  let targetKind := (v.fieldStr "target_kind").getD ""
  (targetKind == "pr" && targetId == opened.prId) ||
    (targetKind == "intent" && opened.intentIds.contains targetId)

/-- The token block of a record; its own total is not read. -/
def recordTokens (v : Value) : Option TokenCounts := do
  let t ← v.get "tokens"
  let input ← (t.get "input").bind Value.asU64
  let output ← (t.get "output").bind Value.asU64
  let cacheRead ← (t.get "cache_read").bind Value.asU64
  let cacheWrite ← (t.get "cache_write").bind Value.asU64
  return ⟨input, output, cacheRead, cacheWrite, 0⟩

/-- A record that contributes is priced, or the whole figure is given up. -/
def priceRecord (acc : UsageTotals) (v : Value) : Option UsageTotals := do
  let tokens ← recordTokens v
  let model := (v.fieldStr "model").getD ""
  let c ← costMicros .current model tokens
  let cost ← checkedAddU64 acc.cost c
  let input ← checkedAddU64 acc.input tokens.input
  let output ← checkedAddU64 acc.output tokens.output
  let cacheRead ← checkedAddU64 acc.cacheRead tokens.cacheRead
  let cacheWrite ← checkedAddU64 acc.cacheWrite tokens.cacheWrite
  return ⟨acc.contributing + 1, cost, input, output, cacheRead, cacheWrite⟩

def usageStep (c : Crates) (opened : OpenedPr) (acc : UsageTotals) (r : EventRecord) : Option UsageTotals :=
  if r.kind ≠ ctxUsageKind then some acc
  else match c.fromStr r.payload with
    | none => some acc
    | some v => if contributes opened v then priceRecord acc v else some acc

def UsageTotals.finish (sum : UsageTotals) : Option PricedUsage :=
  if sum.contributing = 0 then none
  else do
    let total ← checkedAddU64 sum.input sum.output
    let total ← checkedAddU64 total sum.cacheRead
    let total ← checkedAddU64 total sum.cacheWrite
    return ⟨⟨sum.input, sum.output, sum.cacheRead, sum.cacheWrite, total⟩, sum.cost⟩

def pricedUsage (c : Crates) (log : EventLog) (opened : OpenedPr) : Option PricedUsage := do
  let sum ← log.records.foldlM (usageStep c opened) UsageTotals.zero
  sum.finish

section Pricing

structure Usage where
  tokens : TokenCounts
  rate : PerTokenMicros

def Usage.pico (u : Usage) : Nat :=
  u.tokens.input * u.rate.input + u.tokens.output * u.rate.output + u.tokens.cacheRead * u.rate.cacheRead +
    u.tokens.cacheWrite * u.rate.cacheWrite

def Usage.micros (u : Usage) : Nat :=
  u.pico / picoPerMicro

def usageOf (v : Value) : Option Usage := do
  let tokens ← recordTokens v
  let rate ← ModelPriceCard.current.rate ((v.fieldStr "model").getD "")
  return ⟨tokens, rate⟩

/-- The readable usage records that target the PR or one of its intents. -/
def contributions (c : Crates) (opened : OpenedPr) (records : List EventRecord) : List Value :=
  (records.filter fun r => r.kind = ctxUsageKind).filterMap fun r =>
    (c.fromStr r.payload).filter (contributes opened)

namespace UsageTotals

def add (acc : UsageTotals) (u : Usage) : UsageTotals :=
  ⟨acc.contributing + 1, acc.cost + u.micros, acc.input + u.tokens.input, acc.output + u.tokens.output,
    acc.cacheRead + u.tokens.cacheRead, acc.cacheWrite + u.tokens.cacheWrite⟩

structure Fits (acc : UsageTotals) : Prop where
  cost : acc.cost < 2 ^ 64
  input : acc.input < 2 ^ 64
  output : acc.output < 2 ^ 64
  cacheRead : acc.cacheRead < 2 ^ 64
  cacheWrite : acc.cacheWrite < 2 ^ 64

theorem Fits.of_add {acc : UsageTotals} {u : Usage} (h : (acc.add u).Fits) : acc.Fits :=
  ⟨lt_of_le_of_lt (Nat.le_add_right _ _) h.cost, lt_of_le_of_lt (Nat.le_add_right _ _) h.input,
    lt_of_le_of_lt (Nat.le_add_right _ _) h.output, lt_of_le_of_lt (Nat.le_add_right _ _) h.cacheRead,
    lt_of_le_of_lt (Nat.le_add_right _ _) h.cacheWrite⟩

theorem Fits.of_foldl {us : List Usage} {acc : UsageTotals} (h : (us.foldl add acc).Fits) : acc.Fits := by
  induction us generalizing acc with
  | nil => exact h
  | cons u us ih => exact (ih h).of_add

end UsageTotals

theorem costMicros_eq_some {card : ModelPriceCard} {modelId : String} {tokens : TokenCounts} {micros : Nat} :
    costMicros card modelId tokens = some micros ↔ ∃ rate, card.rate modelId = some rate ∧
      (⟨tokens, rate⟩ : Usage).pico < 2 ^ 64 ∧ (⟨tokens, rate⟩ : Usage).micros = micros := by
  simp only [costMicros, Option.bind_eq_bind, Option.bind_eq_some_iff, checkedMulU64_eq_some, checkedAddU64_eq_some,
    Option.pure_def, Option.some.injEq, Usage.micros, Usage.pico]
  refine exists_congr fun rate => and_congr_right fun _ => ?_
  constructor
  · rintro ⟨_, ⟨_, rfl⟩, _, ⟨_, rfl⟩, _, ⟨_, rfl⟩, _, ⟨_, rfl⟩, _, ⟨_, rfl⟩, _, ⟨_, rfl⟩, _, ⟨h, rfl⟩, hm⟩
    exact ⟨h, hm⟩
  · rintro ⟨h, hm⟩
    exact ⟨_, ⟨by omega, rfl⟩, _, ⟨by omega, rfl⟩, _, ⟨by omega, rfl⟩, _, ⟨by omega, rfl⟩, _,
      ⟨by omega, rfl⟩, _, ⟨by omega, rfl⟩, _, ⟨h, rfl⟩, hm⟩

theorem usageOf_eq_some {v : Value} {u : Usage} : usageOf v = some u ↔
    recordTokens v = some u.tokens ∧ ModelPriceCard.current.rate ((v.fieldStr "model").getD "") = some u.rate := by
  obtain ⟨tokens, rate⟩ := u
  simp only [usageOf, Option.bind_eq_bind, Option.bind_eq_some_iff, Option.pure_def, Option.some.injEq,
    Usage.mk.injEq]
  constructor
  · rintro ⟨_, ht, _, hr, rfl, rfl⟩
    exact ⟨ht, hr⟩
  · rintro ⟨ht, hr⟩
    exact ⟨_, ht, _, hr, rfl, rfl⟩

theorem priceRecord_eq_some {acc acc' : UsageTotals} {v : Value} :
    priceRecord acc v = some acc' ↔
      ∃ u, usageOf v = some u ∧ u.pico < 2 ^ 64 ∧ (acc.add u).Fits ∧ acc' = acc.add u := by
  simp only [priceRecord, Option.bind_eq_bind, Option.bind_eq_some_iff, costMicros_eq_some, checkedAddU64_eq_some,
    Option.pure_def, Option.some.injEq, usageOf_eq_some]
  constructor
  · rintro ⟨tokens, ht, _, ⟨rate, hrate, hpico, rfl⟩, _, ⟨hcost, rfl⟩, _, ⟨hinput, rfl⟩, _, ⟨houtput, rfl⟩,
      _, ⟨hread, rfl⟩, _, ⟨hwrite, rfl⟩, rfl⟩
    exact ⟨⟨tokens, rate⟩, ⟨ht, hrate⟩, hpico, ⟨hcost, hinput, houtput, hread, hwrite⟩, rfl⟩
  · rintro ⟨u, ⟨ht, hrate⟩, hpico, hfits, rfl⟩
    exact ⟨_, ht, _, ⟨_, hrate, hpico, rfl⟩, _, ⟨hfits.cost, rfl⟩, _, ⟨hfits.input, rfl⟩, _, ⟨hfits.output, rfl⟩,
      _, ⟨hfits.cacheRead, rfl⟩, _, ⟨hfits.cacheWrite, rfl⟩, rfl⟩

variable {c : Crates} {opened : OpenedPr}

theorem contributions_cons (r : EventRecord) (records : List EventRecord) :
    contributions c opened (r :: records) =
      contributions c opened [r] ++ contributions c opened records := by
  rw [contributions, ← List.singleton_append, List.filter_append, List.filterMap_append]
  rfl

theorem usageStep_cases (acc : UsageTotals) (r : EventRecord) :
    (contributions c opened [r] = [] ∧ usageStep c opened acc r = some acc) ∨
      ∃ v, contributions c opened [r] = [v] ∧ usageStep c opened acc r = priceRecord acc v := by
  by_cases hk : r.kind = ctxUsageKind
  · cases hp : c.fromStr r.payload with
    | none => exact .inl ⟨by simp [contributions, hk, hp], by simp [usageStep, hk, hp]⟩
    | some v =>
      cases hv : contributes opened v with
      | false => exact .inl ⟨by simp [contributions, hk, hp, hv], by simp [usageStep, hk, hp, hv]⟩
      | true =>
        have hfilter : (some v).filter (contributes opened) = some v := by simp [hv]
        exact .inr ⟨v, by simp [contributions, hk, hp, hfilter],
          by simp [usageStep, hk, hp, hv]⟩
  · exact .inl ⟨by simp [contributions, hk], by simp [usageStep, hk]⟩

theorem foldlM_usageStep {records : List EventRecord} {acc acc' : UsageTotals} (hacc : acc.Fits) :
    records.foldlM (usageStep c opened) acc = some acc' ↔
      ∃ us : List Usage, (contributions c opened records).map usageOf = us.map some ∧
        (∀ u ∈ us, u.pico < 2 ^ 64) ∧ acc' = us.foldl UsageTotals.add acc ∧ acc'.Fits := by
  induction records generalizing acc with
  | nil =>
    simp only [List.foldlM_nil, Option.pure_def, Option.some.injEq, contributions, List.filter_nil,
      List.filterMap_nil, List.map_nil]
    constructor
    · rintro rfl
      exact ⟨[], rfl, by simp, rfl, hacc⟩
    · rintro ⟨us, hus, -, rfl, -⟩
      rw [List.map_eq_nil_iff.mp hus.symm]
      rfl
  | cons r records ih =>
    rw [List.foldlM_cons, contributions_cons]
    rcases usageStep_cases acc r with ⟨hnone, hstep⟩ | ⟨v, hone, hstep⟩
    · rw [hnone, hstep]
      exact ih hacc
    · rw [hone, hstep, List.singleton_append, List.map_cons]
      constructor
      · intro h
        obtain ⟨mid, hmid, hrest⟩ := Option.bind_eq_some_iff.mp h
        obtain ⟨u, hu, hpico, hfits, rfl⟩ := priceRecord_eq_some.mp hmid
        obtain ⟨us, hus, hpicos, hend, hfits'⟩ := (ih hfits).mp hrest
        refine ⟨u :: us, ?_, List.forall_mem_cons.mpr ⟨hpico, hpicos⟩, hend, hfits'⟩
        rw [hu, hus, List.map_cons]
      · rintro ⟨us, hus, hpicos, rfl, hfits⟩
        cases us with
        | nil => simp at hus
        | cons u us =>
          obtain ⟨hu, hrest⟩ := List.cons.inj hus
          obtain ⟨hpico, hpicos⟩ := List.forall_mem_cons.mp hpicos
          have hmid : (acc.add u).Fits := UsageTotals.Fits.of_foldl hfits
          refine Option.bind_eq_some_iff.mpr ⟨acc.add u, priceRecord_eq_some.mpr ⟨u, hu, hpico, hmid, rfl⟩, ?_⟩
          exact (ih hmid).mpr ⟨us, hrest, hpicos, rfl, hfits⟩

theorem finish_eq_some {sum : UsageTotals} {figure : PricedUsage} : sum.finish = some figure ↔
    sum.contributing ≠ 0 ∧ sum.input + sum.output + sum.cacheRead + sum.cacheWrite < 2 ^ 64 ∧
      figure = ⟨⟨sum.input, sum.output, sum.cacheRead, sum.cacheWrite,
        sum.input + sum.output + sum.cacheRead + sum.cacheWrite⟩, sum.cost⟩ := by
  rw [UsageTotals.finish, Option.ite_none_left_eq_some]
  refine and_congr_right fun _ => ?_
  simp only [Option.bind_eq_bind, Option.bind_eq_some_iff, checkedAddU64_eq_some, Option.pure_def, Option.some.injEq]
  constructor
  · rintro ⟨_, ⟨-, rfl⟩, _, ⟨-, rfl⟩, _, ⟨h, rfl⟩, rfl⟩
    exact ⟨h, rfl⟩
  · rintro ⟨h, rfl⟩
    exact ⟨_, ⟨by omega, rfl⟩, _, ⟨by omega, rfl⟩, _, ⟨h, rfl⟩, rfl⟩

theorem foldl_add (us : List Usage) (acc : UsageTotals) : us.foldl UsageTotals.add acc =
    ⟨acc.contributing + us.length, acc.cost + (us.map Usage.micros).sum, acc.input + (us.map (·.tokens.input)).sum,
      acc.output + (us.map (·.tokens.output)).sum, acc.cacheRead + (us.map (·.tokens.cacheRead)).sum,
      acc.cacheWrite + (us.map (·.tokens.cacheWrite)).sum⟩ := by
  induction us generalizing acc with
  | nil => rfl
  | cons u us ih =>
    rw [List.foldl_cons, ih, UsageTotals.add]
    simp only [List.length_cons, List.map_cons, List.sum_cons, UsageTotals.mk.injEq]
    omega

theorem foldl_add_zero (us : List Usage) : us.foldl UsageTotals.add .zero =
    ⟨us.length, (us.map Usage.micros).sum, (us.map (·.tokens.input)).sum, (us.map (·.tokens.output)).sum,
      (us.map (·.tokens.cacheRead)).sum, (us.map (·.tokens.cacheWrite)).sum⟩ := by
  simp only [foldl_add, UsageTotals.zero, Nat.zero_add]

/-- The figure for some usage: exact token counts, and the prices of the records, each
rounded down to whole micro-dollars. -/
def figureOf (us : List Usage) : PricedUsage :=
  let input := (us.map (·.tokens.input)).sum
  let output := (us.map (·.tokens.output)).sum
  let cacheRead := (us.map (·.tokens.cacheRead)).sum
  let cacheWrite := (us.map (·.tokens.cacheWrite)).sum
  ⟨⟨input, output, cacheRead, cacheWrite, input + output + cacheRead + cacheWrite⟩, (us.map Usage.micros).sum⟩

/-- Usage whose figure fits: the price of every record in pico-dollars, the sum of the
rounded prices, and the total of the tokens. -/
structure Priceable (us : List Usage) : Prop where
  some : us ≠ []
  record : ∀ u ∈ us, u.pico < 2 ^ 64
  cost : (figureOf us).costUsdMicros < 2 ^ 64
  total : (figureOf us).tokens.total < 2 ^ 64

theorem pricedUsage_eq_some {log : EventLog} {figure : PricedUsage} :
    pricedUsage c log opened = some figure ↔
      ∃ us, (contributions c opened log.records).map usageOf = us.map some ∧ Priceable us ∧
        figure = figureOf us := by
  have hzero : UsageTotals.zero.Fits := ⟨by decide, by decide, by decide, by decide, by decide⟩
  rw [pricedUsage, Option.bind_eq_bind, Option.bind_eq_some_iff]
  constructor
  · rintro ⟨sum, hsum, h⟩
    obtain ⟨us, hus, hpico, rfl, hfits⟩ := (foldlM_usageStep hzero).mp hsum
    rw [foldl_add_zero] at h hfits
    obtain ⟨hne, htotal, rfl⟩ := finish_eq_some.mp h
    exact ⟨us, hus, ⟨fun hnil => hne (by rw [hnil]; rfl), hpico, hfits.cost, htotal⟩, rfl⟩
  · rintro ⟨us, hus, hp, rfl⟩
    have htotal := hp.total
    have hfits : (us.foldl UsageTotals.add .zero).Fits := by
      rw [foldl_add_zero]
      simp only [figureOf] at htotal
      refine ⟨hp.cost, ?_, ?_, ?_, ?_⟩ <;> dsimp only <;> omega
    refine ⟨_, (foldlM_usageStep hzero).mpr ⟨us, hus, hp.record, rfl, hfits⟩, ?_⟩
    rw [foldl_add_zero]
    exact finish_eq_some.mpr ⟨fun hnil => hp.some (List.length_eq_zero_iff.mp hnil), htotal, rfl⟩

theorem sum_map_div {α : Type*} (f : α → Nat) {k : Nat} (hk : 0 < k) (xs : List α) :
    (xs.map fun x => f x / k).sum * k ≤ (xs.map f).sum ∧
      (xs.map f).sum + xs.length ≤ ((xs.map fun x => f x / k).sum + xs.length) * k := by
  induction xs with
  | nil => simp
  | cons x xs ih =>
    have hx := Nat.div_add_mod' (f x) k
    have hlt : f x % k < k := Nat.mod_lt _ hk
    simp only [List.map_cons, List.sum_cons, List.length_cons, Nat.add_mul, Nat.one_mul] at ih ⊢
    omega

theorem figureOf_cost {us : List Usage} (hne : us ≠ []) :
    (figureOf us).costUsdMicros ≤ (us.map Usage.pico).sum / picoPerMicro ∧
      (us.map Usage.pico).sum / picoPerMicro < (figureOf us).costUsdMicros + us.length := by
  obtain ⟨hle, hlt⟩ := sum_map_div Usage.pico (by decide : 0 < picoPerMicro) us
  have hpos := List.length_pos_iff.mpr hne
  refine ⟨(Nat.le_div_iff_mul_le (by decide)).mpr hle, (Nat.div_lt_iff_lt_mul (by decide)).mpr ?_⟩
  exact lt_of_lt_of_le (Nat.lt_add_of_pos_right hpos) hlt

end Pricing

/-- A figure is given exactly when every usage record that can be read and targets the PR or
one of its intents can be priced and everything fits, the price of each record in pico-dollars
included. The tokens are then summed exactly, and the records are rounded one by one. -/
theorem priced_usage_per_record (c : Crates) (log : EventLog) (opened : OpenedPr) :
    ((∃ figure, pricedUsage c log opened = some figure) ↔
      ∃ us, (contributions c opened log.records).map usageOf = us.map some ∧ Priceable us) ∧
    ∀ figure us, pricedUsage c log opened = some figure →
      (contributions c opened log.records).map usageOf = us.map some →
      figure = figureOf us ∧ figure.costUsdMicros ≤ (us.map Usage.pico).sum / picoPerMicro ∧
        (us.map Usage.pico).sum / picoPerMicro < figure.costUsdMicros + us.length := by
  constructor
  · constructor
    · rintro ⟨figure, h⟩
      obtain ⟨us, hus, hp, -⟩ := pricedUsage_eq_some.mp h
      exact ⟨us, hus, hp⟩
    · rintro ⟨us, hus, hp⟩
      exact ⟨_, pricedUsage_eq_some.mpr ⟨us, hus, hp, rfl⟩⟩
  · intro figure us h hus
    obtain ⟨us', hus', hp, rfl⟩ := pricedUsage_eq_some.mp h
    obtain rfl : us = us' := (List.map_injective_iff.mpr (Option.some_injective _)) (hus.symm.trans hus')
    exact ⟨rfl, figureOf_cost hp.some⟩

def cacheReads (tokens : Nat) : Value :=
  .object [("target_kind", .string "pr"), ("target_id", .string "p"), ("model", .string "claude-opus-4-8"),
    ("tokens", .object [("input", .number (.posInt 0)), ("output", .number (.posInt 0)),
      ("cache_read", .number (.posInt tokens)), ("cache_write", .number (.posInt 0))])]

def openedP : OpenedPr := ⟨"p", "default", .orchestrator, [], [], 0⟩

def usageLog (c : Crates) (payloads : List Value) : EventLog :=
  payloads.foldl (fun log v => (log.append c ctxUsageKind ["orchestrator:x"] (c.print v) 0).2) .empty

theorem contributions_usageLog {c : Crates} (hj : c.Json) {payloads : List Value}
    (hp : ∀ v ∈ payloads, v.Printable 127 ∧ contributes openedP v = true) :
    contributions c openedP (usageLog c payloads).records = payloads := by
  induction payloads using List.reverseRecOn with
  | nil => rfl
  | append_singleton payloads v ih =>
    obtain ⟨hprint, hv⟩ := hp v (by simp)
    have hrest := ih fun w hw => hp w (by simp [hw])
    have hlast : contributions c openedP [EventLog.nextRecord c (usageLog c payloads).records ctxUsageKind
        ["orchestrator:x"] (c.print v) 0] = [v] := by
      have hfilter : (some v).filter (contributes openedP) = some v := by simp [hv]
      simp [contributions, EventLog.nextRecord, hj.reads_back v hprint, hfilter]
    have hlog : (usageLog c (payloads ++ [v])).records = (usageLog c payloads).records ++
        [EventLog.nextRecord c (usageLog c payloads).records ctxUsageKind ["orchestrator:x"] (c.print v) 0] := by
      simp [usageLog]
    rw [hlog, contributions, List.filter_append, List.filterMap_append]
    exact congr (congrArg _ hrest) hlast

theorem cacheReads_printable {tokens : Nat} (h : tokens < 2 ^ 64) : (cacheReads tokens).Printable 127 := by
  have hzero : 0 < 2 ^ 64 := by decide
  refine .object (by simp) ?_
  simp only [List.forall_mem_cons, List.not_mem_nil, IsEmpty.forall_iff, implies_true, and_true]
  refine ⟨.string _, .string _, .string _, .object (by simp) ?_⟩
  simp only [List.forall_mem_cons, List.not_mem_nil, IsEmpty.forall_iff, implies_true, and_true]
  exact ⟨.number hzero, .number hzero, .number h, .number hzero⟩

theorem cacheReads_contributes (tokens : Nat) : contributes openedP (cacheReads tokens) = true := by
  simp [contributes, cacheReads, openedP, Value.fieldStr]

def cacheReadsUsage (tokens : Nat) : Usage :=
  ⟨⟨0, 0, tokens, 0, 0⟩, .fromCentsPerMtok 500 2500 50 625⟩

theorem usages_cacheReads {c : Crates} (hj : c.Json) {counts : List Nat} (h : ∀ n ∈ counts, n < 2 ^ 64) :
    (contributions c openedP (usageLog c (counts.map cacheReads)).records).map usageOf =
      (counts.map cacheReadsUsage).map some := by
  have hp : ∀ v ∈ counts.map cacheReads, v.Printable 127 ∧ contributes openedP v = true := by
    intro v hv
    obtain ⟨n, hn, rfl⟩ := List.mem_map.mp hv
    exact ⟨cacheReads_printable (h n hn), cacheReads_contributes n⟩
  rw [contributions_usageLog hj hp, List.map_map, List.map_map]
  rfl

/-- Two cache reads in one record cost one micro-dollar. -/
theorem cacheReads_together : ∃ figure,
    pricedUsage reference (usageLog reference [cacheReads 2]) openedP = some figure ∧
      figure.costUsdMicros = 1 := by
  have hus := usages_cacheReads reference_json (by decide : ∀ n ∈ [2], n < 2 ^ 64)
  obtain ⟨hiff, hexact⟩ := priced_usage_per_record reference (usageLog reference [cacheReads 2]) openedP
  obtain ⟨figure, h⟩ := hiff.mpr ⟨_, hus, by simp, by decide, by decide, by decide⟩
  refine ⟨figure, h, ?_⟩
  rw [(hexact figure _ h hus).1]
  decide

/-- The same two tokens in two records cost nothing. -/
theorem cacheReads_apart : ∃ figure,
    pricedUsage reference (usageLog reference [cacheReads 1, cacheReads 1]) openedP = some figure ∧
      figure.costUsdMicros = 0 ∧
      ([cacheReadsUsage 1, cacheReadsUsage 1].map Usage.pico).sum / picoPerMicro = 1 := by
  have hus := usages_cacheReads reference_json (by decide : ∀ n ∈ [1, 1], n < 2 ^ 64)
  have h := pricedUsage_eq_some.mpr ⟨_, hus, ⟨by simp, by decide, by decide, by decide⟩, rfl⟩
  exact ⟨_, h, by decide, by decide⟩

end Hugit
