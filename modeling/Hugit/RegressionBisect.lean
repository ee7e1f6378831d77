import Mathlib.Data.Nat.Log
import Mathlib.Tactic

/-! The search for the first red tree of a history: a lower-bound binary search over answers of an
oracle, with the baseline at index 0 never asked. -/

namespace Hugit

structure History where
  trees : List String
  defDigest : String
  toolchainDigest : String
  deriving DecidableEq

def History.len (history : History) : Nat :=
  history.trees.length

def History.tree (history : History) (index : Nat) : String :=
  history.trees.getD index ""

inductive ProbeVerdict where
  | green
  | red
  deriving DecidableEq

structure ProbeOutcome where
  verdict : ProbeVerdict
  wasRealExecution : Bool
  deriving DecidableEq

/-- An oracle over a state of its own, where it counts. -/
structure CheckOracle (σ : Type*) where
  probe : σ → History → Nat → ProbeOutcome × σ
  probeCount : σ → Nat
  realExecutionCount : σ → Nat

inductive BisectError where
  | noRedTip
  | diagnosisTooLarge
  deriving DecidableEq

structure BisectOutcome where
  culpritIndex : Nat
  culpritRef : String
  lastGreenIndex : Option Nat
  executions : Nat
  realExecutions : Nat
  probedTrees : List String
  deriving DecidableEq

variable {σ : Type*} (oracle : CheckOracle σ) (history : History)

/-- The window that is left, the indices asked so far and the oracle's state. -/
def bisectWindow (s : σ) (probed : List Nat) (lo hi : Nat) : Nat × List Nat × σ :=
  if lo < hi then
    let mid := lo + (hi - lo) / 2
    let answer := oracle.probe s history mid
    match answer.1.verdict with
    | .green => bisectWindow answer.2 (probed ++ [mid]) (mid + 1) hi
    | .red => bisectWindow answer.2 (probed ++ [mid]) lo mid
  else (lo, probed, s)
termination_by hi - lo

def wrappingSub (after before : Nat) : Nat :=
  (after + 2 ^ 64 - before) % 2 ^ 64

def findCulprit (s : σ) : Except BisectError BisectOutcome × σ :=
  let n := history.len
  if n = 0 then (.error .noRedTip, s)
  else
    let probesBefore := oracle.probeCount s
    let realBefore := oracle.realExecutionCount s
    let window := bisectWindow oracle history s [] 1 n
    let lo := window.1
    let s := window.2.2
    if lo = n then (.error .noRedTip, s)
    else
      (.ok { culpritIndex := lo
             culpritRef := history.tree lo
             lastGreenIndex := if lo = 0 then none else some (lo - 1)
             executions := wrappingSub (oracle.probeCount s) probesBefore
             realExecutions := wrappingSub (oracle.realExecutionCount s) realBefore
             probedTrees := window.2.1.map history.tree }, s)

theorem findCulprit_cases (s : σ) : (findCulprit oracle history s).1 = .error .noRedTip ∨
    ∃ outcome, (findCulprit oracle history s).1 = .ok outcome := by
  rw [findCulprit]
  by_cases hzero : history.len = 0
  · exact .inl (by rw [if_pos hzero])
  · rw [if_neg hzero]
    by_cases hend : (bisectWindow oracle history s [] 1 history.len).1 = history.len
    · exact .inl (by rw [if_pos hend])
    · exact .inr ⟨_, by rw [if_neg hend]⟩

/-- Answers that depend on nothing but the index. -/
def CheckOracle.Answers (verdict : Nat → ProbeVerdict) : Prop :=
  ∀ s i, (oracle.probe s history i).1.verdict = verdict i

def CheckOracle.Counts : Prop :=
  ∀ s i, oracle.probeCount (oracle.probe s history i).2 = oracle.probeCount s + 1

structure Searched (verdict : Nat → ProbeVerdict) (n : Nat) (probed : List Nat) (lo hi : Nat) : Prop where
  pos : 0 < lo
  le : lo ≤ hi
  bound : hi ≤ n
  low : lo = 1 ∨ lo - 1 ∈ probed ∧ verdict (lo - 1) = .green
  high : hi = n ∨ hi ∈ probed ∧ verdict hi = .red

section

variable {oracle history} {verdict : Nat → ProbeVerdict} {n : Nat}

theorem Searched.green {probed : List Nat} {lo hi mid : Nat} (h : Searched verdict n probed lo hi)
    (hhi : mid < hi) (hgreen : verdict mid = .green) :
    Searched verdict n (probed ++ [mid]) (mid + 1) hi :=
  ⟨Nat.succ_pos mid, hhi, h.bound, .inr ⟨by simp, hgreen⟩, h.high.imp_right fun hred => ⟨by simp [hred.1], hred.2⟩⟩

theorem Searched.red {probed : List Nat} {lo hi mid : Nat} (h : Searched verdict n probed lo hi)
    (hlo : lo ≤ mid) (hhi : mid < hi) (hred : verdict mid = .red) :
    Searched verdict n (probed ++ [mid]) lo mid :=
  ⟨h.pos, hlo, by have := h.bound; omega, h.low.imp_right fun hgreen => ⟨by simp [hgreen.1], hgreen.2⟩,
    .inr ⟨by simp, hred⟩⟩

theorem searched_bisectWindow (hanswers : oracle.Answers history verdict) (s : σ) {probed : List Nat}
    {lo hi : Nat} (h : Searched verdict n probed lo hi) :
    Searched verdict n (bisectWindow oracle history s probed lo hi).2.1
      (bisectWindow oracle history s probed lo hi).1 (bisectWindow oracle history s probed lo hi).1 := by
  fun_induction bisectWindow oracle history s probed lo hi with
  | case1 s probed lo hi hlt mid answer hgreen ih => exact ih (h.green (by omega) (hanswers s mid ▸ hgreen))
  | case2 s probed lo hi hlt mid answer hred ih => exact ih (h.red (by omega) (by omega) (hanswers s mid ▸ hred))
  | case3 s probed lo hi hge =>
    obtain rfl : lo = hi := by have := h.le; omega
    exact h

theorem clog_halved (m : Nat) (hm : 0 < m) : Nat.clog 2 (m + 1) = Nat.clog 2 (m / 2 + 1) + 1 := by
  rw [Nat.clog_of_two_le (by omega) (by omega)]
  congr 2
  omega

theorem length_bisectWindow (oracle : CheckOracle σ) (history : History) (s : σ) (probed : List Nat) (lo hi : Nat) :
    (bisectWindow oracle history s probed lo hi).2.1.length ≤ probed.length + Nat.clog 2 (hi - lo + 1) := by
  fun_induction bisectWindow oracle history s probed lo hi with
  | case1 s probed lo hi hlt mid answer hgreen ih =>
    have hhalf := clog_halved (hi - lo) (by omega)
    have hle : Nat.clog 2 (hi - (mid + 1) + 1) ≤ Nat.clog 2 ((hi - lo) / 2 + 1) :=
      Nat.clog_mono_right 2 (by omega)
    rw [List.length_append, List.length_singleton] at ih
    omega
  | case2 s probed lo hi hlt mid answer hred ih =>
    have hhalf := clog_halved (hi - lo) (by omega)
    have hle : Nat.clog 2 (mid - lo + 1) ≤ Nat.clog 2 ((hi - lo) / 2 + 1) :=
      Nat.clog_mono_right 2 (by omega)
    rw [List.length_append, List.length_singleton] at ih
    omega
  | case3 s probed lo hi hge => exact Nat.le_add_right _ _

theorem probeCount_bisectWindow (hcounts : oracle.Counts history) (s : σ) (probed : List Nat) (lo hi : Nat) :
    oracle.probeCount (bisectWindow oracle history s probed lo hi).2.2 + probed.length =
      oracle.probeCount s + (bisectWindow oracle history s probed lo hi).2.1.length := by
  fun_induction bisectWindow oracle history s probed lo hi with
  | case1 s probed lo hi hlt mid answer hgreen ih =>
    have hone : oracle.probeCount answer.2 = oracle.probeCount s + 1 := hcounts s mid
    rw [List.length_append, List.length_singleton] at ih
    omega
  | case2 s probed lo hi hlt mid answer hred ih =>
    have hone : oracle.probeCount answer.2 = oracle.probeCount s + 1 := hcounts s mid
    rw [List.length_append, List.length_singleton] at ih
    omega
  | case3 s probed lo hi hge => rfl

theorem findCulprit_spec (hanswers : oracle.Answers history verdict) (s : σ) (hpos : 0 < history.len) :
    ∃ lo probed, Searched verdict history.len probed lo lo ∧ probed.length ≤ Nat.clog 2 history.len ∧
      (lo = history.len → (findCulprit oracle history s).1 = .error .noRedTip) ∧
      (lo < history.len → ∃ outcome, (findCulprit oracle history s).1 = .ok outcome ∧
        outcome.culpritIndex = lo ∧ outcome.culpritRef = history.tree lo ∧
        outcome.lastGreenIndex = some (lo - 1) ∧ outcome.probedTrees = probed.map history.tree) ∧
      (oracle.Counts history →
        oracle.probeCount (findCulprit oracle history s).2 = oracle.probeCount s + probed.length) := by
  have hstart : Searched verdict history.len [] 1 history.len :=
    ⟨Nat.one_pos, hpos, Nat.le_refl _, .inl rfl, .inl rfl⟩
  have hsearched := searched_bisectWindow hanswers s hstart
  have hlength := length_bisectWindow oracle history s [] 1 history.len
  have hcount := fun hcounts : oracle.Counts history => probeCount_bisectWindow hcounts s [] 1 history.len
  rw [List.length_nil, Nat.zero_add, Nat.sub_add_cancel hpos] at hlength
  rw [findCulprit, if_neg (by omega)]
  generalize bisectWindow oracle history s [] 1 history.len = window at hsearched hlength hcount ⊢
  refine ⟨window.1, window.2.1, hsearched, hlength, fun hlo => ?_, fun hlo => ?_, fun hcounts => ?_⟩
  · rw [if_pos hlo]
  · rw [if_neg (by omega)]
    exact ⟨_, rfl, rfl, rfl, if_neg (by have := hsearched.pos; omega), rfl⟩
  · rw [apply_ite Prod.snd, ite_self]
    exact hcount hcounts

/-- Green up to some index past the baseline, red from there on. -/
def FirstRedAt (verdict : Nat → ProbeVerdict) (n k : Nat) : Prop :=
  0 < k ∧ ∀ i < n, verdict i = .green ↔ i < k

theorem Searched.eq_firstRed {probed : List Nat} {lo k : Nat} (h : Searched verdict n probed lo lo)
    (hk : FirstRedAt verdict n k) : lo = min k n := by
  have hbound := h.bound
  have hpos := h.pos
  have hle : lo ≤ k := by
    rcases h.low with hone | ⟨-, hgreen⟩
    · have := hk.1
      omega
    · have := (hk.2 (lo - 1) (by omega)).mp hgreen
      omega
  rcases h.high with hend | ⟨-, hred⟩
  · omega
  · by_cases hlo : lo < n
    · have hnot : ¬ lo < k := fun hlt => by simp [(hk.2 lo hlo).mpr hlt] at hred
      omega
    · omega

end

theorem findCulprit_correct {verdict : Nat → ProbeVerdict} (hanswers : oracle.Answers history verdict) (s : σ) :
    (∀ k, FirstRedAt verdict history.len k →
      (k < history.len → ∃ outcome, (findCulprit oracle history s).1 = .ok outcome ∧ outcome.culpritIndex = k ∧
        outcome.culpritRef = history.tree k ∧ outcome.probedTrees.length ≤ Nat.clog 2 history.len) ∧
      ((findCulprit oracle history s).1 = .error .noRedTip ↔ ∀ i < history.len, verdict i = .green) ∧
      (oracle.Counts history → oracle.probeCount (findCulprit oracle history s).2 ≤
        oracle.probeCount s + Nat.clog 2 history.len)) ∧
    (∀ outcome, (findCulprit oracle history s).1 = .ok outcome →
      ∃ probed : List Nat, outcome.probedTrees = probed.map history.tree ∧ outcome.culpritIndex < history.len ∧
        outcome.culpritIndex ∈ probed ∧ verdict outcome.culpritIndex = .red ∧
        (outcome.culpritIndex - 1 = 0 ∨
          outcome.culpritIndex - 1 ∈ probed ∧ verdict (outcome.culpritIndex - 1) = .green)) := by
  rcases Nat.eq_zero_or_pos history.len with hzero | hpos
  · have hfind : findCulprit oracle history s = (.error .noRedTip, s) := by rw [findCulprit, if_pos hzero]
    rw [hfind]
    refine ⟨fun k hk => ⟨fun hlt => by omega, by simp [hzero], fun _ => Nat.le_add_right _ _⟩, fun outcome h => ?_⟩
    cases h
  · obtain ⟨lo, probed, hsearched, hlength, hnone, hsome, hcount⟩ := findCulprit_spec hanswers s hpos
    refine ⟨fun k hk => ⟨fun hlt => ?_, ⟨fun herror i hi => ?_, fun hgreen => ?_⟩, fun hcounts => ?_⟩,
      fun outcome h => ?_⟩
    · have hlo := hsearched.eq_firstRed hk
      obtain ⟨outcome, hok, hindex, href, -, htrees⟩ := hsome (by omega)
      obtain rfl : lo = k := by omega
      exact ⟨outcome, hok, hindex, href, by rw [htrees, List.length_map]; exact hlength⟩
    · have hlo := hsearched.eq_firstRed hk
      by_cases hlt : lo < history.len
      · obtain ⟨outcome, hok, -⟩ := hsome hlt
        rw [hok] at herror
        cases herror
      · exact (hk.2 i hi).mpr (by omega)
    · have hlo := hsearched.eq_firstRed hk
      have hlast := (hk.2 (history.len - 1) (by omega)).mp (hgreen _ (by omega))
      exact hnone (by omega)
    · rw [hcount hcounts]
      omega
    · have hbound := hsearched.bound
      have hlt : lo < history.len := by
        by_contra hge
        rw [hnone (by omega)] at h
        cases h
      obtain ⟨outcome', hok, rfl, -, -, htrees⟩ := hsome hlt
      obtain rfl : outcome' = outcome := Except.ok.inj (hok.symm.trans h)
      obtain ⟨hmem, hred⟩ := hsearched.high.resolve_left (by omega)
      exact ⟨probed, htrees, hlt, hmem, hred, hsearched.low.imp_left fun hone => by omega⟩

/-- An oracle that is red from an index on and counts its answers. -/
def redFrom (k : Nat) : CheckOracle Nat where
  probe := fun s _ i => (⟨if i < k then .green else .red, false⟩, s + 1)
  probeCount := id
  realExecutionCount := fun _ => 0

def fiveTrees : History :=
  ⟨["a", "b", "c", "d", "e"], "def", "toolchain"⟩

theorem fiveTrees_culprit : ∃ outcome, (findCulprit (redFrom 3) fiveTrees 0).1 = .ok outcome ∧
    outcome.culpritIndex = 3 ∧ outcome.culpritRef = "d" ∧ outcome.probedTrees.length ≤ 3 := by
  have hanswers : (redFrom 3).Answers fiveTrees fun i => if i < 3 then .green else .red := fun _ _ => rfl
  have hfirst : FirstRedAt (fun i => if i < 3 then .green else .red) fiveTrees.len 3 :=
    ⟨by decide, fun i _ => by by_cases hi : i < 3 <;> simp [hi]⟩
  have hclog : Nat.clog 2 fiveTrees.len = 3 := by
    rw [fiveTrees, History.len]
    norm_num
  obtain ⟨outcome, hok, hindex, href, hlength⟩ :=
    ((findCulprit_correct (redFrom 3) fiveTrees hanswers 0).1 3 hfirst).1 (by decide)
  exact ⟨outcome, hok, hindex, href, hclog ▸ hlength⟩

end Hugit
