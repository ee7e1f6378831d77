import Hugit.UnionProbes
import Mathlib.Data.Nat.Choose.Basic
import Mathlib.Data.Prod.Lex

/-! The search for the culprit of a red batch: what the set it names says about
the oracle, and how many calls the whole evaluation makes. -/

namespace Hugit

/-- An oracle that answers red or green by the set alone. -/
def World.Answers {ω : Type} (w : World ω) (red : List String → Bool) : Prop :=
  ∀ ids deadline s, (w.evaluateBefore ids deadline s).1.1 = if red ids then .red else .green

def probeBound (n : Nat) : Nat := 2 + n + n * (n - 1) / 2

structure Unlimited {ω : Type} (w : World ω) (batch : Batch) (limits : EvaluationLimits) (s : ω) : Prop where
  time : ∃ deadline, checkedAdd (w.now s).1 limits.timeout = some deadline ∧ ∀ s', (w.now s').1 < deadline
  probes : probeBound batch.ids.length ≤ limits.maxProbes

structure Batch.Failing (batch : Batch) (red : List String → Bool) : Prop where
  ordered : batch.isQueueOrdered = true
  nodup : batch.ids.Nodup
  named : "" ∉ batch.ids
  nonempty : batch.ids ≠ []
  red : red batch.ids = true

def FirstRedPair (red : List String → Bool) (ids : List String) (a b : String) : Prop :=
  ∃ i j : Nat, i < j ∧ ids[i]? = some a ∧ ids[j]? = some b ∧ red [a, b] = true ∧
    ∀ (i' j' : Nat) x y, i' < j' → ids[i']? = some x → ids[j']? = some y →
      Prod.Lex (· < ·) (· < ·) (i', j') (i, j) → red [x, y] = false

def MinimalCulprit (red : List String → Bool) (ids : List String) : FailureLocus → Prop
  | .singleItem id => ∃ before after, ids = before ++ id :: after ∧ red [id] = true ∧
      ∀ x ∈ before, red [x] = false
  | .pair p => (∀ x ∈ ids, red [x] = false) ∧ FirstRedPair red ids p.itemA p.itemB
  | .unlocalised => (∀ x ∈ ids, red [x] = false) ∧
      ∀ (i j : Nat) x y, i < j → ids[i]? = some x → ids[j]? = some y → red [x, y] = false

/-! The first red set of a list of candidates. -/

section

variable {red : List String → Bool}

theorem find_singles {ids : List String} {c : List String × FailureLocus}
    (h : (singles ids).find? (fun c => red c.1) = some c) : MinimalCulprit red ids c.2 := by
  obtain ⟨hred, before, after, hsplit, hbefore⟩ := List.find?_eq_some_iff_append.mp h
  obtain ⟨pre, suf, rfl, hpre, hsuf⟩ := List.map_eq_append_iff.mp hsplit
  obtain ⟨id, rest, rfl, rfl, -⟩ := List.map_eq_cons_iff.mp hsuf
  refine ⟨pre, rest, rfl, hred, fun x hx => ?_⟩
  have hx' : ([x], FailureLocus.singleItem x) ∈ before := by
    rw [← hpre]
    exact List.mem_map_of_mem hx
  simpa using hbefore _ hx'

theorem find_singles_none {ids : List String} (h : (singles ids).find? (fun c => red c.1) = none) :
    ∀ x ∈ ids, red [x] = false := by
  intro x hx
  have hh := List.find?_eq_none.mp h ([x], .singleItem x) (List.mem_map_of_mem hx)
  simpa using hh

theorem find_pairs_none {ids : List String} (h : (pairs ids).find? (fun c => red c.1) = none) :
    ∀ (i j : Nat) x y, i < j → ids[i]? = some x → ids[j]? = some y → red [x, y] = false := by
  induction ids with
  | nil =>
    intro i j x y _ hi
    simp at hi
  | cons a rest ih =>
    rw [pairs, List.find?_append, Option.or_eq_none_iff] at h
    intro i j x y hij hi hj
    obtain ⟨j, rfl⟩ := Nat.exists_eq_succ_of_ne_zero (Nat.ne_zero_of_lt hij)
    rw [List.getElem?_cons_succ] at hj
    cases i with
    | zero =>
      obtain rfl : a = x := by simpa using hi
      have hh := List.find?_eq_none.mp h.1 ([a, y], .pair ⟨a, y⟩)
        (List.mem_map_of_mem (List.mem_of_getElem? hj))
      simpa using hh
    | succ i =>
      rw [List.getElem?_cons_succ] at hi
      exact ih h.2 i j x y (by omega) hi hj

theorem find_pairs {ids : List String} {c : List String × FailureLocus}
    (h : (pairs ids).find? (fun c => red c.1) = some c) :
    ∃ a b, c.2 = .pair ⟨a, b⟩ ∧ FirstRedPair red ids a b := by
  induction ids with
  | nil => simp [pairs] at h
  | cons a rest ih =>
    rw [pairs, List.find?_append] at h
    cases hfirst : (rest.map fun b => ([a, b], FailureLocus.pair ⟨a, b⟩)).find? (fun c => red c.1) with
    | some c' =>
      rw [hfirst, Option.some_or, Option.some.injEq] at h
      subst h
      obtain ⟨hred, before, after, hsplit, hbefore⟩ := List.find?_eq_some_iff_append.mp hfirst
      obtain ⟨pre, suf, rfl, hpre, hsuf⟩ := List.map_eq_append_iff.mp hsplit
      obtain ⟨b, post, rfl, rfl, -⟩ := List.map_eq_cons_iff.mp hsuf
      refine ⟨a, b, rfl, 0, pre.length + 1, by omega, rfl, by simp, hred, ?_⟩
      intro i' j' x y hij hi hj hlex
      rcases Prod.lex_def.mp hlex with hlt | ⟨hi0, hlt⟩
      · exact absurd hlt (Nat.not_lt_zero _)
      · -- the pairs before this one start with the same member
        obtain rfl : i' = 0 := hi0
        obtain ⟨j, rfl⟩ := Nat.exists_eq_succ_of_ne_zero (Nat.ne_zero_of_lt hij)
        obtain rfl : a = x := by simpa using hi
        have hlt : j < pre.length := Nat.lt_of_succ_lt_succ hlt
        rw [List.getElem?_cons_succ, List.getElem?_append_left hlt] at hj
        have hy : ([a, y], FailureLocus.pair ⟨a, y⟩) ∈ before := by
          rw [← hpre]
          exact List.mem_map_of_mem (List.mem_of_getElem? hj)
        simpa using hbefore _ hy
    | none =>
      rw [hfirst, Option.none_or] at h
      obtain ⟨x, y, hc, i, j, hij, hi, hj, hred, hmin⟩ := ih h
      refine ⟨x, y, hc, i + 1, j + 1, by omega, by simpa using hi, by simpa using hj, hred, ?_⟩
      intro i' j' x' y' hij' hi' hj' hlex
      obtain ⟨j', rfl⟩ := Nat.exists_eq_succ_of_ne_zero (Nat.ne_zero_of_lt hij')
      rw [List.getElem?_cons_succ] at hj'
      cases i' with
      | zero =>
        obtain rfl : a = x' := by simpa using hi'
        have hh := List.find?_eq_none.mp hfirst ([a, y'], .pair ⟨a, y'⟩)
          (List.mem_map_of_mem (List.mem_of_getElem? hj'))
        simpa using hh
      | succ i' =>
        rw [List.getElem?_cons_succ] at hi'
        refine hmin i' j' x' y' (by omega) hi' hj' (Prod.lex_def.mpr ?_)
        have hh := Prod.lex_def.mp hlex
        dsimp only at hh ⊢
        omega

theorem minimalCulprit_find (red : List String → Bool) (ids : List String) :
    MinimalCulprit red ids ((((singles ids ++ pairs ids).find? fun c => red c.1).map Prod.snd).getD
      .unlocalised) := by
  rw [List.find?_append]
  cases hs : (singles ids).find? (fun c => red c.1) with
  | some c => exact find_singles hs
  | none =>
    have hsingles := find_singles_none hs
    cases hp : (pairs ids).find? (fun c => red c.1) with
    | none => exact ⟨hsingles, find_pairs_none hp⟩
    | some c =>
      obtain ⟨a, b, hc, hfirst⟩ := find_pairs hp
      simp only [Option.none_or, Option.map_some, Option.getD_some, hc]
      exact ⟨hsingles, hfirst⟩

theorem length_pairs (ids : List String) : (pairs ids).length = ids.length * (ids.length - 1) / 2 := by
  rw [← Nat.choose_two_right]
  induction ids with
  | nil => rfl
  | cons a rest ih =>
    rw [pairs, List.length_append, List.length_map, ih, List.length_cons, Nat.choose_succ_succ',
      Nat.choose_one_right]

theorem length_candidates (ids : List String) : (singles ids ++ pairs ids).length + 2 = probeBound ids.length := by
  rw [List.length_append, length_pairs, singles, List.length_map, probeBound]
  omega

end

section

variable {ω : Type} {w : World ω} {red : List String → Bool}

theorem ProbeBudget.verdict_of_probe (hw : w.Answers red) {b b' : ProbeBudget ω} {ids : List String}
    {verdict : UnionVerdict} (h : b.probe w ids = (.ok verdict, b')) :
    verdict = if red ids then .red else .green := by
  have hc := probe_cases w b ids
  simp only [h] at hc
  rcases hc with ⟨e, he, _⟩ | ⟨_, _, hok⟩
  · cases he
  · exact (hok verdict rfl).1.trans (hw _ _ _)

theorem locus_of_probeEach (hw : w.Answers red) (cands : List (List String × FailureLocus))
    {b b' : ProbeBudget ω} {locus : FailureLocus} (h : probeEach w cands b = (.ok locus, b')) :
    locus = ((cands.find? fun c => red c.1).map Prod.snd).getD .unlocalised := by
  induction cands generalizing b with
  | nil =>
    simp only [probeEach, Prod.mk.injEq, Except.ok.injEq] at h
    exact h.1.symm
  | cons cand rest ih =>
    simp only [probeEach] at h
    rcases hp : b.probe w cand.1 with ⟨e | verdict, b1⟩
    · simp [hp] at h
    · simp only [hp] at h
      have hv := ProbeBudget.verdict_of_probe hw hp
      cases hr : red cand.1 with
      | true =>
        rw [hr, if_pos rfl] at hv
        rw [if_pos hv, Prod.mk.injEq, Except.ok.injEq] at h
        simp [hr, h.1]
      | false =>
        rw [hr, if_neg Bool.false_ne_true] at hv
        rw [if_neg (by simp [hv])] at h
        rw [ih h, List.find?_cons_of_neg (by simp [hr])]

structure ProbeBudget.Ample (w : World ω) (b : ProbeBudget ω) (n : Nat) : Prop where
  time : ∀ s, (w.now s).1 < b.deadline
  probes : b.probes + n ≤ b.limits.maxProbes

theorem ProbeBudget.Ample.probe (hw : w.Answers red) {b : ProbeBudget ω} {n : Nat} (h : b.Ample w (n + 1))
    (ids : List String) : ∃ verdict b', b.probe w ids = (.ok verdict, b') ∧ b'.Ample w n := by
  have hprobes := h.probes
  rw [ProbeBudget.probe, if_neg (not_le.mpr (h.time _)), if_neg (by omega)]
  dsimp only
  rw [if_neg (not_le.mpr (h.time _)), hw]
  have hnext : b.probes + 1 + n ≤ b.limits.maxProbes := by omega
  cases red ids with
  | true => exact ⟨_, _, rfl, h.time, hnext⟩
  | false => exact ⟨_, _, rfl, h.time, hnext⟩

theorem ProbeBudget.Ample.probeEach (hw : w.Answers red) (cands : List (List String × FailureLocus))
    {b : ProbeBudget ω} (h : b.Ample w cands.length) :
    ∃ locus b', Hugit.probeEach w cands b = (.ok locus, b') := by
  induction cands generalizing b with
  | nil => exact ⟨_, _, rfl⟩
  | cons cand rest ih =>
    obtain ⟨verdict, b', hp, hb'⟩ := h.probe hw cand.1
    simp only [Hugit.probeEach, hp]
    by_cases hv : verdict = .red
    · exact ⟨_, _, if_pos hv⟩
    · rw [if_neg hv]
      exact ih hb'

theorem diagnose_failure {batch : Batch} (hb : batch.Failing red) {ev : UnionEvaluation}
    {b b₁ b₂ : ProbeBudget ω} {locus : FailureLocus} (hwhole : b.probe w batch.ids = (.ok .red, b₁))
    (hlocus : bisectFailure w batch.ids b₁ = (.ok locus, b₂)) :
    (diagnose w batch ev b).2.1.failure = some locus := by
  have hany : batch.ids.any (· == "") = false := by
    rw [List.any_eq_false]
    intro id hid
    rw [beq_iff_eq]
    exact fun he => hb.named (he ▸ hid)
  have hne : batch.ids.isEmpty = false := List.isEmpty_eq_false_iff.mpr hb.nonempty
  have hvalid : (!batch.isQueueOrdered || !decide batch.ids.Nodup || batch.ids.any (· == "")) = false := by
    rw [hb.ordered, decide_eq_true hb.nodup, hany]
    rfl
  rw [diagnose, if_neg (by simp [hvalid]), if_neg (by simp [hne]), hwhole]
  dsimp only
  rw [if_neg (by decide), hlocus]
  dsimp only
  cases locus.excluded with
  | none => rfl
  | some excluded =>
    dsimp only
    split_ifs
    · rfl
    rcases b₂.probe w _ with ⟨e | verdict, b₃⟩
    · rfl
    dsimp only
    split_ifs <;> rfl

theorem UnionEvaluation.close_failure (ev : UnionEvaluation) (result : Except EvaluationStop Unit) :
    (ev.close result).failure = ev.failure := by
  cases result <;> rfl

theorem conclude_failure (batch : Batch) (ev : UnionEvaluation) (b : ProbeBudget ω) :
    (conclude w batch ev b).1.failure = ev.failure := by
  simp only [conclude]
  split_ifs <;> rfl

theorem failure_minimal (hw : w.Answers red) {batch : Batch} (hb : batch.Failing red)
    {limits : EvaluationLimits} {s : ω} (hu : Unlimited w batch limits s) :
    ∃ locus, (evaluateUnionWithClock w batch limits s).1.failure = some locus ∧
      MinimalCulprit red batch.ids locus := by
  obtain ⟨deadline, hadd, htime⟩ := hu.time
  have hprobes := hu.probes
  have hlen := length_candidates batch.ids
  have hample : ProbeBudget.Ample w ⟨limits, (w.now s).1, deadline, 0, 0, true, (w.now s).2⟩
      ((singles batch.ids ++ pairs batch.ids).length + 1) := ⟨htime, by dsimp only; omega⟩
  obtain ⟨verdict, b₁, hwhole, hb₁⟩ := hample.probe hw batch.ids
  obtain rfl : verdict = .red := by rw [ProbeBudget.verdict_of_probe hw hwhole, hb.red, if_pos rfl]
  obtain ⟨locus, b₂, hlocus⟩ := hb₁.probeEach hw
  refine ⟨locus, ?_, ?_⟩
  · simp only [evaluateUnionWithClock, hadd]
    rw [conclude_failure, UnionEvaluation.close_failure]
    exact diagnose_failure hb hwhole hlocus
  · rw [locus_of_probeEach hw _ hlocus]
    exact minimalCulprit_find red batch.ids

end

/-! The calls. -/

def Observation.isCall : Observation → Bool
  | clock _ => false
  | answered _ _ _ => true

def oracleCalls (calls : List Observation) : Nat :=
  calls.countP Observation.isCall

section

variable {ω : Type} {w : World ω} {b b' b'' : ProbeBudget (ω × List Observation)}

@[simp] theorem oracleCalls_now (w : World ω) (s : ω × List Observation) :
    oracleCalls (w.recorded.now s).2.2 = oracleCalls s.2 := by
  simp [World.recorded, oracleCalls, Observation.isCall]

@[simp] theorem oracleCalls_evaluateBefore (w : World ω) (ids : List String) (deadline : Nat)
    (s : ω × List Observation) :
    oracleCalls (w.recorded.evaluateBefore ids deadline s).2.2 = oracleCalls s.2 + 1 := by
  simp [World.recorded, oracleCalls, Observation.isCall]

/-- Between the two budgets the oracle was asked at most `bound` times, every
call was counted and none was beyond the budget. -/
def Spent (b b' : ProbeBudget (ω × List Observation)) (bound : Nat) : Prop :=
  b'.limits = b.limits ∧ ∃ k ≤ bound, b'.probes = b.probes + k ∧
    oracleCalls b'.world.2 = oracleCalls b.world.2 + k ∧ (k = 0 ∨ b'.probes ≤ b.limits.maxProbes)

theorem Spent.refl (b : ProbeBudget (ω × List Observation)) : Spent b b 0 :=
  ⟨rfl, 0, Nat.le_refl _, rfl, rfl, .inl rfl⟩

theorem Spent.trans {m n : Nat} (h : Spent b b' m) (h' : Spent b' b'' n) : Spent b b'' (m + n) := by
  obtain ⟨hl, k, hk, hp, hc, hmax⟩ := h
  obtain ⟨hl', k', hk', hp', hc', hmax'⟩ := h'
  rw [hl] at hmax'
  refine ⟨hl'.trans hl, k + k', by omega, by omega, by omega, ?_⟩
  omega

theorem Spent.mono {m n : Nat} (h : Spent b b' m) (hmn : m ≤ n) : Spent b b' n := by
  obtain ⟨hl, k, hk, hrest⟩ := h
  exact ⟨hl, k, hk.trans hmn, hrest⟩

theorem ProbeBudget.probe_spent {ids : List String} {result : Except EvaluationStop UnionVerdict}
    (h : b.probe w.recorded ids = (result, b')) : Spent b b' 1 := by
  obtain rfl : (b.probe w.recorded ids).2 = b' := congrArg Prod.snd h
  simp only [probe]
  split_ifs with h1 h2 h3
  · exact ⟨rfl, 0, Nat.zero_le _, rfl, by simp, .inl rfl⟩
  · exact ⟨rfl, 0, Nat.zero_le _, rfl, by simp, .inl rfl⟩
  · exact ⟨rfl, 1, Nat.le_refl _, rfl, by simp, .inr (Nat.lt_of_not_le h2)⟩
  · split <;> exact ⟨rfl, 1, Nat.le_refl _, rfl, by simp, .inr (Nat.lt_of_not_le h2)⟩

theorem probeEach_spent (cands : List (List String × FailureLocus))
    {result : Except EvaluationStop FailureLocus} (h : probeEach w.recorded cands b = (result, b')) :
    Spent b b' cands.length := by
  induction cands generalizing b with
  | nil =>
    obtain ⟨-, rfl⟩ := Prod.mk.inj h
    exact .refl b
  | cons cand rest ih =>
    simp only [probeEach] at h
    rcases hp : b.probe w.recorded cand.1 with ⟨e | verdict, b₁⟩
    · simp only [hp, Prod.mk.injEq] at h
      obtain ⟨-, rfl⟩ := h
      exact (ProbeBudget.probe_spent hp).mono (by simp)
    · simp only [hp] at h
      split_ifs at h
      · obtain ⟨-, rfl⟩ := Prod.mk.inj h
        exact (ProbeBudget.probe_spent hp).mono (by simp)
      · exact ((ProbeBudget.probe_spent hp).trans (ih h)).mono (by simp [Nat.add_comm])

theorem diagnose_spent (w : World ω) (batch : Batch) (ev : UnionEvaluation)
    (b : ProbeBudget (ω × List Observation)) :
    Spent b (diagnose w.recorded batch ev b).2.2 (probeBound batch.ids.length) := by
  have hlen := length_candidates batch.ids
  simp only [diagnose, bisectFailure]
  split_ifs
  · exact (Spent.refl b).mono (Nat.zero_le _)
  · exact (Spent.refl b).mono (Nat.zero_le _)
  rcases hwhole : b.probe w.recorded batch.ids with ⟨e | verdict, b₁⟩
  · exact (ProbeBudget.probe_spent hwhole).mono (by omega)
  dsimp only
  split_ifs
  · exact (ProbeBudget.probe_spent hwhole).mono (by omega)
  rcases hsearch : probeEach w.recorded (singles batch.ids ++ pairs batch.ids) b₁ with ⟨e | locus, b₂⟩
  · exact ((ProbeBudget.probe_spent hwhole).trans (probeEach_spent _ hsearch)).mono (by omega)
  have hspent := (ProbeBudget.probe_spent hwhole).trans (probeEach_spent _ hsearch)
  dsimp only
  cases locus.excluded with
  | none => exact hspent.mono (by omega)
  | some excluded =>
    dsimp only
    split_ifs
    · exact hspent.mono (by omega)
    rcases hrest : b₂.probe w.recorded _ with ⟨e | verdict, b₃⟩
    · exact (hspent.trans (ProbeBudget.probe_spent hrest)).mono (by omega)
    · dsimp only
      split_ifs <;> exact (hspent.trans (ProbeBudget.probe_spent hrest)).mono (by omega)

theorem conclude_counts (w : World ω) (batch : Batch) (ev : UnionEvaluation)
    (b : ProbeBudget (ω × List Observation)) :
    (conclude w.recorded batch ev b).1.probeCount = b.probes ∧
      oracleCalls (conclude w.recorded batch ev b).2.2 = oracleCalls b.world.2 := by
  simp only [conclude]
  split_ifs <;> exact ⟨rfl, by simp⟩

theorem probeCount_recorded (w : World ω) (batch : Batch) (limits : EvaluationLimits) (s : ω) :
    let run := evaluateUnionWithClock w.recorded batch limits (s, [])
    run.1.probeCount = oracleCalls run.2.2 ∧ run.1.probeCount ≤ limits.maxProbes ∧
      run.1.probeCount ≤ probeBound batch.ids.length := by
  simp only [evaluateUnionWithClock]
  cases checkedAdd (w.recorded.now (s, [])).1 limits.timeout with
  | none => exact ⟨rfl, Nat.zero_le _, Nat.zero_le _⟩
  | some deadline =>
    dsimp only
    obtain ⟨-, k, hk, hp, hc, hmax⟩ := diagnose_spent w batch
      (.initial batch limits (w.recorded.now (s, [])).1)
      ⟨limits, (w.recorded.now (s, [])).1, deadline, 0, 0, true, (w.recorded.now (s, [])).2⟩
    rw [oracleCalls_now] at hc
    rw [(conclude_counts w batch _ _).1, (conclude_counts w batch _ _).2, hp, hc]
    dsimp only at hp hmax
    refine ⟨rfl, ?_, ?_⟩ <;> dsimp only <;> omega

end

/-- The culprit of a red batch under unlimited budget is minimal, and whatever
the oracle and the budget, the probes reported are the calls made. -/
theorem bisection_minimal :
    (∀ {ω : Type} (w : World ω) (red : List String → Bool) (batch : Batch) (limits : EvaluationLimits) (s : ω),
      w.Answers red → batch.Failing red → Unlimited w batch limits s →
        ∃ locus, (evaluateUnionWithClock w batch limits s).1.failure = some locus ∧
          MinimalCulprit red batch.ids locus) ∧
    ∀ {ω : Type} (w : World ω) (batch : Batch) (limits : EvaluationLimits) (s : ω),
      (evaluateUnionWithClock w batch limits s).1.probeCount =
          oracleCalls (evaluateUnionWithClock w.recorded batch limits (s, [])).2.2 ∧
        (evaluateUnionWithClock w batch limits s).1.probeCount ≤ limits.maxProbes ∧
        (evaluateUnionWithClock w batch limits s).1.probeCount ≤
          2 + batch.ids.length + batch.ids.length * (batch.ids.length - 1) / 2 := by
  refine ⟨fun w red batch limits s hw hb hu => failure_minimal hw hb hu, fun w batch limits s => ?_⟩
  have hmap := congrArg Prod.fst (evaluateUnionWithClock_map w.recorded_simulates batch limits (s, []))
  simp only [Prod.map_fst, id] at hmap
  rw [hmap]
  exact probeCount_recorded w batch limits s

def clash (ids : List String) : Bool := "a" ∈ ids && "c" ∈ ids

def clashWorld : World Unit where
  now _ := (0, ())
  evaluateBefore ids _ _ := ((if clash ids then .red else .green, []), ())
  evaluateInContext ids _ _ _ := ((if clash ids then .red else .green, []), ())

def clashBatch : Batch :=
  ⟨"batch", [("a", 0), ("b", 1), ("c", 2)].map fun e => .new ⟨e.1, e.1, e.1, e.2⟩ []⟩

theorem clash_named :
    (∃ locus, (evaluateUnionWithClock clashWorld clashBatch ⟨8, 1⟩ ()).1.failure = some locus ∧
      MinimalCulprit clash clashBatch.ids locus) ∧
    (evaluateUnionWithClock clashWorld clashBatch ⟨8, 1⟩ ()).1.failure = some (.pair ⟨"a", "c"⟩) ∧
    (evaluateUnionWithClock clashWorld clashBatch ⟨8, 1⟩ ()).1.probeCount = 7 :=
  ⟨bisection_minimal.1 clashWorld clash clashBatch ⟨8, 1⟩ () (fun _ _ _ => rfl)
    ⟨by decide, by decide, by decide, by decide, by decide⟩ ⟨⟨1, by decide, fun _ => Nat.one_pos⟩, by decide⟩,
    by decide +kernel, by decide +kernel⟩

end Hugit
