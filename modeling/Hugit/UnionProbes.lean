import Hugit.UnionEvaluation

/-! The calls an evaluation makes, seen from a world that records them: what one
probe, the search for a failing set and the closure around them can leave. -/

namespace Hugit

def Observation.Inconclusive : Observation → Prop
  | clock _ => False
  | answered _ _ verdict => verdict ≠ .green ∧ verdict ≠ .red

/-- The calls show a green answer for exactly this list, with a clock before the
deadline on either side of it. -/
def AnsweredGreen (calls : List Observation) (deadline : Nat) (ids : List String) : Prop :=
  ∃ t t', t < deadline ∧ t' < deadline ∧
    [.clock t, .answered ids deadline .green, .clock t'] <:+: calls

theorem AnsweredGreen.append {calls : List Observation} {deadline : Nat} {ids : List String}
    (h : AnsweredGreen calls deadline ids) (more : List Observation) :
    AnsweredGreen (calls ++ more) deadline ids := by
  obtain ⟨t, t', ht, ht', hin⟩ := h
  exact ⟨t, t', ht, ht', hin.trans (List.prefix_append _ _).isInfix⟩

section

variable {ω ω' : Type} {w : World ω} {w' : World ω'} {f : ω' → ω}

/-- The second world is the first one seen through `f`, as far as an evaluation
can see. -/
structure World.Simulates (w' : World ω') (w : World ω) (f : ω' → ω) : Prop where
  now : ∀ s, w.now (f s) = Prod.map id f (w'.now s)
  evaluateBefore : ∀ ids deadline s,
    w.evaluateBefore ids deadline (f s) = Prod.map id f (w'.evaluateBefore ids deadline s)

theorem World.recorded_simulates (w : World ω) : w.recorded.Simulates w Prod.fst :=
  ⟨fun _ => rfl, fun _ _ _ => rfl⟩

def ProbeBudget.map (f : ω' → ω) (b : ProbeBudget ω') : ProbeBudget ω :=
  { b with world := f b.world }

theorem ProbeBudget.map_probe (hw : w'.Simulates w f) (b : ProbeBudget ω') (ids : List String) :
    (b.map f).probe w ids = Prod.map id (map f) (b.probe w' ids) := by
  simp only [probe, map, hw.now, hw.evaluateBefore, Prod.map_fst, Prod.map_snd, id]
  split_ifs
  · rfl
  · rfl
  · rfl
  · split <;> rfl

theorem probeEach_map (hw : w'.Simulates w f) (cands : List (List String × FailureLocus))
    (b : ProbeBudget ω') :
    probeEach w cands (b.map f) = Prod.map id (ProbeBudget.map f) (probeEach w' cands b) := by
  induction cands generalizing b with
  | nil => rfl
  | cons cand rest ih =>
    simp only [probeEach, ProbeBudget.map_probe hw]
    rcases b.probe w' cand.1 with ⟨_ | verdict, b'⟩
    · rfl
    · simp only [Prod.map_apply, id]
      split_ifs
      · rfl
      · exact ih b'

theorem diagnose_map (hw : w'.Simulates w f) (batch : Batch) (ev : UnionEvaluation)
    (b : ProbeBudget ω') :
    diagnose w batch ev (b.map f) =
      Prod.map id (Prod.map id (ProbeBudget.map f)) (diagnose w' batch ev b) := by
  simp only [diagnose, bisectFailure, ProbeBudget.map_probe hw]
  split_ifs
  · rfl
  · rfl
  rcases b.probe w' batch.ids with ⟨_ | verdict, b⟩
  · rfl
  simp only [Prod.map_apply, id, probeEach_map hw]
  split_ifs
  · rfl
  rcases probeEach w' _ b with ⟨_ | locus, b⟩
  · rfl
  simp only [Prod.map_apply, id]
  cases locus.excluded with
  | none => rfl
  | some excluded =>
    simp only [ProbeBudget.map_probe hw]
    split_ifs
    · rfl
    rcases b.probe w' _ with ⟨_ | verdict, b⟩
    · rfl
    simp only [Prod.map_apply, id]
    split_ifs <;> rfl

theorem conclude_map (hw : w'.Simulates w f) (batch : Batch) (ev : UnionEvaluation)
    (b : ProbeBudget ω') :
    conclude w batch ev (b.map f) = Prod.map id f (conclude w' batch ev b) := by
  simp only [conclude, ProbeBudget.map, hw.now, Prod.map_fst, Prod.map_snd, id]
  split_ifs <;> rfl

theorem evaluateUnionWithClock_map (hw : w'.Simulates w f) (batch : Batch)
    (limits : EvaluationLimits) (s : ω') :
    evaluateUnionWithClock w batch limits (f s) =
      Prod.map id f (evaluateUnionWithClock w' batch limits s) := by
  simp only [evaluateUnionWithClock, hw.now, Prod.map_fst, Prod.map_snd, id]
  cases checkedAdd (w'.now s).1 limits.timeout with
  | none => rfl
  | some deadline =>
    have hd := diagnose_map hw batch (.initial batch limits (w'.now s).1)
      ⟨limits, (w'.now s).1, deadline, 0, 0, true, (w'.now s).2⟩
    simp only [ProbeBudget.map] at hd
    simp only [hd, Prod.map_fst, Prod.map_snd, id]
    exact conclude_map hw batch _ _

end

section

variable {ω : Type} {w : World ω} {b b' : ProbeBudget (ω × List Observation)}

@[simp] theorem ProbeBudget.probe_deadline (w : World ω) (b : ProbeBudget ω) (ids : List String) :
    (b.probe w ids).2.deadline = b.deadline := by
  simp only [probe]
  split_ifs
  · rfl
  · rfl
  · rfl
  · split <;> rfl

theorem ProbeBudget.probe_cases (w : World ω) (b : ProbeBudget ω) (ids : List String) :
    let before := w.now b.world
    let answer := w.evaluateBefore ids b.deadline before.2
    let after := w.now answer.2
    (∃ e, (b.probe w ids).1 = .error e ∧ (b.probe w ids).2.world = before.2) ∨
    (before.1 < b.deadline ∧ (b.probe w ids).2.world = after.2 ∧
      ∀ verdict, (b.probe w ids).1 = .ok verdict →
        verdict = answer.1.1 ∧ (verdict = .green ∨ verdict = .red) ∧ after.1 < b.deadline) := by
  simp only [probe]
  split_ifs with h1 h2 h3
  · exact .inl ⟨_, rfl, rfl⟩
  · exact .inl ⟨_, rfl, rfl⟩
  · exact .inr ⟨not_le.mp h1, rfl, by simp⟩
  · refine .inr ⟨not_le.mp h1, ?_⟩
    split <;> simp_all

/-- The calls made from one budget to the other are those of a computation that
ended with `result`: an inconclusive answer among them ends in an error. -/
structure Probed {α : Type} (b b' : ProbeBudget (ω × List Observation))
    (result : Except EvaluationStop α) : Prop where
  deadline : b'.deadline = b.deadline
  calls : ∃ more, b'.world.2 = b.world.2 ++ more ∧
    ((∃ o ∈ more, o.Inconclusive) → ∃ e, result = .error e)

theorem Probed.refl {α : Type} (b : ProbeBudget (ω × List Observation))
    (result : Except EvaluationStop α) : Probed b b result :=
  ⟨rfl, [], by simp, by simp⟩

theorem Probed.trans {α β : Type} {b'' : ProbeBudget (ω × List Observation)} {a : α}
    {result : Except EvaluationStop β} (h : Probed b b' (.ok a : Except EvaluationStop α))
    (h' : Probed b' b'' result) : Probed b b'' result := by
  obtain ⟨hd, more, hm, hok⟩ := h
  obtain ⟨hd', more', hm', hres⟩ := h'
  refine ⟨hd'.trans hd, more ++ more', by rw [hm', hm, List.append_assoc], ?_⟩
  rintro ⟨o, ho, hi⟩
  rcases List.mem_append.mp ho with ho | ho
  · obtain ⟨e, he⟩ := hok ⟨o, ho, hi⟩
    cases he
  · exact hres ⟨o, ho, hi⟩

theorem Probed.of_error {α β : Type} {e : EvaluationStop}
    (h : Probed b b' (.error e : Except EvaluationStop α)) :
    Probed b b' (.error e : Except EvaluationStop β) := by
  obtain ⟨hd, more, hm, _⟩ := h
  exact ⟨hd, more, hm, fun _ => ⟨e, rfl⟩⟩

theorem Probed.of_ok {α β : Type} {a : α} (h : Probed b b' (.ok a : Except EvaluationStop α))
    (result : Except EvaluationStop β) : Probed b b' result :=
  h.trans (.refl b' result)

theorem ProbeBudget.probe_probed {ids : List String} {result : Except EvaluationStop UnionVerdict}
    (h : b.probe w.recorded ids = (result, b')) : Probed b b' result := by
  have hd := probe_deadline w.recorded b ids
  have hc := probe_cases w.recorded b ids
  simp only [h] at hd hc
  rcases hc with ⟨e, rfl, hworld⟩ | ⟨_, hworld, hok⟩
  · exact ⟨hd, _, by rw [hworld]; rfl, fun _ => ⟨e, rfl⟩⟩
  · refine ⟨hd, _, by rw [hworld]; simp only [World.recorded, List.append_assoc]; rfl, ?_⟩
    rintro ⟨o, ho, hi⟩
    cases result with
    | error e => exact ⟨e, rfl⟩
    | ok verdict =>
      obtain ⟨hv, hgr, _⟩ := hok verdict rfl
      simp only [List.cons_append, List.nil_append, List.mem_cons, List.not_mem_nil, or_false] at ho
      rcases ho with rfl | rfl | rfl
      · exact hi.elim
      · rcases hgr with hg | hr
        · exact (hi.1 (hv.symm.trans hg)).elim
        · exact (hi.2 (hv.symm.trans hr)).elim
      · exact hi.elim

theorem ProbeBudget.probe_green {ids : List String}
    (h : b.probe w.recorded ids = (.ok .green, b')) :
    AnsweredGreen b'.world.2 b'.deadline ids := by
  have hd := probe_deadline w.recorded b ids
  have hc := probe_cases w.recorded b ids
  simp only [h] at hd hc
  rcases hc with ⟨e, he, _⟩ | ⟨ht, hworld, hok⟩
  · cases he
  · obtain ⟨hv, _, ht'⟩ := hok .green rfl
    rw [hworld, hd]
    refine ⟨_, _, ht, ht', b.world.2, [], ?_⟩
    rw [show UnionVerdict.green = _ from hv]
    simp [World.recorded]

theorem probeEach_probed (cands : List (List String × FailureLocus))
    {result : Except EvaluationStop FailureLocus}
    (h : probeEach w.recorded cands b = (result, b')) : Probed b b' result := by
  induction cands generalizing b with
  | nil =>
    obtain ⟨rfl, rfl⟩ := Prod.mk.inj h
    exact .refl _ _
  | cons cand rest ih =>
    simp only [probeEach] at h
    rcases hp : b.probe w.recorded cand.1 with ⟨e | verdict, b1⟩
    · simp only [hp, Prod.mk.injEq] at h
      obtain ⟨rfl, rfl⟩ := h
      exact (ProbeBudget.probe_probed hp).of_error
    · simp only [hp] at h
      split_ifs at h
      · obtain ⟨rfl, rfl⟩ := Prod.mk.inj h
        exact (ProbeBudget.probe_probed hp).of_ok _
      · exact (ProbeBudget.probe_probed hp).trans (ih h)

theorem probeEach_locus {w : World ω} {b b' : ProbeBudget ω}
    (cands : List (List String × FailureLocus)) {locus : FailureLocus}
    (h : probeEach w cands b = (.ok locus, b')) :
    locus = .unlocalised ∨ ∃ ids, (ids, locus) ∈ cands := by
  induction cands generalizing b with
  | nil =>
    simp only [probeEach, Prod.mk.injEq, Except.ok.injEq] at h
    exact .inl h.1.symm
  | cons cand rest ih =>
    simp only [probeEach] at h
    rcases hp : b.probe w cand.1 with ⟨e | verdict, b1⟩
    · simp [hp] at h
    · simp only [hp] at h
      split_ifs at h
      · simp only [Prod.mk.injEq, Except.ok.injEq] at h
        exact .inr ⟨cand.1, by simp [← h.1]⟩
      · rcases ih h with hl | ⟨ids, hl⟩
        · exact .inl hl
        · exact .inr ⟨ids, List.mem_cons_of_mem _ hl⟩

end

theorem excluded_of_mem_singles {ids probed : List String} {locus : FailureLocus}
    (h : (probed, locus) ∈ singles ids) :
    ∃ excluded, locus.excluded = some excluded ∧ excluded.Sublist ids := by
  obtain ⟨id, hid, heq⟩ := List.mem_map.mp h
  obtain ⟨rfl, rfl⟩ := Prod.mk.inj heq
  exact ⟨[id], rfl, List.singleton_sublist.mpr hid⟩

theorem excluded_of_mem_pairs {ids probed : List String} {locus : FailureLocus}
    (h : (probed, locus) ∈ pairs ids) :
    ∃ excluded, locus.excluded = some excluded ∧ excluded.Sublist ids := by
  induction ids with
  | nil => cases h
  | cons a rest ih =>
    rcases List.mem_append.mp h with h | h
    · obtain ⟨b, hb, heq⟩ := List.mem_map.mp h
      obtain ⟨rfl, rfl⟩ := Prod.mk.inj heq
      exact ⟨[a, b], rfl, (List.singleton_sublist.mpr hb).cons_cons a⟩
    · obtain ⟨excluded, he, hs⟩ := ih h
      exact ⟨excluded, he, hs.cons a⟩

theorem bisectFailure_excluded {ω : Type} {w : World ω} {b b' : ProbeBudget ω} {ids : List String}
    {locus : FailureLocus} (h : bisectFailure w ids b = (.ok locus, b')) {excluded : List String}
    (he : locus.excluded = some excluded) : excluded.Sublist ids := by
  rcases probeEach_locus _ h with rfl | ⟨probed, hp⟩
  · cases he
  · have hx : ∃ x, locus.excluded = some x ∧ x.Sublist ids := by
      rcases List.mem_append.mp hp with hp | hp
      · exact excluded_of_mem_singles hp
      · exact excluded_of_mem_pairs hp
    obtain ⟨x, hx, hs⟩ := hx
    rw [he, Option.some.injEq] at hx
    exact hx ▸ hs

end Hugit
