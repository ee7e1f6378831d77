import Hugit.UnionProbes

/-! What an evaluation authorizes: the members that may proceed are a list the
oracle was asked about in this evaluation and found green in time. -/

namespace Hugit

theorem filter_mem_of_sublist {l m : List String} (h : l.Sublist m) (hn : m.Nodup) :
    m.filter (· ∈ l) = l := by
  induction h with
  | slnil => rfl
  | @cons l m a h ih =>
    obtain ⟨ha, hn⟩ := List.nodup_cons.mp hn
    rw [List.filter_cons_of_neg (by simpa using fun hl => ha (h.subset hl)), ih hn]
  | @cons_cons l m a h ih =>
    obtain ⟨ha, hn⟩ := List.nodup_cons.mp hn
    have hcongr : m.filter (· ∈ a :: l) = m.filter (· ∈ l) :=
      List.filter_congr fun x hx => by simp [show x ≠ a from fun he => ha (he ▸ hx)]
    rw [List.filter_cons_of_pos (by simp), hcongr, ih hn]

theorem remainder_perm {excluded ids : List String} (h : excluded.Sublist ids) (hn : ids.Nodup) :
    (ids.filter (· ∉ excluded) ++ excluded).Perm ids := by
  have hparts := List.filter_append_perm (· ∈ excluded) ids
  rw [filter_mem_of_sublist h hn] at hparts
  exact List.perm_append_comm.trans (by simpa using hparts)

def Batch.Evaluable (batch : Batch) : Prop :=
  batch.isQueueOrdered = true ∧ batch.ids.Nodup ∧ "" ∉ batch.ids

/-- What the closure leaves when it ends with `result`. -/
structure Diagnosed {ω : Type} (batch : Batch) (b b' : ProbeBudget (ω × List Observation))
    (ev ev' : UnionEvaluation) (result : Except EvaluationStop Unit) : Prop where
  probed : Probed b b' result
  evaluated : ev'.evaluatedMembers = ev.evaluatedMembers
  running : ev'.stopReason = ev.stopReason
  limit : ev'.validUntil = ev.validUntil
  evaluable : result = .ok () → batch.Evaluable
  green : result = .ok () → ev'.proceeding ≠ [] →
    AnsweredGreen b'.world.2 b'.deadline ev'.proceeding
  parts : result = .ok () → (ev'.proceeding ++ ev'.held ++ ev'.excludedMembers).Perm batch.ids
  ordered : result = .ok () →
    ev'.proceeding.Sublist batch.ids ∧ ev'.excludedMembers.Sublist batch.ids

theorem Diagnosed.of_error {ω : Type} {batch : Batch} {b b' : ProbeBudget (ω × List Observation)}
    {ev ev' : UnionEvaluation} {e : EvaluationStop}
    (hp : Probed b b' (.error e : Except EvaluationStop Unit))
    (hev : ev'.evaluatedMembers = ev.evaluatedMembers) (hstop : ev'.stopReason = ev.stopReason)
    (hlimit : ev'.validUntil = ev.validUntil) : Diagnosed batch b b' ev ev' (.error e) :=
  ⟨hp, hev, hstop, hlimit, nofun, nofun, nofun, nofun⟩

section

variable {ω : Type} {w : World ω} {batch : Batch} {b b' : ProbeBudget (ω × List Observation)}
  {ev ev' : UnionEvaluation} {limits : EvaluationLimits} {start : Nat}
  {result : Except EvaluationStop Unit}

theorem Batch.evaluable_iff :
    (!batch.isQueueOrdered || !decide batch.ids.Nodup || batch.ids.any (· == "")) = false ↔
      batch.Evaluable := by
  simp [Batch.Evaluable, and_assoc, List.forall_mem_ne']

theorem diagnose_spec
    (h : diagnose w.recorded batch (.initial batch limits start) b = (result, ev', b')) :
    Diagnosed batch b b' (.initial batch limits start) ev' result := by
  simp only [diagnose] at h
  split_ifs at h with hvalid hempty
  · simp only [Prod.mk.injEq] at h
    obtain ⟨rfl, rfl, rfl⟩ := h
    exact .of_error (.refl _ _) rfl rfl rfl
  · simp only [Prod.mk.injEq] at h
    obtain ⟨rfl, rfl, rfl⟩ := h
    rw [List.isEmpty_iff] at hempty
    exact ⟨.refl _ _, rfl, rfl, rfl, fun _ => Batch.evaluable_iff.mp (Bool.eq_false_iff.mpr hvalid),
      fun _ hne => absurd rfl hne, by simp [UnionEvaluation.initial, hempty],
      fun _ => ⟨List.nil_sublist _, List.nil_sublist _⟩⟩
  have heval : batch.Evaluable := Batch.evaluable_iff.mp (Bool.eq_false_iff.mpr hvalid)
  rcases hp : b.probe w.recorded batch.ids with ⟨e | verdict, b1⟩
  · simp only [hp, Prod.mk.injEq] at h
    obtain ⟨rfl, rfl, rfl⟩ := h
    exact .of_error (ProbeBudget.probe_probed hp).of_error rfl rfl rfl
  have hp1 := ProbeBudget.probe_probed hp
  simp only [hp] at h
  split_ifs at h with hgreen
  · simp only [Prod.mk.injEq] at h
    obtain ⟨rfl, rfl, rfl⟩ := h
    subst hgreen
    exact ⟨hp1.of_ok _, rfl, rfl, rfl, fun _ => heval, fun _ _ => ProbeBudget.probe_green hp,
      by simp [UnionEvaluation.initial], fun _ => ⟨List.Sublist.refl _, List.nil_sublist _⟩⟩
  rcases hbis : bisectFailure w.recorded batch.ids b1 with ⟨e | locus, b2⟩
  · simp only [hbis, Prod.mk.injEq] at h
    obtain ⟨rfl, rfl, rfl⟩ := h
    exact .of_error (hp1.trans (probeEach_probed _ hbis).of_error) rfl rfl rfl
  have hp2 := hp1.trans (probeEach_probed _ hbis)
  simp only [hbis] at h
  cases hex : locus.excluded with
  | none =>
    simp only [hex, Prod.mk.injEq] at h
    obtain ⟨rfl, rfl, rfl⟩ := h
    exact ⟨hp2.of_ok _, rfl, rfl, rfl, fun _ => heval, fun _ hne => absurd rfl hne,
      by simp [UnionEvaluation.initial], fun _ => ⟨List.nil_sublist _, List.nil_sublist _⟩⟩
  | some excluded =>
    have hsub := bisectFailure_excluded hbis hex
    have hparts := remainder_perm hsub heval.2.1
    simp only [hex] at h
    split_ifs at h with hrem
    · simp only [Prod.mk.injEq] at h
      obtain ⟨rfl, rfl, rfl⟩ := h
      rw [List.isEmpty_iff] at hrem
      rw [hrem] at hparts
      exact ⟨hp2.of_ok _, rfl, rfl, rfl, fun _ => heval, fun _ hne => absurd rfl hne,
        fun _ => hparts, fun _ => ⟨List.nil_sublist _, hsub⟩⟩
    rcases hpr : b2.probe w.recorded (batch.ids.filter (· ∉ excluded)) with ⟨e | verdict, b3⟩
    · simp only [hpr, Prod.mk.injEq] at h
      obtain ⟨rfl, rfl, rfl⟩ := h
      exact .of_error (hp2.trans (ProbeBudget.probe_probed hpr).of_error) rfl rfl rfl
    have hp3 := hp2.trans (ProbeBudget.probe_probed hpr)
    simp only [hpr] at h
    split_ifs at h with hgreen
    · simp only [Prod.mk.injEq] at h
      obtain ⟨rfl, rfl, rfl⟩ := h
      subst hgreen
      exact ⟨hp3.of_ok _, rfl, rfl, rfl, fun _ => heval, fun _ _ => ProbeBudget.probe_green hpr,
        fun _ => by simpa using hparts, fun _ => ⟨List.filter_sublist, hsub⟩⟩
    · simp only [Prod.mk.injEq] at h
      obtain ⟨rfl, rfl, rfl⟩ := h
      exact ⟨hp3.of_ok _, rfl, rfl, rfl, fun _ => heval, fun _ hne => absurd rfl hne,
        fun _ => hparts, fun _ => ⟨List.nil_sublist _, hsub⟩⟩

/-- What an evaluation of a batch may say, given the calls it made. -/
structure UnionEvaluation.Authorized (ev : UnionEvaluation) (batch : Batch)
    (limits : EvaluationLimits) (calls : List Observation) : Prop where
  limit : ∃ start, calls.head? = some (.clock start) ∧ ev.validUntil = checkedAdd start limits.timeout
  members : ev.evaluatedMembers = batch.ids
  snapshot : ev.validatedMembers = ev.proceeding
  answered : ev.proceeding ≠ [] →
    ∃ deadline, ev.validUntil = some deadline ∧ AnsweredGreen calls deadline ev.proceeding
  stopped : ev.stopReason ≠ none →
    ev.proceeding = [] ∧ ev.excludedMembers = [] ∧ ev.revoked = true
  inconclusive : (∃ o ∈ calls, o.Inconclusive) → ev.stopReason ≠ none
  invalid : ¬ batch.Evaluable ∨ ev.validUntil = none → ev.stopReason ≠ none
  parts : (ev.proceeding ++ ev.held ++ ev.excludedMembers).Perm batch.ids
  ordered : ev.proceeding.Sublist batch.ids ∧ ev.excludedMembers.Sublist batch.ids

theorem UnionEvaluation.Authorized.of_stopped {calls : List Observation} {reason : EvaluationStop}
    (hlimit : ∃ start, calls.head? = some (.clock start) ∧
      ev.validUntil = checkedAdd start limits.timeout)
    (hstop : ev.stopReason = some reason) (hvalid : ev.validatedMembers = [])
    (hproceed : ev.proceeding = []) (hexcluded : ev.excludedMembers = [])
    (hheld : ev.held = batch.ids) (hrevoked : ev.revoked = true)
    (hmembers : ev.evaluatedMembers = batch.ids) :
    ev.Authorized batch limits calls :=
  ⟨hlimit, hmembers, hvalid.trans hproceed.symm, fun hne => absurd hproceed hne,
    fun _ => ⟨hproceed, hexcluded, hrevoked⟩, by simp [hstop], by simp [hstop],
    by simp [hproceed, hheld, hexcluded], by simp [hproceed, hexcluded]⟩

theorem UnionEvaluation.Authorized.clock {calls : List Observation}
    (h : ev.Authorized batch limits calls) (t : Nat) :
    ev.Authorized batch limits (calls ++ [.clock t]) := by
  obtain ⟨⟨start, hhead, hlimit⟩, hmembers, hsnap, hans, hstop, hinc, hinvalid, hparts, hord⟩ := h
  refine ⟨⟨start, by simp [List.head?_append, hhead], hlimit⟩, hmembers, hsnap, fun hne => ?_, hstop,
    ?_, hinvalid, hparts, hord⟩
  · obtain ⟨deadline, hd, hg⟩ := hans hne
    exact ⟨deadline, hd, hg.append _⟩
  · rintro ⟨o, ho, hi⟩
    rcases List.mem_append.mp ho with ho | ho
    · exact hinc ⟨o, ho, hi⟩
    · rw [List.mem_singleton.mp ho] at hi
      exact hi.elim

theorem conclude_authorized
    (h : { ev with validatedMembers := ev.proceeding }.Authorized batch limits b.world.2) :
    (conclude w.recorded batch ev b).1.Authorized batch limits
      (conclude w.recorded batch ev b).2.2 := by
  have hbuilt := h.clock (w.now b.world.1).1
  have hlast := hbuilt.clock (w.now (w.now b.world.1).2).1
  simp only [conclude]
  split_ifs
  · exact .of_stopped hlast.limit rfl rfl rfl rfl hlast.members rfl hlast.members
  · exact ⟨hlast.limit, hlast.members, rfl, hlast.answered, hlast.stopped, hlast.inconclusive,
      hlast.invalid, hlast.parts, hlast.ordered⟩
  · exact ⟨hbuilt.limit, hbuilt.members, rfl, hbuilt.answered, hbuilt.stopped, hbuilt.inconclusive,
      hbuilt.invalid, hbuilt.parts, hbuilt.ordered⟩

theorem evaluateUnionWithClock_recorded_authorized (w : World ω) (batch : Batch)
    (limits : EvaluationLimits) (s : ω) :
    (evaluateUnionWithClock w.recorded batch limits (s, [])).1.Authorized batch limits
      (evaluateUnionWithClock w.recorded batch limits (s, [])).2.2 := by
  simp only [evaluateUnionWithClock]
  cases hd : checkedAdd (w.recorded.now (s, [])).1 limits.timeout with
  | none => exact .of_stopped ⟨_, rfl, rfl⟩ rfl rfl rfl rfl rfl rfl rfl
  | some deadline =>
    rcases hrun : diagnose w.recorded batch (.initial batch limits (w.recorded.now (s, [])).1)
      ⟨limits, (w.recorded.now (s, [])).1, deadline, 0, 0, true, (w.recorded.now (s, [])).2⟩
      with ⟨result, ev, b⟩
    obtain ⟨⟨hdeadline, more, hcalls, hinc⟩, hmembers, hstop, hlimit, heval, hgreen, hparts, hord⟩ :=
      diagnose_spec hrun
    have hbd : b.deadline = deadline := hdeadline
    have huntil : ev.validUntil = some deadline := hlimit.trans hd
    have hhead : ∃ start, b.world.2.head? = some (.clock start) ∧
        ev.validUntil = checkedAdd start limits.timeout :=
      ⟨(w.now s).1, by rw [hcalls]; rfl, hlimit⟩
    simp only [hrun]
    cases result with
    | error e => exact conclude_authorized (.of_stopped hhead rfl rfl rfl rfl hmembers rfl hmembers)
    | ok _ =>
      refine conclude_authorized ⟨hhead, hmembers, rfl, ?_, ?_, ?_, ?_, hparts rfl, hord rfl⟩
      · intro hne
        exact ⟨b.deadline, hbd ▸ huntil, hgreen rfl hne⟩
      · exact fun hne => absurd hstop hne
      · rintro ⟨o, ho, hi⟩
        have hmore : o ∈ more := by
          rw [hcalls] at ho
          rcases List.mem_append.mp ho with ho | ho
          · rw [List.mem_singleton.mp ho] at hi
            exact hi.elim
          · exact ho
        obtain ⟨e, he⟩ := hinc ⟨o, hmore, hi⟩
        cases he
      · rintro (hne | hnone)
        · exact absurd (heval rfl) hne
        · cases huntil.symm.trans hnone

theorem evaluateUnionWithClock_authorized (w : World ω) (batch : Batch) (limits : EvaluationLimits)
    (s : ω) :
    (evaluateUnionWithClock w batch limits s).1.Authorized batch limits
      (evaluateUnionWithClock w.recorded batch limits (s, [])).2.2 := by
  have hmap := evaluateUnionWithClock_map w.recorded_simulates batch limits (s, [])
  have hev := congrArg Prod.fst hmap
  simp only [Prod.map_fst, id] at hev
  rw [hev]
  exact evaluateUnionWithClock_recorded_authorized w batch limits s

theorem authorizationLive_iff (ev : UnionEvaluation) (now : Nat) :
    ev.authorizationLive now = true ↔
      ev.revoked = false ∧ ∃ deadline, ev.validUntil = some deadline ∧ now < deadline := by
  simp [UnionEvaluation.authorizationLive, Option.any_eq_true]

theorem union_authorization_sound (w : World ω) (batch : Batch) (limits : EvaluationLimits) (s : ω) :
    let ev := (evaluateUnionWithClock w batch limits s).1
    let calls := (evaluateUnionWithClock w.recorded batch limits (s, [])).2.2
    (ev.proceeding ≠ [] → ∃ start deadline, calls.head? = some (.clock start) ∧
      checkedAdd start limits.timeout = some deadline ∧
      AnsweredGreen calls deadline ev.proceeding) ∧
    (ev.stopReason ≠ none →
      ev.proceeding = [] ∧ ∀ now ids, ev.validatedProceeding now = [] ∧ ev.outcomesForLanding now ids = []) ∧
    ((∃ o ∈ calls, o.Inconclusive) ∨ ¬ batch.Evaluable ∨ ev.validUntil = none → ev.stopReason ≠ none) ∧
    ev.validatedMembers = ev.proceeding ∧
    (ev.proceeding ++ ev.held ++ ev.excludedMembers).Perm batch.ids := by
  have hh := evaluateUnionWithClock_authorized w batch limits s
  refine ⟨fun hne => ?_, fun hstop => ?_, ?_, hh.snapshot, hh.parts⟩
  · obtain ⟨start, hhead, huntil⟩ := hh.limit
    obtain ⟨deadline, hdeadline, hanswered⟩ := hh.answered hne
    exact ⟨start, deadline, hhead, huntil.symm.trans hdeadline, hanswered⟩
  · obtain ⟨hproceed, _, hrevoked⟩ := hh.stopped hstop
    refine ⟨hproceed, fun now ids => ?_⟩
    simp [UnionEvaluation.validatedProceeding, UnionEvaluation.outcomesForLanding,
      UnionEvaluation.authorizationLive, hrevoked]
  · rintro (hinc | hinvalid)
    · exact hh.inconclusive hinc
    · exact hh.invalid hinvalid

end

end Hugit
