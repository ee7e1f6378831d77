import Hugit.TierRuns

/-! What recovery returns after a run: the longest sealed run followed by the hot
records behind it. Without redactions that is the log itself. -/

namespace Hugit

variable {c : Crates} {s : TierState}

theorem Tiered.recover (h : Tiered s) (hl : s.log.len < 2 ^ 64) {n : Nat} (hn : n ≤ s.longest.length) {M : Type}
    [MirrorSource M] (mirror : M) :
    recoverWithSources c s.cold mirror (s.log.records.drop n) =
      serve c (s.longest ++ s.log.records.drop s.longest.length) .coldTier := by
  have hle := h.longest_length_le
  have hlen : (s.longest ++ s.log.records.drop s.longest.length).length = s.log.len := by
    simp only [List.length_append, List.length_drop]
    exact Nat.add_sub_of_le hle
  refine recoverWithSources_complete (by omega) fun i => ?_
  have hseq (j : Nat) (r : EventRecord) (hj : (s.log.records.drop n)[j]? = some r) : r.seq = n + j :=
    h.gapFree (n + j) r (by rwa [List.getElem?_drop] at hj)
  rw [spliceHot_getElem?, h.gatherCold hl, firstWrite_seqWrites hseq, List.getElem?_drop]
  rcases Nat.lt_or_ge i s.longest.length with hlt | hge
  · rw [List.getElem?_append_left hlt, List.getElem?_eq_getElem hlt]
    rfl
  · rw [List.getElem?_append_right hge, List.getElem?_drop, List.getElem?_eq_none hge, Option.none_or,
      if_pos (hn.trans hge)]
    congr 1
    omega

theorem TierState.step_compact {hotBound : Nat} {report : CompactionReport} {cold : InMemoryColdStore}
    (h : compact c s.log hotBound s.cold = (.ok report, cold)) :
    (s.step c (.compact hotBound)).log = s.log ∧ (s.step c (.compact hotBound)).cold = cold ∧
      report.hot.records = s.log.records.drop (s.log.len - hotBound) ∧
      s.log.len - hotBound ≤ (s.step c (.compact hotBound)).longest.length := by
  obtain ⟨_, hhot, _⟩ := compact_eq_ok h
  simp only [step, h]
  refine ⟨trivial, trivial, hhot, ?_⟩
  have hlen : (s.log.records.take (s.log.len - hotBound)).length = s.log.len - hotBound := by
    rw [List.length_take]
    exact Nat.min_eq_left (Nat.sub_le _ _)
  unfold sealedUnder
  split_ifs <;> omega

theorem recover_after_compact (hs : Tiered s) (hl : s.log.len < 2 ^ 64) {hotBound : Nat}
    {report : CompactionReport} {cold : InMemoryColdStore}
    (h : compact c s.log hotBound s.cold = (.ok report, cold)) {M : Type} [MirrorSource M] (mirror : M) :
    recoverWithSources c cold mirror report.hot.records =
      serve c ((s.step c (.compact hotBound)).longest ++
        s.log.records.drop (s.step c (.compact hotBound)).longest.length) .coldTier := by
  obtain ⟨hlog, hcold, hhot, hn⟩ := TierState.step_compact h
  have hl' : (s.step c (.compact hotBound)).log.len < 2 ^ 64 := by rwa [hlog]
  have hr := (hs.step hl').recover (c := c) hl' hn mirror
  rwa [hlog, hcold, ← hhot] at hr

theorem append_drop_eq_iff {xs ys : List EventRecord} (hle : xs.length ≤ ys.length) :
    xs ++ ys.drop xs.length = ys ↔ xs <+: ys := by
  constructor
  · intro h
    exact ⟨_, h⟩
  · rintro ⟨zs, rfl⟩
    simp

def TierStep.AppendOnly : TierStep → Prop
  | .redact _ => False
  | _ => True

theorem longest_prefix_step (h : s.longest <+: s.log.records) {st : TierStep} (hst : st.AppendOnly) :
    (s.step c st).longest <+: (s.step c st).log.records := by
  cases st with
  | append kind principalChain payload recordedAt => exact h.trans (List.prefix_append _ _)
  | redact r => exact hst.elim
  | compact hotBound =>
    simp only [TierState.step]
    split
    · exact h
    · unfold TierState.sealedUnder
      split_ifs
      · exact List.take_prefix _ _
      · exact h

theorem longest_prefix_run (h : s.longest <+: s.log.records) {steps : List TierStep}
    (hst : ∀ st ∈ steps, st.AppendOnly) :
    (s.run c steps).longest <+: (s.run c steps).log.records := by
  induction steps generalizing s with
  | nil => exact h
  | cons st steps ih =>
    have hst := List.forall_mem_cons.mp hst
    exact ih (longest_prefix_step h hst.1) hst.2

theorem compact_of_verified {S : Type} [ColdStore S] {log : EventLog} (hv : verifyChain c log.records = .ok ())
    (hotBound : Nat) (cold : S) :
    ∃ report cold', compact c log hotBound cold = (.ok report, cold') := by
  simp only [compact, hv]
  split_ifs
  · exact ⟨_, _, rfl⟩
  · exact ⟨_, _, rfl⟩

/-- Appends and compactions in any order lose nothing: compacting the log once
more and recovering from the store and the hot remainder gives back every record
and the replayed state, whatever the mirror would say. -/
theorem compact_recover_lossless {c : Crates} {log : EventLog} (hv : verifyChain c log.records = .ok ())
    {steps : List TierStep} (hst : ∀ st ∈ steps, st.AppendOnly) {s : TierState}
    (hs : (TierState.start log).run c steps = s) (hl : s.log.len < 2 ^ 64) {state : RefState}
    (hr : replay c s.log = .ok state) (hotBound : Nat) {M : Type} [MirrorSource M] (mirror : M) :
    ∃ report cold, compact c s.log hotBound s.cold = (.ok report, cold) ∧
      recoverWithSources c cold mirror report.hot.records =
        .ok ⟨state, s.log.records, .coldTier⟩ := by
  subst hs
  obtain ⟨hvs, hrs⟩ := replay_eq_ok.mp hr
  obtain ⟨report, cold, hc⟩ := compact_of_verified hvs hotBound ((TierState.start log).run c steps).cold
  refine ⟨report, cold, hc, ?_⟩
  have ht := (tiered_start (verifyChain_ok_iff.mp hv).1.gapFree).run hl
  have hcompact : (TierStep.compact hotBound).AppendOnly := trivial
  have hpre := longest_prefix_step (c := c)
    (longest_prefix_run (c := c) (s := .start log) List.nil_prefix hst) hcompact
  rw [(TierState.step_compact hc).1] at hpre
  rw [recover_after_compact ht hl hc mirror, (append_drop_eq_iff hpre.length_le).mpr hpre]
  exact serve_eq_ok.mpr ⟨hvs, hrs, rfl, rfl⟩

theorem TierState.step_compact_log (c : Crates) (s : TierState) (hotBound : Nat) :
    (s.step c (.compact hotBound)).log = s.log := by
  simp only [step]
  split <;> rfl

theorem TierState.step_compact_longest (hv : verifyChain c s.log.records = .ok ()) (hotBound : Nat) :
    (s.step c (.compact hotBound)).longest =
      sealedUnder s.longest (s.log.records.take (s.log.len - hotBound)) := by
  obtain ⟨report, cold, h⟩ := compact_of_verified hv hotBound s.cold
  simp only [step, h]

def noteSteps : List TierStep :=
  [.append "note" ["user:a"] "a" 0, .compact 0, .append "note" ["user:a"] "b" 0]

theorem noteSteps_log (c : Crates) : ((TierState.start .empty).run c noteSteps).log = notes c ["a", "b"] := by
  simp only [noteSteps, TierState.run, List.foldl_cons, List.foldl_nil]
  rw [TierState.step]
  simp only [TierState.step_compact_log]
  rfl

theorem noteSteps_recovered : ∃ report cold,
    compact reference (notes reference ["a", "b"]) 1
        ((TierState.start .empty).run reference noteSteps).cold = (.ok report, cold) ∧
      recoverWithSources reference cold NoMirror.mk report.hot.records =
        .ok ⟨.new, (notes reference ["a", "b"]).records, .coldTier⟩ := by
  have hlog := noteSteps_log reference
  have hv : verifyChain reference EventLog.empty.records = .ok () := rfl
  have hst : ∀ st ∈ noteSteps, st.AppendOnly := by simp [noteSteps, TierStep.AppendOnly]
  have hl : ((TierState.start .empty).run reference noteSteps).log.len < 2 ^ 64 := by
    rw [hlog]
    decide
  have hr : replay reference ((TierState.start .empty).run reference noteSteps).log = .ok .new := by
    rw [hlog]
    exact notes_replay reference ["a", "b"]
  have h := compact_recover_lossless hv hst rfl hl hr 1 NoMirror.mk
  rwa [hlog] at h

/-- With redactions, recovery returns the current records exactly when none of
those below the greatest sealed end changed since that end was last sealed, and
the log still replays. -/
theorem redacted_recovery_iff {c : Crates} {log : EventLog} (hv : verifyChain c log.records = .ok ())
    {steps : List TierStep} {s : TierState} (hs : (TierState.start log).run c steps = s)
    (hl : s.log.len < 2 ^ 64) {hotBound : Nat} {report : CompactionReport} {cold : InMemoryColdStore}
    (hc : compact c s.log hotBound s.cold = (.ok report, cold)) :
    (∃ recovered, recoverWithSources c cold NoMirror.mk report.hot.records = .ok recovered ∧
        recovered.records = s.log.records) ↔
      (s.step c (.compact hotBound)).longest <+: s.log.records ∧
        ∃ state, replayUnchecked c s.log.records = .ok state := by
  subst hs
  have ht := (tiered_start (verifyChain_ok_iff.mp hv).1.gapFree).run hl
  have hlog := (TierState.step_compact hc).1
  have hl' : (((TierState.start log).run c steps).step c (.compact hotBound)).log.len < 2 ^ 64 := by
    rwa [hlog]
  have hle := (ht.step hl').longest_length_le
  rw [hlog] at hle
  rw [recover_after_compact ht hl hc]
  constructor
  · rintro ⟨recovered, hserve, hrec⟩
    obtain ⟨_, hreplay, heq, _⟩ := serve_eq_ok.mp hserve
    rw [hrec] at heq
    exact ⟨(append_drop_eq_iff hle).mp heq.symm, _, by rwa [← heq] at hreplay⟩
  · rintro ⟨hpre, state, hreplay⟩
    rw [(append_drop_eq_iff hle).mpr hpre]
    exact ⟨⟨state, _, .coldTier⟩, serve_eq_ok.mpr ⟨(compact_eq_ok hc).1, hreplay, rfl, rfl⟩, rfl⟩

theorem TierState.step_redact {r : RedactionStep} {records : List EventRecord}
    (h : redactionStep c s.log.records r = some records) :
    s.step c (.redact r) = { s with log := ⟨records⟩ } := by
  simp only [step, h]

/-- The first of two notes, sealed together before the first one is redacted. -/
def staleSteps : List TierStep :=
  [.append "note" ["user:a"] "secret" 0, .append "note" ["user:a"] "b" 0, .compact 0,
    .redact scrubStep]

section

variable (c : Crates)

def secretRecord : EventRecord :=
  EventLog.nextRecord c [] "note" ["user:a"] "secret" 0

def staleLog : EventLog :=
  ⟨scrub c (notes c ["secret", "b"]).records scrubStep (secretRecord c) ++
    [redactionMarker c (notes c ["secret", "b"]).records scrubStep (secretRecord c)]⟩

theorem redactionStep_stale : redactionStep c (notes c ["secret", "b"]).records scrubStep =
    some (staleLog c).records := by
  have hr : (notes c ["secret", "b"]).records[scrubStep.position]? = some (secretRecord c) := rfl
  exact redactionStep_eq_some.mpr ⟨_, hr, by simp [secretRecord, EventLog.nextRecord,
    provenanceRedactionKind], rfl⟩

theorem staleSteps_run : ((TierState.start .empty).run c staleSteps).log = staleLog c ∧
    ((TierState.start .empty).run c staleSteps).longest = (notes c ["secret", "b"]).records := by
  let s : TierState := ⟨notes c ["secret", "b"], .new, []⟩
  have hrun : (TierState.start .empty).run c staleSteps =
      (s.step c (.compact 0)).step c (.redact scrubStep) := rfl
  have hlog : (s.step c (.compact 0)).log = notes c ["secret", "b"] := s.step_compact_log c 0
  have hredact : redactionStep c (s.step c (.compact 0)).log.records scrubStep =
      some (staleLog c).records := by
    rw [hlog]
    exact redactionStep_stale c
  rw [hrun, TierState.step_redact hredact]
  exact ⟨rfl, TierState.step_compact_longest (notes_verifies c ["secret", "b"]).2 0⟩

theorem staleLog_verifies (hc : c.Sound) : verifyChain c (staleLog c).records = .ok () :=
  redactionStep_verifies hc (notes_verifies c ["secret", "b"]).2 (by simp)
    (redactionFree_markers (notes_verifies c ["secret", "b"]).1 _) (redactionStep_stale c)

theorem staleLog_seal : TierState.sealedUnder (notes c ["secret", "b"]).records
    ((staleLog c).records.take ((staleLog c).len - 2)) = (notes c ["secret", "b"]).records :=
  if_neg (by simp [staleLog, EventLog.len, scrub])

theorem staleLog_replay : ∃ state, replayUnchecked c (staleLog c).records = .ok state := by
  refine ⟨_, foldlM_replayRecord.mpr ⟨fun r hr => ⟨none, ?_⟩, rfl⟩⟩
  have hk : r.kind = "note" ∨ r.kind = provenanceRedactionKind := by
    simp only [staleLog, scrub, notes, secretRecord, redactionMarker, scrubStep, redactRecord,
      EventLog.empty, EventLog.append, EventLog.nextRecord, List.foldl_cons, List.foldl_nil,
      List.nil_append, List.cons_append, List.set_cons_zero, List.mem_cons, List.not_mem_nil,
      or_false] at hr
    rcases hr with rfl | rfl | rfl <;> simp
  rcases hk with hk | hk <;>
    exact refWrite_of_inert (by simp [hk, provenanceRedactionKind])
      (by simp [hk, provenanceRedactionKind, intentLandedKind]) (by simp [hk, provenanceRedactionKind])

theorem staleRange_rejected (hc : c.Sound)
    (hne : (secretRecord c).recompute c ≠ (redactRecord c (secretRecord c) scrubStep.principals
      scrubStep.payload).2.redactedThisHash) (source : RecoverySource) :
    ∃ e, serve c ((notes c ["secret", "b"]).records ++ (staleLog c).records.drop 2) source = .error e := by
  have hr : (notes c ["secret", "b"]).records[scrubStep.position]? = some (secretRecord c) := rfl
  have hdrop : (staleLog c).records.drop 2 =
      [redactionMarker c (notes c ["secret", "b"]).records scrubStep (secretRecord c)] := rfl
  rw [hdrop, serve]
  cases hv : verifyChain c ((notes c ["secret", "b"]).records ++
      [redactionMarker c (notes c ["secret", "b"]).records scrubStep (secretRecord c)]) with
  | error e => exact ⟨_, rfl⟩
  | ok u =>
    have hcontent := (verifyChain_ok_iff.mp hv).2 0 (secretRecord c) rfl
    rw [collectRedactions_concat,
      marker_redactionMarker hc (notes_verifies c ["secret", "b"]).2 (by simp) hr] at hcontent
    exact absurd hcontent.2 hne

end

def freshSteps : List TierStep :=
  [.append "note" ["user:a"] "secret" 0, .append "note" ["user:a"] "b" 0, .redact scrubStep]

theorem freshSteps_recovered : ∃ report cold recovered,
    compact reference (staleLog reference) 1 ((TierState.start .empty).run reference freshSteps).cold =
        (.ok report, cold) ∧
      recoverWithSources reference cold NoMirror.mk report.hot.records = .ok recovered ∧
      recovered.records = (staleLog reference).records := by
  have hrun : (TierState.start .empty).run reference freshSteps = ⟨staleLog reference, .new, []⟩ :=
    TierState.step_redact (s := ⟨notes reference ["secret", "b"], .new, []⟩) (redactionStep_stale reference)
  have hv := staleLog_verifies reference reference_sound
  obtain ⟨report, cold, hc⟩ := compact_of_verified hv 1
    ((TierState.start .empty).run reference freshSteps).cold
  have hlog : ((TierState.start .empty).run reference freshSteps).log = staleLog reference := by rw [hrun]
  have hl : ((TierState.start .empty).run reference freshSteps).log.len < 2 ^ 64 := by
    rw [hlog]
    decide
  rw [← hlog] at hc
  have hempty : verifyChain reference EventLog.empty.records = .ok () := rfl
  have hiff := redacted_recovery_iff hempty rfl hl hc
  rw [TierState.step_compact_longest (compact_eq_ok hc).1 1, hrun] at hiff
  obtain ⟨recovered, hr, hrec⟩ := hiff.mpr ⟨List.take_prefix _ _, staleLog_replay reference⟩
  rw [hlog] at hc
  exact ⟨report, cold, recovered, hc, hr, hrec⟩

/-- The redacted log compacts, yet its cleartext survives in the longer range
sealed before, and recovery fails on it. -/
theorem staleSteps_unrecoverable : ∃ report cold e,
    compact reference (staleLog reference) 2 ((TierState.start .empty).run reference staleSteps).cold =
        (.ok report, cold) ∧
      recoverWithSources reference cold NoMirror.mk report.hot.records = .error e := by
  obtain ⟨hlog, hlongest⟩ := staleSteps_run reference
  have hl : ((TierState.start .empty).run reference staleSteps).log.len < 2 ^ 64 := by
    rw [hlog]
    decide
  have ht := (tiered_start (fun i r hi => by simp [EventLog.empty] at hi :
    GapFree EventLog.empty.records)).run hl
  obtain ⟨report, cold, hc⟩ := compact_of_verified (staleLog_verifies reference reference_sound) 2
    ((TierState.start .empty).run reference staleSteps).cold
  rw [← hlog] at hc
  have hlong := TierState.step_compact_longest (compact_eq_ok hc).1 2
  rw [hlog, hlongest, staleLog_seal] at hlong
  have hserve := recover_after_compact ht hl hc NoMirror.mk
  rw [hlong, hlog, notes_length] at hserve
  obtain ⟨e, he⟩ := staleRange_rejected reference reference_sound (by decide +kernel) .coldTier
  rw [hlog] at hc
  exact ⟨report, cold, e, hc, hserve.trans he⟩

end Hugit
