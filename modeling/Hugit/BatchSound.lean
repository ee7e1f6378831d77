import Hugit.QueueOrder
import Hugit.UnionAuthorization

/-! What a batch land leaves behind: the landings it reports, in queue order, and
one record of a red union. -/

namespace Hugit

section Evaluation

variable {ω : Type} {w : World ω} {batch : Batch} {ev ev' : UnionEvaluation} {b b' : ProbeBudget ω}
  {limits : EvaluationLimits} {context : EvaluationContext} {st : ω}

theorem evaluateUnionWithClock_keeps {I : ω → Prop} (hnow : ∀ s, I s → I (w.now s).2)
    (hanswer : ∀ ids deadline s, I s → I (w.evaluateBefore ids deadline s).2) (hst : I st) :
    I (evaluateUnionWithClock w batch limits st).2 := by
  let w' : World {s // I s} :=
    ⟨fun s => ((w.now s).1, ⟨(w.now s).2, hnow s s.2⟩),
      fun ids deadline s => ((w.evaluateBefore ids deadline s).1, ⟨_, hanswer ids deadline s s.2⟩),
      fun ids deadline _ s => ((w.evaluateBefore ids deadline s).1, ⟨_, hanswer ids deadline s s.2⟩)⟩
  have hsim : w'.Simulates w Subtype.val := ⟨fun _ => rfl, fun _ _ _ => rfl⟩
  have hmap := evaluateUnionWithClock_map hsim batch limits ⟨st, hst⟩
  rw [hmap]
  exact (evaluateUnionWithClock w' batch limits ⟨st, hst⟩).2.2

theorem diagnose_located (h : diagnose w batch ev b = (.ok (), ev', b')) (hred : ev'.verdict = .red) :
    ev'.failure.isSome = true := by
  simp only [diagnose] at h
  split_ifs at h with hvalid hempty
  · cases h
  · obtain ⟨-, rfl, -⟩ := Prod.mk.inj h
    cases hred
  rcases hp : b.probe w batch.ids with ⟨e | verdict, b1⟩
  · rw [hp] at h
    cases h
  simp only [hp] at h
  split_ifs at h with hgreen
  · obtain ⟨-, rfl, -⟩ := h
    cases hgreen.symm.trans hred
  rcases hbis : bisectFailure w batch.ids b1 with ⟨e | locus, b2⟩
  · rw [hbis] at h
    cases h
  simp only [hbis] at h
  cases hex : locus.excluded with
  | none =>
    rw [hex] at h
    obtain ⟨-, rfl, -⟩ := h
    rfl
  | some excluded =>
    rw [hex] at h
    dsimp only at h
    split_ifs at h
    · obtain ⟨-, rfl, -⟩ := h
      rfl
    rcases hpr : b2.probe w (batch.ids.filter (· ∉ excluded)) with ⟨e | verdict, b3⟩
    · rw [hpr] at h
      cases h
    simp only [hpr] at h
    split_ifs at h
    · obtain ⟨-, rfl, -⟩ := h
      rfl
    · obtain ⟨-, rfl, -⟩ := h
      rfl

theorem conclude_located (hev : ev.verdict = .red → ev.failure.isSome = true ∨ ev.stopReason ≠ none)
    (hstop : (conclude w batch ev b).1.stopReason = none) (hred : (conclude w batch ev b).1.verdict = .red) :
    (conclude w batch ev b).1.failure.isSome = true := by
  unfold conclude at hstop hred ⊢
  dsimp only at hstop hred ⊢
  split_ifs at hstop hred ⊢
  · cases hstop
  · exact (hev hred).resolve_right (not_not.mpr hstop)
  · exact (hev hred).resolve_right (not_not.mpr hstop)

theorem evaluateUnionWithClock_located (hstop : (evaluateUnionWithClock w batch limits st).1.stopReason = none)
    (hred : (evaluateUnionWithClock w batch limits st).1.verdict = .red) :
    (evaluateUnionWithClock w batch limits st).1.failure.isSome = true := by
  unfold evaluateUnionWithClock at hstop hred ⊢
  dsimp only at hstop hred ⊢
  cases hd : checkedAdd (w.now st).1 limits.timeout with
  | none =>
    rw [hd] at hstop
    cases hstop
  | some deadline =>
    simp only [hd] at hstop hred ⊢
    refine conclude_located (fun hred => ?_) hstop hred
    rcases hrun : diagnose w batch (.initial batch limits (w.now st).1)
      ⟨limits, (w.now st).1, deadline, 0, 0, true, (w.now st).2⟩ with ⟨e | _, ev, b⟩
    · exact .inr (by simp [UnionEvaluation.close, UnionEvaluation.hold])
    · rw [hrun] at hred
      exact .inl (diagnose_located hrun hred)

/-- An evaluation that ran to its end: its members are in order and distinct, those
that may proceed were answered green together, and a red union has a locus. -/
structure UnionEvaluation.Ended (ev : UnionEvaluation) (batch : Batch) (Green : List String → Prop) : Prop where
  evaluable : batch.Evaluable
  members : ev.validatedMembers.Sublist batch.ids
  green : ev.validatedMembers ≠ [] → Green ev.validatedMembers
  located : ev.verdict = .red → ev.failure.isSome = true

theorem evaluateUnionInContext_ended {Green : List String → Prop}
    (hgreen : ∀ ids deadline s, (w.evaluateInContext ids deadline context s).1.1 = .green → Green ids)
    (hstop : (evaluateUnionInContext w batch limits context st).1.stopReason = none) :
    (evaluateUnionInContext w batch limits context st).1.Ended batch Green := by
  unfold evaluateUnionInContext at hstop ⊢
  split_ifs at hstop ⊢ with hcontext
  have hauth := evaluateUnionWithClock_authorized (w.scoped context) batch limits (st, [])
  have hcalls := @evaluateUnionWithClock_keeps _ (w.scoped context).recorded batch limits ((st, []), [])
    (fun s => ∀ ids deadline, .answered ids deadline .green ∈ s.2 → Green ids) ?_ ?_ nofun
  · refine ⟨?_, ?_, ?_, evaluateUnionWithClock_located hstop⟩
    · by_contra hno
      exact hauth.invalid (.inl hno) hstop
    · exact hauth.snapshot ▸ hauth.ordered.1
    · dsimp only
      intro hne
      rw [hauth.snapshot] at hne ⊢
      obtain ⟨deadline, -, t, t', -, -, hin⟩ := hauth.answered hne
      exact hcalls _ deadline (hin.subset (by simp))
  · intro s hs ids deadline hmem
    rcases List.mem_append.mp hmem with hmem | hmem
    · exact hs ids deadline hmem
    · simp at hmem
  · intro asked limit s hs ids deadline hmem
    rcases List.mem_append.mp hmem with hmem | hmem
    · exact hs ids deadline hmem
    · obtain ⟨rfl, rfl, hverdict⟩ : ids = asked ∧ deadline = limit ∧ _ := by simpa using hmem
      exact hgreen ids deadline _ hverdict.symm

end Evaluation

section Conflicts

variable {ω : Type} {host : LandHost ω} {content : List (String × List String)}

def Peaceful (conflicts : List (String × String)) (ids : List String) : Prop :=
  ∀ pair ∈ conflicts, ¬ (pair.1 ∈ ids ∧ pair.2 ∈ ids)

theorem runChecks_ne_green {deadline : Nat} {ids : List String} {anyRed : Bool} {sources : List CheckSource} {w : ω} :
    (runChecks host content deadline ids anyRed sources w).1.1 ≠ .error .green := by
  induction ids generalizing anyRed sources w with
  | nil => nofun
  | cons id rest ih =>
    unfold runChecks
    dsimp only
    split_ifs
    · nofun
    split
    · nofun
    split
    · nofun
    · exact ih

theorem evaluateUntil_green {conflicts : List (String × String)} {ids : List String} {deadline : Nat} {w : ω}
    (h : (evaluateUntil host content conflicts ids deadline w).1.1 = .green) : Peaceful conflicts ids := by
  unfold evaluateUntil at h
  split at h
  next verdict sources w' hrun =>
    subst h
    exact absurd (by rw [hrun]) (@runChecks_ne_green _ host content deadline ids false [] w)
  next anyRed sources w' hrun =>
    intro pair hpair hboth
    have hany : (conflicts.any fun pair => ids.contains pair.1 && ids.contains pair.2) = true :=
      List.any_eq_true.mpr ⟨pair, hpair, by simpa using hboth⟩
    rw [hany, Bool.or_true] at h
    cases h

theorem mem_conflictPairs {a b : String} {declared : List String} (ha : lastWrite a content = some declared)
    (hb : (lastWrite b content).isSome = true) (hne : b ≠ a) (hdeclared : "conflicts-with:" ++ b ∈ declared) :
    (if b < a then (b, a) else (a, b)) ∈ conflictPairs content := by
  have hmem := mem_of_lastWrite ha
  refine List.mem_flatMap.mpr ⟨_, hmem, List.mem_filterMap.mpr ⟨_, by rwa [ha], ?_⟩⟩
  rw [String.toList_append, stripPrefix_append]
  simp [hb, hne]

end Conflicts

def LandingOf (c : Crates) (id : String) (r : EventRecord) : Prop :=
  r.kind = prLandedKind ∧ ∃ v, c.fromStr r.payload = some v ∧ v.fieldStr "pr_id" = some id

structure BatchLanded (c : Crates) (log : EventLog) (campaign : Option String) (report : BatchReport)
    (log' : EventLog) : Prop where
  appended : ∃ landings fails, log' = ⟨log.records ++ (landings ++ fails)⟩ ∧
    List.Forall₂ (LandingOf c) report.landed landings ∧
    (report.verdict = .red → ∃ r, r.kind = queueUnionFailKind ∧ fails = [r]) ∧ (report.verdict ≠ .red → fails = [])
  queued : ∃ entries : List QueuedPr, entries.map (·.prId) = report.landed ∧
    entries.Pairwise (·.orderIndex < ·.orderIndex) ∧
    ∀ q ∈ entries, q ∈ allPrQueued c log ∧
      ∃ o, findPrOpened c log q.prId = some o ∧ campaign.all (o.campaign = ·) = true
  left : ∀ id ∈ report.landed, ∀ q ∈ allPrQueued c log', q.prId ≠ id
  peaceful : ∀ a ∈ report.landed, ∀ b ∈ report.landed, ∀ o, findPrOpened c log a = some o →
    "conflicts-with:" ++ b ∈ o.intentIds ++ o.commitIds → a = b

theorem BatchLanded.nothing (c : Crates) (log : EventLog) (campaign : Option String) :
    BatchLanded c log campaign (emptySummary campaign) log :=
  ⟨⟨[], [], by rw [List.append_nil, List.append_nil], .nil, nofun, fun _ => rfl⟩, ⟨[], rfl, .nil, nofun⟩, nofun, nofun⟩

structure BatchSound (c : Crates) (log : EventLog) (campaign : Option String)
    (result : Except BatchLandError BatchReport) (log' : EventLog) : Prop where
  refused : ∀ e, result = .error e → log' = log
  stopped : ∀ report, result = .ok report → report.stopReason ≠ none → log' = log
  landed : ∀ report, result = .ok report → report.stopReason = none → BatchLanded c log campaign report log'

section Landing

variable {s : Scrubber} {log : EventLog} {id : String}

theorem LandingOf.prIds {r : EventRecord} (h : LandingOf s.crates id r) :
    EventLog.prIds s.crates ⟨[r]⟩ prLandedKind = [id] := by
  obtain ⟨hk, v, hv, hid⟩ := h
  simp [EventLog.prIds, EventLog.payloads, hk, hv, hid]

theorem landingOf_scrubbed (hc : s.crates.Json) {opened : OpenedPr} {prId : String} {r : EventRecord}
    (hk : r.kind = prLandedKind) (hr : r.payload = s.scrubToCanonical (prLandedPayload opened prId)) :
    LandingOf s.crates (structuralSecretScrub s.measures prId) r := by
  have hp := Scrubber.prLandedPayload_printable opened prId
  refine ⟨hk, s.stored (prLandedPayload opened prId), ?_, ?_⟩
  · rw [hr]
    exact Scrubber.fromStr_scrubToCanonical hc hp
  · rw [Scrubber.fieldStr_stored_address hp (by decide) (by decide)]
    rfl

theorem scrub_of_left (hc : s.crates.Json) {rs : List EventRecord} (hrs : ∀ r ∈ rs, s.Filed log r) {q : QueuedPr}
    (hq : q ∈ allPrQueued s.crates log) (hleft : ∀ q' ∈ allPrQueued s.crates ⟨log.records ++ rs⟩, q'.prId ≠ q.prId) :
    structuralSecretScrub s.measures q.prId = q.prId := by
  rw [allPrQueued_eq, List.mem_filter, decide_eq_true_eq] at hq
  have hlanded : q.prId ∈ EventLog.prIds s.crates ⟨log.records ++ rs⟩ prLandedKind := by
    by_contra hno
    refine hleft q ?_ rfl
    rw [allPrQueued_eq, List.mem_filter, decide_eq_true_eq, queuedPrs_append]
    exact ⟨List.mem_append_left _ hq.1, hno⟩
  rw [prIds_append] at hlanded
  obtain ⟨v, hv, hid⟩ := List.mem_filterMap.mp ((List.mem_append.mp hlanded).resolve_left hq.2)
  obtain ⟨r, hr, hread⟩ := List.mem_filterMap.mp hv
  obtain ⟨hr, hk⟩ := List.mem_filter.mp hr
  rw [decide_eq_true_eq] at hk
  rcases hrs r hr with hother | ⟨-, o, -, hpayload⟩
  · rw [hk] at hother
    exact absurd hother (by decide)
  · obtain ⟨-, v', hv', hid'⟩ := landingOf_scrubbed hc hk hpayload
    rw [hread] at hv'
    obtain rfl := Option.some.inj hv'
    have hsame : structuralSecretScrub s.measures o.prId = q.prId := Option.some.inj (hid'.symm.trans hid)
    rw [← hsame]
    exact structuralSecretScrub_idem _ _

theorem landOne_lands (hc : s.crates.Json) {o : OpenedPr} (hid : structuralSecretScrub s.measures o.prId = o.prId)
    (hnew : o.prId ∉ log.prIds s.crates prLandedKind) {recordedAt : Nat} {staged : EventLog}
    (h : s.landOne log o recordedAt = .ok staged) :
    ∃ r, LandingOf s.crates o.prId r ∧ staged = ⟨log.records ++ [r]⟩ := by
  rw [Scrubber.landOne, if_neg (mt prIsLanded_iff.mp hnew), Scrubber.appendAsAuthor_eq] at h
  obtain rfl := Except.ok.inj h
  refine ⟨_, ?_, rfl⟩
  nth_rewrite 1 [← hid]
  exact landingOf_scrubbed hc rfl rfl

theorem landProceeding_exact (hc : s.crates.Json) {members : List BatchMember} {proceeding : List String}
    (hids : ∀ m ∈ members, m.2.prId = m.1.prId) (hnodup : (members.map (·.1.prId)).Nodup)
    (hplain : ∀ id ∈ (members.map (·.1.prId)).filter (· ∈ proceeding), structuralSecretScrub s.measures id = id)
    (hnew : ∀ m ∈ members, m.1.prId ∉ log.prIds s.crates prLandedKind) {recordedAt : Nat} {staged : EventLog}
    (h : s.landProceeding log members proceeding recordedAt = .ok staged) :
    ∃ landings, List.Forall₂ (LandingOf s.crates) ((members.map (·.1.prId)).filter (· ∈ proceeding)) landings ∧
      staged = ⟨log.records ++ landings⟩ := by
  induction members generalizing log with
  | nil =>
    obtain rfl := pure_eq_ok.mp h
    exact ⟨[], .nil, by rw [List.append_nil]⟩
  | cons m rest ih =>
    obtain ⟨hid, hids⟩ := List.forall_mem_cons.mp hids
    obtain ⟨hm, hnew⟩ := List.forall_mem_cons.mp hnew
    rw [List.map_cons, List.nodup_cons] at hnodup
    rw [Scrubber.landProceeding, List.foldlM_cons] at h
    obtain ⟨next, hnext, hrest⟩ := bind_eq_ok.mp h
    by_cases hp : m.1.prId ∈ proceeding
    · rw [List.map_cons, List.filter_cons_of_pos (by simpa using hp)] at hplain ⊢
      obtain ⟨hself, hplain⟩ := List.forall_mem_cons.mp hplain
      rw [if_pos hp] at hnext
      obtain ⟨r, hr, rfl⟩ := landOne_lands hc (hid ▸ hself) (hid ▸ hm) hnext
      rw [hid] at hr
      have hnew' : ∀ m' ∈ rest, m'.1.prId ∉ EventLog.prIds s.crates ⟨log.records ++ [r]⟩ prLandedKind := by
        intro m' hm' hmem
        rw [prIds_append, hr.prIds] at hmem
        rcases List.mem_append.mp hmem with hmem | hmem
        · exact hnew m' hm' hmem
        · exact hnodup.1 (List.mem_map.mpr ⟨m', hm', List.mem_singleton.mp hmem⟩)
      obtain ⟨landings, hlandings, hstaged⟩ := ih hids hnodup.2 hplain hnew' hrest
      exact ⟨r :: landings, .cons hr hlandings, hstaged.trans (by rw [List.append_assoc, List.singleton_append])⟩
    · rw [List.map_cons, List.filter_cons_of_neg (by simpa using hp)] at hplain ⊢
      rw [if_neg hp] at hnext
      obtain rfl := Except.ok.inj hnext
      exact ih hids hnodup.2 hplain hnew hrest

theorem prIds_landings {ids : List String} {rs : List EventRecord} (h : List.Forall₂ (LandingOf s.crates) ids rs) :
    EventLog.prIds s.crates ⟨rs⟩ prLandedKind = ids := by
  induction h with
  | nil => rfl
  | @cons id r ids rs hr _ ih =>
    have happend := @prIds_append s.crates ⟨[r]⟩ rs prLandedKind
    rw [hr.prIds, ih] at happend
    exact happend

end Landing

section Members

variable {c : Crates} {log : EventLog} {campaign : Option String}

theorem batchMembers_ordered (hdistinct : ((allPrQueued c log).map (·.orderIndex)).Nodup) :
    (batchMembers c log campaign).Pairwise (·.1.orderIndex < ·.1.orderIndex) := by
  have hlt := Batch.pairwise_lt_insertionSort hdistinct
  refine (List.Pairwise.filterMap _ ?_ hlt).filter _
  intro q q' h m hm m' hm'
  obtain ⟨o, -, rfl⟩ := Option.map_eq_some_iff.mp hm
  obtain ⟨o', -, rfl⟩ := Option.map_eq_some_iff.mp hm'
  exact h

theorem prId_of_mem_batchMembers {m : BatchMember} (hm : m ∈ batchMembers c log campaign) : m.2.prId = m.1.prId :=
  (mem_openedPrs_of_findPrOpened (Scrubber.mem_batchMembers hm).2.1).2

theorem lastWrite_batchContent {id : String} (hid : id ∈ (batchMembers c log campaign).map (·.1.prId)) {o : OpenedPr}
    (ho : findPrOpened c log id = some o) :
    lastWrite id (batchContent (batchMembers c log campaign)) = some (o.intentIds ++ o.commitIds) := by
  cases hlast : lastWrite id (batchContent (batchMembers c log campaign)) with
  | none =>
    obtain ⟨m, hm, rfl⟩ := List.mem_map.mp hid
    exact absurd (prId_of_mem_batchMembers hm) (lastWrite_eq_none.mp hlast _ (List.mem_map_of_mem hm))
  | some declared =>
    obtain ⟨m, hm, hpair⟩ := List.mem_map.mp (mem_of_lastWrite hlast)
    obtain ⟨hmid, rfl⟩ := Prod.mk.inj hpair
    rw [← hmid, prId_of_mem_batchMembers hm, (Scrubber.mem_batchMembers hm).2.1] at ho
    rw [Option.some.inj ho]

theorem no_conflict_of_peaceful {ids : List String}
    (hsub : ∀ id ∈ ids, id ∈ (batchMembers c log campaign).map (·.1.prId))
    (h : Peaceful (conflictPairs (batchContent (batchMembers c log campaign))) ids) {a b : String} (ha : a ∈ ids)
    (hb : b ∈ ids) {o : OpenedPr} (ho : findPrOpened c log a = some o)
    (hdeclared : "conflicts-with:" ++ b ∈ o.intentIds ++ o.commitIds) : a = b := by
  by_contra hne
  obtain ⟨m, hm, hmid⟩ := List.mem_map.mp (hsub b hb)
  have hother := lastWrite_batchContent (hsub b hb) (hmid ▸ (Scrubber.mem_batchMembers hm).2.1)
  have hpair := mem_conflictPairs (lastWrite_batchContent (hsub a ha) ho) (by rw [hother]; rfl) (Ne.symm hne) hdeclared
  refine h _ hpair ?_
  split_ifs
  · exact ⟨hb, ha⟩
  · exact ⟨ha, hb⟩

theorem batch_ids_perm {batch : Batch}
    (h : Batch.tryFromEntries "land-queue" ((batchMembers c log campaign).map memberEntry) = .ok batch) :
    batch.ids.Perm ((batchMembers c log campaign).map (·.1.prId)) := by
  obtain ⟨-, rfl⟩ := Batch.tryFromEntries_eq_ok.mp h
  refine ((List.perm_insertionSort _ _).map _).trans ?_
  rw [List.map_map, List.map_map]
  rfl

end Members

theorem authorizeFor_eq_some {ev : UnionEvaluation} {batch : Batch} {context : EvaluationContext} {now later : Nat}
    {proceeding excluded : List String} (h : ev.authorizeFor batch context now later = some (proceeding, excluded)) :
    proceeding = ev.validatedMembers ∧ excluded = ev.excludedMembers := by
  simp only [UnionEvaluation.authorizeFor, Option.bind_eq_bind, Option.bind_eq_some_iff] at h
  obtain ⟨binding, -, h⟩ := h
  split_ifs at h
  obtain ⟨rfl, rfl⟩ := Prod.mk.inj (Option.some.inj h)
  exact ⟨rfl, rfl⟩

section Sound

variable {s : Scrubber} {log : EventLog} {args : BatchLandArgs} {ω : Type} {host : LandHost ω} {w : ω}

theorem Scrubber.BatchLanding.landed (hc : s.crates.Json)
    (hdistinct : ((allPrQueued s.crates log).map (·.orderIndex)).Nodup) {ev : UnionEvaluation}
    {proceeding excluded : List String} (h : s.BatchLanding host log args w ev proceeding excluded)
    (hplain : ∀ id ∈ ((batchMembers s.crates log args.campaign).map (·.1.prId)).filter (· ∈ proceeding),
      structuralSecretScrub s.measures id = id) :
    BatchLanded s.crates log args.campaign
      (landedSummary ev args.campaign ((batchMembers s.crates log args.campaign).map (·.1.prId))
        (((batchMembers s.crates log args.campaign).map (·.1.prId)).filter (· ∈ proceeding)) excluded)
      (s.batchLandInContext host log args w).2.1 := by
  obtain ⟨batch, hbatch, hev, now, later, hauth⟩ := h.evaluated
  obtain ⟨rfl, rfl⟩ := authorizeFor_eq_some hauth
  have hended : ev.Ended batch (Peaceful (conflictPairs (batchContent (batchMembers s.crates log args.campaign)))) := by
    have hstop := h.ended
    rw [hev] at hstop ⊢
    exact evaluateUnionInContext_ended (fun ids deadline _ hgreen => evaluateUntil_green hgreen) hstop
  have hperm := batch_ids_perm hbatch
  have hnodup := hperm.nodup_iff.mp hended.evaluable.2.1
  have hnew : ∀ m ∈ batchMembers s.crates log args.campaign, m.1.prId ∉ log.prIds s.crates prLandedKind := by
    intro m hm
    have hq := (Scrubber.mem_batchMembers hm).1
    rw [allPrQueued_eq, List.mem_filter, decide_eq_true_eq] at hq
    exact hq.2
  obtain ⟨landed, fails, hland, hstaged, hfails, hlength⟩ := Scrubber.stageBatch_appends h.staged
  obtain ⟨landings, hlandings, rfl⟩ :=
    landProceeding_exact hc (fun m hm => prId_of_mem_batchMembers hm) hnodup hplain hnew hland
  rw [hstaged]
  refine ⟨⟨landings, fails, by rw [List.append_assoc], hlandings, fun hred => ?_, fun hne => ?_⟩, ?_, ?_, ?_⟩
  · rw [if_pos ⟨hred, hended.located hred⟩, List.length_eq_one_iff] at hlength
    obtain ⟨r, rfl⟩ := hlength
    exact ⟨r, hfails r (List.mem_singleton_self r), rfl⟩
  · rwa [if_neg fun h => hne h.1, List.length_eq_zero_iff] at hlength
  · refine ⟨((batchMembers s.crates log args.campaign).filter (·.1.prId ∈ ev.validatedMembers)).map (·.1), ?_, ?_, ?_⟩
    · simp only [landedSummary, List.filter_map, List.map_map]
      rfl
    · exact List.pairwise_map.mpr ((batchMembers_ordered hdistinct).filter _)
    · intro q hq
      obtain ⟨m, hm, rfl⟩ := List.mem_map.mp hq
      obtain ⟨hq, ho, hscope⟩ := Scrubber.mem_batchMembers (List.mem_filter.mp hm).1
      exact ⟨hq, m.2, ho, hscope⟩
  · intro id hid q hq he
    rw [allPrQueued_eq, List.mem_filter, decide_eq_true_eq, prIds_append, prIds_append, prIds_landings hlandings] at hq
    exact hq.2 (List.mem_append_left _ (List.mem_append_right _ (he ▸ hid)))
  · intro a ha b hb o ho hdeclared
    have hproceed : ∀ {id}, id ∈ ((batchMembers s.crates log args.campaign).map (·.1.prId)).filter
        (· ∈ ev.validatedMembers) → id ∈ ev.validatedMembers := fun hid => by simpa using (List.mem_filter.mp hid).2
    exact no_conflict_of_peaceful (fun id hid => hperm.subset (hended.members.subset hid))
      (hended.green (List.ne_nil_of_mem (hproceed ha))) (hproceed ha) (hproceed hb) ho hdeclared

end Sound

section RawQueue

variable {s : Scrubber} {c : Crates} {id : String}

def rawOpening (id : String) : Value :=
  .object [("pr_id", .string id), ("campaign", .string "c"), ("author_kind", .string "human"),
    ("intent_ids", .array [.string "i"])]

/-- A log that was not written by the verbs: one PR, opened and queued under its own id. -/
def rawQueue (c : Crates) (id : String) : EventLog :=
  let opened := EventLog.nextRecord c [] prOpenedKind [] (c.print (rawOpening id)) 0
  ⟨[opened, EventLog.nextRecord c [opened] prQueuedKind [] (c.print (prQueuedPayload id "q" 0)) 0]⟩

def rawMember (id : String) : BatchMember :=
  (⟨id, "q", 0⟩, ⟨id, "c", .human, ["i"], [], 0⟩)

theorem parseOpened_rawQueue (hc : c.Json) {r : EventRecord} (hr : r.payload = c.print (rawOpening id))
    (hseq : r.seq = 0) : parseOpened c r = some (rawMember id).2 := by
  have hp : (rawOpening id).Printable 127 := by
    refine .object (by simp) fun f hf => ?_
    simp only [List.mem_cons, List.not_mem_nil, or_false] at hf
    rcases hf with rfl | rfl | rfl | rfl
    · exact .string _
    · exact .string _
    · exact .string _
    · exact textItems_printable ["i"]
  rw [parseOpened, hr, hc.reads_back _ hp, hseq]
  rfl

theorem parseQueued_rawQueue (hc : c.Json) {r : EventRecord} (hr : r.payload = c.print (prQueuedPayload id "q" 0)) :
    parseQueued c r = some (rawMember id).1 := by
  rw [parseQueued, hr, hc.reads_back _ (Scrubber.prQueuedPayload_printable _ _ (by decide))]
  rfl

theorem kinds_rawQueue : ∀ r ∈ (rawQueue c id).records, r.kind = prOpenedKind ∨ r.kind = prQueuedKind := by
  intro r hr
  rcases List.mem_pair.mp hr with rfl | rfl
  · exact .inl rfl
  · exact .inr rfl

theorem allPrQueued_rawQueue (hc : c.Json) (id : String) : allPrQueued c (rawQueue c id) = [(rawMember id).1] := by
  have hlanded : (rawQueue c id).prIds c prLandedKind = [] := by
    refine prIds_eq_nil fun r hr => ?_
    rcases kinds_rawQueue r hr with hk | hk <;> rw [hk] <;> decide
  have hqueued : queuedPrs c (rawQueue c id) = [(rawMember id).1] := by
    show List.filterMap (parseQueued c) [_] = _
    exact List.filterMap_cons_some (parseQueued_rawQueue hc rfl)
  rw [allPrQueued_eq, hlanded, hqueued]
  rfl

theorem batchMembers_rawQueue (hc : c.Json) (id : String) : batchMembers c (rawQueue c id) none = [rawMember id] := by
  have hopened : openedPrs c (rawQueue c id) = [(rawMember id).2] := by
    show List.filterMap (parseOpened c) [_] = _
    exact List.filterMap_cons_some (parseOpened_rawQueue hc rfl rfl)
  have hfound : findPrOpened c (rawQueue c id) (rawMember id).1.prId = some (rawMember id).2 := by
    rw [findPrOpened, ← openedPrs, hopened]
    simp [rawMember]
  rw [batchMembers, allPrQueued_rawQueue hc]
  simp [hfound]

def greenHost : LandHost Unit where
  now _ := (0, ())
  runMemoized _ _ _ := (.ok ⟨⟨"", "", "", "", 0, [], "", "", 0, "", 0⟩, true, 0⟩, ())

def rawArgs : BatchLandArgs :=
  ⟨none, 0, ⟨1, 1⟩, ⟨"o", "b", "c", "s"⟩⟩

def rawBatch (id : String) : Batch :=
  ⟨"land-queue", [BatchEntry.new ⟨id, "i", "", 0⟩ []]⟩

def rawEvaluation (id : String) : UnionEvaluation :=
  (evaluateUnionInContext (logMemoOracle greenHost (batchContent [rawMember id])
    (conflictPairs (batchContent [rawMember id]))) (rawBatch id) rawArgs.limits rawArgs.context ()).1

theorem rawEvaluation_green : ∀ id ∈ ["a", "a b"], (rawEvaluation id).stopReason = none ∧
    (rawEvaluation id).verdict = .green ∧ (rawEvaluation id).deadlineExceeded 0 = false ∧
      (rawEvaluation id).authorizeFor (rawBatch id) rawArgs.context 0 0 = some ([id], []) := by
  decide +kernel

theorem landOne_returns (log : EventLog) (o : OpenedPr) (recordedAt : Nat) :
    ∃ staged, s.landOne log o recordedAt = .ok staged := by
  unfold Scrubber.landOne
  split_ifs
  · exact ⟨log, rfl⟩
  · rw [Scrubber.appendAsAuthor_eq]
    exact ⟨_, rfl⟩

theorem rawQueue_lands (hc : s.crates.Json) (hid : id ∈ ["a", "a b"]) :
    (s.batchLandInContext greenHost (rawQueue s.crates id) rawArgs ()).1 =
      .ok (landedSummary (rawEvaluation id) none [id] [id] []) := by
  obtain ⟨hstop, hverdict, hdeadline, hauth⟩ := rawEvaluation_green id hid
  obtain ⟨staged, hstaged⟩ := @landOne_returns s (rawQueue s.crates id) (rawMember id).2 rawArgs.recordedAt
  have hbatch : Batch.tryFromEntries "land-queue" ([rawMember id].map memberEntry) = .ok (rawBatch id) := rfl
  rw [Scrubber.batchLandInContext, show rawArgs.campaign = none from rfl, batchMembers_rawQueue hc]
  have hevaluated : evaluateUnionInContext (logMemoOracle greenHost (batchContent [rawMember id])
      (conflictPairs (batchContent [rawMember id]))) (rawBatch id) rawArgs.limits rawArgs.context () =
        (rawEvaluation id, ()) := rfl
  have hstage : s.stageBatch (rawQueue s.crates id) [rawMember id] none (rawEvaluation id) [id] [] rawArgs.recordedAt =
      .ok staged := by
    have hmem : (rawMember id).1.prId ∈ [id] := List.mem_singleton_self id
    simp only [Scrubber.stageBatch, Scrubber.landProceeding, List.foldlM_cons, List.foldlM_nil, hverdict, if_pos hmem,
      hstaged]
    rfl
  simp only [List.isEmpty_cons, Bool.false_eq_true, if_false, hbatch, hevaluated]
  simp only [Scrubber.landEvaluated, hstop, authorizeNow, show ∀ u, greenHost.now u = (0, ()) from fun _ => rfl,
    hdeadline, hauth, hstage, Bool.false_eq_true, if_false, show rawArgs.campaign = none from rfl]
  simp [rawMember]

end RawQueue

end Hugit
