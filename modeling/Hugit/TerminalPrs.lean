import Hugit.QueueOrder

/-! Landing is final on every run. Abandonment is final as long as no PR is
abandoned while it is queued and none is queued after it was abandoned. -/

namespace Hugit

def PrBoard.Rules.terminal : PrBoard.Rules where
  mayQueue b q := q.prId ∉ b.abandoned
  mayAbandon b id := ∀ p ∈ b.active, p.prId ≠ id

namespace PrBoard

variable {b b' : PrBoard} {id : String}

structure Terminal (b : PrBoard) : Prop where
  nodup : (b.landed ++ b.abandoned).Nodup
  inactive : ∀ p ∈ b.active, p.prId ∉ b.abandoned

theorem Step.terminal (h : Step .terminal b b') (hb : b.Terminal) : b'.Terminal := by
  cases h with
  | stay => exact hb
  | «open» unopened => exact ⟨hb.nodup, hb.inactive⟩
  | enqueue opened unlanded unqueued fresh allowed =>
    refine ⟨hb.nodup, ?_⟩
    rw [active_enqueue unlanded]
    intro p hp
    rcases List.mem_append.mp hp with hp | hp
    · exact hb.inactive p hp
    · rw [List.mem_singleton.mp hp]
      exact allowed
  | @land ids nodup active =>
    have hnew : ∀ id ∈ ids, id ∉ b.landed ∧ id ∉ b.abandoned := by
      intro id hid
      obtain ⟨q, hq, rfl⟩ := active id hid
      exact ⟨(mem_active.mp hq).2, hb.inactive q hq⟩
    refine ⟨?_, fun p hp => hb.inactive p ((active_land ids).subset hp)⟩
    have hperm : (ids ++ (b.landed ++ b.abandoned)).Perm ((b.landed ++ ids) ++ b.abandoned) := by
      rw [List.append_assoc, ← List.append_assoc]
      exact (List.perm_append_comm.append_right _).trans (by rw [List.append_assoc])
    refine hperm.nodup_iff.mp (List.nodup_append.mpr ⟨nodup, hb.nodup, fun x hx y hy he => ?_⟩)
    subst he
    rcases List.mem_append.mp hy with hy | hy
    · exact (hnew x hx).1 hy
    · exact (hnew x hx).2 hy
  | @abandon id opened unlanded unabandoned allowed =>
    refine ⟨?_, fun p hp hmem => ?_⟩
    · have hperm : (id :: (b.landed ++ b.abandoned)).Perm (b.landed ++ (b.abandoned ++ [id])) := by
        rw [← List.append_assoc]
        exact (List.perm_append_singleton _ _).symm
      refine hperm.nodup_iff.mp (List.nodup_cons.mpr ⟨fun hmem => ?_, hb.nodup⟩)
      rcases List.mem_append.mp hmem with hmem | hmem
      · exact unlanded hmem
      · exact unabandoned hmem
    · rcases List.mem_append.mp hmem with hmem | hmem
      · exact hb.inactive p hp hmem
      · exact allowed p hp (List.mem_singleton.mp hmem)

theorem Step.abandoned_quiet (h : Step .terminal b b') (hb : b.Terminal) (hid : id ∈ b.abandoned) : Quiet id b b' := by
  refine h.quiet ?_ ?_ ?_
  · intro p hp he
    exact hb.inactive p hp (he ▸ hid)
  · exact fun q hq _ he => hq (he ▸ hid)
  · exact fun x _ _ hx he => hx (he ▸ hid)

theorem run_abandoned_quiet (h : Relation.ReflTransGen (Step .terminal) b b') (hb : b.Terminal)
    (hid : id ∈ b.abandoned) : Quiet id b b' := by
  have hboth : b'.Terminal ∧ Quiet id b b' := by
    induction h with
    | refl => exact ⟨hb, Quiet.refl id b⟩
    | tail _ hstep ih =>
      obtain ⟨new, hnew, -⟩ := ih.2.abandoned
      have hmem := hnew ▸ List.mem_append_left new hid
      exact ⟨hstep.terminal ih.1, ih.2.trans (hstep.abandoned_quiet ih.1 hmem)⟩
  exact hboth.2

end PrBoard

def SilentSince (s : Scrubber) (id : String) (kinds : List String) (log log' : EventLog) : Prop :=
  ∃ rs, log' = ⟨log.records ++ rs⟩ ∧ ∀ kind ∈ kinds, id ∉ EventLog.prIds s.crates ⟨rs⟩ kind

/-- A PR is abandoned only while it is not queued, and queued only while it is
not abandoned. -/
def RespectsTerminal {ω : Type} (s : Scrubber) (log : EventLog) : PrCall ω → Prop
  | .landPr args => findPrAbandonedReason s.crates log (structuralSecretScrub s.measures args.prId) = none
  | .abandonPr args => findPrQueued s.crates log (structuralSecretScrub s.measures args.prId) = none
  | _ => True

section Runs

variable {s : Scrubber} {ω : Type} {host : LandHost ω} {log log' : EventLog}

theorem RespectsTerminal.allowed {call : PrCall ω} (hlog : s.PrLog log) (h : RespectsTerminal s log call) :
    call.Allowed .terminal s log := by
  cases call with
  | landPr args => exact fun _ => (findPrAbandonedReason_eq_none hlog).mp h
  | abandonPr args =>
    show ∀ p ∈ (board s.crates log).active, _
    rw [active_board]
    exact findPrQueued_eq_none.mp h
  | _ => trivial

theorem silentSince_of_quiet {id : String} {rs : List EventRecord} (hlog : s.PrLog log)
    (hlog' : s.PrLog ⟨log.records ++ rs⟩)
    (h : PrBoard.Quiet id (board s.crates log) (board s.crates ⟨log.records ++ rs⟩)) :
    SilentSince s id [prQueuedKind, prLandedKind, prAbandonedKind] log ⟨log.records ++ rs⟩ := by
  obtain ⟨⟨queued, hqueued, hq⟩, ⟨landed, hlanded, hl⟩, ⟨abandoned, habandoned, ha⟩⟩ := h
  have hnamed := hlog'.named
  rw [prIds_append, hlog.named, show queuedPrs s.crates ⟨log.records ++ rs⟩ = _ from hqueued, List.map_append] at hnamed
  have hnew := List.append_cancel_left hnamed
  refine ⟨rs, rfl, ?_⟩
  intro kind hkind
  simp only [List.mem_cons, List.not_mem_nil, or_false] at hkind
  rcases hkind with rfl | rfl | rfl
  · rw [hnew]
    intro hid
    obtain ⟨q, hmem, he⟩ := List.mem_map.mp hid
    exact hq q hmem he
  · have hids : EventLog.prIds s.crates ⟨log.records ++ rs⟩ prLandedKind = _ := hlanded
    rw [prIds_append] at hids
    rw [List.append_cancel_left hids]
    exact hl
  · have hids : EventLog.prIds s.crates ⟨log.records ++ rs⟩ prAbandonedKind = _ := habandoned
    rw [prIds_append] at hids
    rw [List.append_cancel_left hids]
    exact ha

theorem abandonPr_ok {args : AbandonArgs} {answer : Value} (h : (s.abandonPr log args).1 = .ok answer) :
    findPrOpened s.crates log (structuralSecretScrub s.measures args.prId) ≠ none ∧
      prIsLanded s.crates log (structuralSecretScrub s.measures args.prId) ≠ true := by
  unfold Scrubber.abandonPr at h
  dsimp only at h
  split at h
  · cases h
  next opened hopened =>
  split_ifs at h with hl
  exact ⟨by rw [hopened]; nofun, hl⟩

theorem mem_abandoned_of_ok (hc : s.crates.Json) (hlog : s.PrLog log) {args : AbandonArgs} {answer : Value}
    (h : (s.abandonPr log args).1 = .ok answer) : structuralSecretScrub s.measures args.prId ∈
      (s.abandonPr log args).2.prIds s.crates prAbandonedKind := by
  obtain ⟨hopened, hlanded⟩ := abandonPr_ok h
  rcases Scrubber.abandonPr_effect hc log args with ⟨hsame, hno⟩ | ⟨r, hr, happend⟩
  · have hreason := (hno.resolve_left hopened).resolve_left hlanded
    rw [hsame]
    by_contra hmem
    exact hreason ((findPrAbandonedReason_eq_none hlog).mpr hmem)
  · rw [happend, prIds_append, hr.prIds]
    exact List.mem_append_right _ (List.mem_singleton_self _)

theorem landed_silent (hc : s.crates.Json) (hlog : s.PrLog log) (later : List (PrCall ω)) {id : String}
    (hid : prIsLanded s.crates log id = true) :
    SilentSince s id [prQueuedKind, prLandedKind, prAbandonedKind] log (runPrCalls s host later log) := by
  obtain ⟨hlog', ⟨rs, happend⟩, hsteps⟩ := runPrCalls_board hc later hlog (everyCall_anyCaller s host later log)
  have hquiet := PrBoard.run_landed_quiet hsteps (prIsLanded_iff.mp hid)
  rw [happend] at hquiet hlog' ⊢
  exact silentSince_of_quiet hlog hlog' hquiet

theorem terminal_of_run (hc : s.crates.Json) (hfree : PrFree log) {calls : List (PrCall ω)}
    (h : EveryCall s host (RespectsTerminal s) calls log) :
    (board s.crates (runPrCalls s host calls log)).Terminal := by
  have hallowed := h.imp hc (Q := fun log call => call.Allowed .terminal s log) (fun _ _ hlog h => h.allowed hlog)
    hfree.prLog
  have hsteps := (runPrCalls_board hc calls hfree.prLog hallowed).2.2
  rw [hfree.board] at hsteps
  exact PrBoard.run_keeps (fun _ _ hstep => hstep.terminal) hsteps ⟨List.nodup_nil, nofun⟩

theorem abandoned_silent (hc : s.crates.Json) (hlog : s.PrLog log) (hterminal : (board s.crates log).Terminal)
    {later : List (PrCall ω)} (h : EveryCall s host (RespectsTerminal s) later log) {id : String}
    (hid : id ∈ log.prIds s.crates prAbandonedKind) :
    SilentSince s id [prQueuedKind, prLandedKind, prAbandonedKind] log (runPrCalls s host later log) := by
  have hallowed := h.imp hc (Q := fun log call => call.Allowed .terminal s log) (fun _ _ hlog h => h.allowed hlog) hlog
  obtain ⟨hlog', ⟨rs, happend⟩, hsteps⟩ := runPrCalls_board hc later hlog hallowed
  have hquiet := PrBoard.run_abandoned_quiet hsteps hterminal hid
  rw [happend] at hquiet hlog' ⊢
  exact silentSince_of_quiet hlog hlog' hquiet

theorem runPrCalls_append (calls later : List (PrCall ω)) (log : EventLog) :
    runPrCalls s host (calls ++ later) log = runPrCalls s host later (runPrCalls s host calls log) :=
  List.foldl_append

/-- A landed PR gets no later record. On a run that respects terminal states no
PR has two terminal records, and an abandoned one is out of the queue for good. -/
theorem terminal_states_final (hc : s.crates.Json) (hfree : PrFree log) (calls later : List (PrCall ω)) :
    (∀ id, prIsLanded s.crates (runPrCalls s host calls log) id = true →
      SilentSince s id [prQueuedKind, prLandedKind, prAbandonedKind] (runPrCalls s host calls log)
        (runPrCalls s host (calls ++ later) log)) ∧
    (∀ args answer, (s.abandonPr (runPrCalls s host calls log) args).1 = .ok answer →
      structuralSecretScrub s.measures args.prId ∈
        (s.abandonPr (runPrCalls s host calls log) args).2.prIds s.crates prAbandonedKind) ∧
    (EveryCall s host (RespectsTerminal s) (calls ++ later) log →
      (∀ id ∈ (runPrCalls s host calls log).prIds s.crates prAbandonedKind,
        findPrQueued s.crates (runPrCalls s host calls log) id = none ∧
        SilentSince s id [prQueuedKind, prLandedKind, prAbandonedKind] (runPrCalls s host calls log)
          (runPrCalls s host (calls ++ later) log)) ∧
      ((runPrCalls s host (calls ++ later) log).prIds s.crates prLandedKind ++
        (runPrCalls s host (calls ++ later) log).prIds s.crates prAbandonedKind).Nodup) := by
  have hlog := (runPrCalls_board hc calls hfree.prLog (everyCall_anyCaller s host calls log)).1
  refine ⟨fun id hid => ?_, fun args answer hok => mem_abandoned_of_ok hc hlog hok, fun hrespects => ?_⟩
  · rw [runPrCalls_append]
    exact landed_silent hc hlog later hid
  · obtain ⟨hcalls, hlater⟩ := EveryCall.append.mp hrespects
    have hterminal := terminal_of_run hc hfree hcalls
    refine ⟨fun id hid => ⟨?_, ?_⟩, (terminal_of_run hc hfree hrespects).nodup⟩
    · rw [findPrQueued_eq_none, ← active_board]
      exact fun q hq he => hterminal.inactive q hq (he ▸ hid)
    · rw [runPrCalls_append]
      exact abandoned_silent hc hlog hterminal hlater hid

end Runs

section Scenarios

theorem abandonPr_answers {s : Scrubber} {log : EventLog} {args : AbandonArgs} {o : OpenedPr}
    (hopened : findPrOpened s.crates log (structuralSecretScrub s.measures args.prId) = some o)
    (hlanded : prIsLanded s.crates log (structuralSecretScrub s.measures args.prId) = false)
    (hnone : findPrAbandonedReason s.crates log (structuralSecretScrub s.measures args.prId) = none) :
    ∃ answer, (s.abandonPr log args).1 = .ok answer := by
  unfold Scrubber.abandonPr
  simp only [hopened, hlanded, hnone, Scrubber.appendAsAuthor_eq]
  exact ⟨_, rfl⟩

def abandonedWhileQueued : List (PrCall Unit) :=
  [.openPr (humanOpens "a"), .landPr ⟨"a", 0⟩, .abandonPr ⟨"a", "no", 0⟩, .settlePr ⟨"a", 0, noEnvelopes⟩]

theorem abandonedWhileQueued_lands {s : Scrubber} (hj : s.crates.Json)
    (ha : structuralSecretScrub s.measures "a" = "a") :
    (∃ answer, (s.abandonPr (runPrCalls s quietLandHost (abandonedWhileQueued.take 2) ⟨[]⟩) ⟨"a", "no", 0⟩).1 =
      .ok answer) ∧
    findPrQueued s.crates (runPrCalls s quietLandHost (abandonedWhileQueued.take 3) ⟨[]⟩) "a" ≠ none ∧
    (runPrCalls s quietLandHost abandonedWhileQueued ⟨[]⟩).prIds s.crates prLandedKind = ["a"] ∧
    (runPrCalls s quietLandHost abandonedWhileQueued ⟨[]⟩).prIds s.crates prAbandonedKind = ["a"] := by
  obtain ⟨seq, hopened⟩ := (OpeningsOnly.nil s).open hj ha (by simp)
  have hpr : ((humanOpens "a").opened s.measures seq).prId = "a" := ha
  have hwait : Waiting s _ (structuralSecretScrub s.measures (LandArgs.mk "a" 0).prId) :=
    hopened.reads.waiting (o := (humanOpens "a").opened s.measures seq) (by simp [hpr, ha])
      (by simp [OpenArgs.opened, humanOpens]) (by simp) (by simp) rfl
  obtain ⟨item, hqueued⟩ := hopened.reads.land hj hwait (by simp [PrBoard.active]) (by simp [PrBoard.active])
  have habandoned := @ReadsAs.abandon _ _ _ hqueued hj ⟨"a", "no", 0⟩ ((humanOpens "a").opened s.measures seq)
    (by simp [hpr, ha]) (by simp) (by simp)
  have hsettled := @ReadsAs.settle _ _ _ habandoned hj ⟨"a", 0, noEnvelopes⟩
    ((humanOpens "a").opened s.measures seq) (by simp [hpr, ha]) (by simp) (by simp [PrBoard.active])
  refine ⟨?_, ?_, ?_, ?_⟩
  · refine abandonPr_answers (o := (humanOpens "a").opened s.measures seq) ?_ ?_ ?_
    · exact (hqueued.findPrOpened _).trans (by simp [hpr, ha])
    · exact hqueued.prIsLanded (by simp)
    · exact hqueued.notAbandoned (by simp)
  · intro hnone
    have hfind := (habandoned.findPrQueued "a").symm.trans hnone
    simp [PrBoard.active, ha] at hfind
  · have hlanded := hsettled.landed
    simp only [ha, List.nil_append] at hlanded
    exact hlanded
  · have hgone := hsettled.abandoned
    simp only [ha, List.nil_append] at hgone
    exact hgone

/-- The abandoned PR is still queued, and one later call lands it. -/
theorem abandoned_pr_lands :
    PrFree ⟨[]⟩ ∧
    (∃ answer, (plainScrubber.abandonPr (runPrCalls plainScrubber quietLandHost (abandonedWhileQueued.take 2) ⟨[]⟩)
      ⟨"a", "no", 0⟩).1 = .ok answer) ∧
    findPrQueued plainScrubber.crates (runPrCalls plainScrubber quietLandHost (abandonedWhileQueued.take 3) ⟨[]⟩) "a" ≠
      none ∧
    (runPrCalls plainScrubber quietLandHost abandonedWhileQueued ⟨[]⟩).prIds plainScrubber.crates prLandedKind = ["a"] ∧
    (runPrCalls plainScrubber quietLandHost abandonedWhileQueued ⟨[]⟩).prIds plainScrubber.crates prAbandonedKind =
      ["a"] :=
  ⟨nofun, abandonedWhileQueued_lands plainScrubber_json (plainScrubber_letters "a" (by simp))⟩

def abandonedInTime : List (PrCall Unit) :=
  [.openPr (humanOpens "a"), .abandonPr ⟨"a", "no", 0⟩]

theorem abandonedInTime_respects {s : Scrubber} (hj : s.crates.Json)
    (ha : structuralSecretScrub s.measures "a" = "a") :
    "a" ∈ (runPrCalls s quietLandHost abandonedInTime ⟨[]⟩).prIds s.crates prAbandonedKind ∧
      EveryCall s quietLandHost (RespectsTerminal s) (abandonedInTime ++ [.settlePr ⟨"a", 0, noEnvelopes⟩]) ⟨[]⟩ := by
  obtain ⟨seq, hopened⟩ := (OpeningsOnly.nil s).open hj ha (by simp)
  have hpr : ((humanOpens "a").opened s.measures seq).prId = "a" := ha
  have habandoned := @ReadsAs.abandon _ _ _ hopened.reads hj ⟨"a", "no", 0⟩
    ((humanOpens "a").opened s.measures seq) (by simp [hpr, ha]) (by simp) (by simp)
  refine ⟨?_, trivial, (hopened.reads.findPrQueued _).trans rfl, trivial, trivial⟩
  have hgone := habandoned.abandoned
  simp only [ha, List.nil_append] at hgone
  have hin := List.mem_singleton_self "a"
  rw [← hgone] at hin
  exact hin

theorem abandoned_pr_stays_out :
    "a" ∈ (runPrCalls plainScrubber quietLandHost abandonedInTime ⟨[]⟩).prIds plainScrubber.crates prAbandonedKind ∧
      SilentSince plainScrubber "a" [prQueuedKind, prLandedKind, prAbandonedKind]
        (runPrCalls plainScrubber quietLandHost abandonedInTime ⟨[]⟩)
        (runPrCalls plainScrubber quietLandHost (abandonedInTime ++ [.settlePr ⟨"a", 0, noEnvelopes⟩]) ⟨[]⟩) := by
  have hj := plainScrubber_json
  have hfree : PrFree ⟨[]⟩ := nofun
  obtain ⟨hmem, hrespects⟩ := abandonedInTime_respects hj (plainScrubber_letters "a" (by simp))
  exact ⟨hmem, (((terminal_states_final hj hfree _ _).2.2 hrespects).1 "a" hmem).2⟩

end Scenarios

/-- A PR is opened, lands and is abandoned at most once, and only after it was opened. -/
structure PrBoard.Orderly (b : PrBoard) : Prop where
  openedOnce : (b.opened.map (·.prId)).Nodup
  landedOnce : b.landed.Nodup
  abandonedOnce : b.abandoned.Nodup
  queued : ∀ q ∈ b.queued, ∃ o ∈ b.opened, o.prId = q.prId
  landed : ∀ id ∈ b.landed, ∃ o ∈ b.opened, o.prId = id
  abandoned : ∀ id ∈ b.abandoned, ∃ o ∈ b.opened, o.prId = id

theorem PrBoard.Step.orderly {rules : PrBoard.Rules} {b b' : PrBoard} (hstep : Step rules b b') (h : b.Orderly) :
    b'.Orderly := by
  cases hstep with
  | stay => exact h
  | @«open» o unopened =>
    have hold {id : String} (hid : ∃ p ∈ b.opened, p.prId = id) : ∃ p ∈ b.opened ++ [o], p.prId = id := by
      obtain ⟨p, hp, he⟩ := hid
      exact ⟨p, List.mem_append_left _ hp, he⟩
    have hnew : o.prId ∉ b.opened.map (·.prId) := by simpa using unopened
    refine ⟨by simpa using h.openedOnce.concat hnew, h.landedOnce, h.abandonedOnce, ?_, ?_, ?_⟩
    · exact fun q hq => hold (h.queued q hq)
    · exact fun id hid => hold (h.landed id hid)
    · exact fun id hid => hold (h.abandoned id hid)
  | enqueue opened =>
    refine ⟨h.openedOnce, h.landedOnce, h.abandonedOnce, fun q hq => ?_, h.landed, h.abandoned⟩
    rcases List.mem_append.mp hq with hq | hq
    · exact h.queued q hq
    · rw [List.mem_singleton.mp hq]
      exact opened
  | land nodup active =>
    refine ⟨h.openedOnce, List.nodup_append.mpr ⟨h.landedOnce, nodup, fun x hx y hy he => ?_⟩, h.abandonedOnce,
      h.queued, fun id hid => ?_, h.abandoned⟩
    · obtain ⟨q, hq, hqy⟩ := active y hy
      exact (mem_active.mp hq).2 (hqy.trans he.symm ▸ hx)
    · rcases List.mem_append.mp hid with hid | hid
      · exact h.landed id hid
      · obtain ⟨q, hq, rfl⟩ := active id hid
        exact h.queued q (mem_active.mp hq).1
  | abandon opened unlanded unabandoned =>
    refine ⟨h.openedOnce, h.landedOnce, by simpa using h.abandonedOnce.concat unabandoned, h.queued, h.landed,
      fun id hid => ?_⟩
    rcases List.mem_append.mp hid with hid | hid
    · exact h.abandoned id hid
    · rw [List.mem_singleton.mp hid]
      exact opened

theorem pr_lives_orderly {s : Scrubber} {log : EventLog} {ω : Type} {host : LandHost ω} (hc : s.crates.Json)
    (hfree : PrFree log) (calls : List (PrCall ω)) : (board s.crates (runPrCalls s host calls log)).Orderly := by
  have hsteps := (runPrCalls_board hc calls hfree.prLog (everyCall_anyCaller s host calls log)).2.2
  rw [hfree.board] at hsteps
  have hstart : PrBoard.Orderly ⟨[], [], [], []⟩ :=
    ⟨List.nodup_nil, List.nodup_nil, List.nodup_nil, nofun, nofun, nofun⟩
  exact PrBoard.run_keeps (fun _ _ hstep => hstep.orderly) hsteps hstart

theorem abandonedWhileQueued_orderly :
    (board plainScrubber.crates (runPrCalls plainScrubber quietLandHost abandonedWhileQueued ⟨[]⟩)).Orderly :=
  pr_lives_orderly plainScrubber_json (show PrFree ⟨[]⟩ from nofun) abandonedWhileQueued

end Hugit
