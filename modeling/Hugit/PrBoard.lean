import Hugit.PrEffects

/-! The life of PRs as a board of entries, landings and abandonments. Every verb
is a step of the board, and what holds of all steps holds of all runs. -/

namespace Hugit

structure PrBoard where
  opened : List OpenedPr
  queued : List QueuedPr
  landed : List String
  abandoned : List String

namespace PrBoard

def active (b : PrBoard) : List QueuedPr :=
  b.queued.filter (·.prId ∉ b.landed)

structure Rules where
  mayQueue : PrBoard → QueuedPr → Prop
  mayAbandon : PrBoard → String → Prop

def Rules.anyCaller : Rules where
  mayQueue _ _ := True
  mayAbandon _ _ := True

inductive Step (rules : Rules) (b : PrBoard) : PrBoard → Prop
  | stay : Step rules b b
  | open {o : OpenedPr} (unopened : ∀ p ∈ b.opened, p.prId ≠ o.prId) :
      Step rules b { b with opened := b.opened ++ [o] }
  | enqueue {q : QueuedPr} (opened : ∃ o ∈ b.opened, o.prId = q.prId) (unlanded : q.prId ∉ b.landed)
      (unqueued : ∀ p ∈ b.active, p.prId ≠ q.prId)
      (fresh : ∀ p ∈ b.active, p.orderIndex ≠ q.orderIndex) (allowed : rules.mayQueue b q) :
      Step rules b { b with queued := b.queued ++ [q] }
  | land {ids : List String} (nodup : ids.Nodup) (active : ∀ id ∈ ids, ∃ q ∈ b.active, q.prId = id) :
      Step rules b { b with landed := b.landed ++ ids }
  | abandon {id : String} (opened : ∃ o ∈ b.opened, o.prId = id) (unlanded : id ∉ b.landed) (unabandoned : id ∉ b.abandoned)
      (allowed : rules.mayAbandon b id) : Step rules b { b with abandoned := b.abandoned ++ [id] }

variable {rules : Rules} {b b' : PrBoard} {id : String}

theorem mem_active {q : QueuedPr} : q ∈ b.active ↔ q ∈ b.queued ∧ q.prId ∉ b.landed := by
  simp [active]

theorem active_enqueue {q : QueuedPr} (h : q.prId ∉ b.landed) :
    { b with queued := b.queued ++ [q] }.active = b.active ++ [q] := by
  simp [active, h]

theorem active_land (ids : List String) :
    { b with landed := b.landed ++ ids }.active.Sublist b.active := by
  refine List.monotone_filter_right _ fun q hq => ?_
  simp only [List.mem_append, decide_eq_true_eq, not_or] at hq ⊢
  exact hq.1

theorem Step.active_cases (h : Step rules b b') : b'.active.Sublist b.active ∨
    ∃ q, b'.active = b.active ++ [q] ∧ (∀ p ∈ b.active, p.prId ≠ q.prId) ∧
      (∀ p ∈ b.active, p.orderIndex ≠ q.orderIndex) ∧ rules.mayQueue b q := by
  cases h with
  | stay => exact .inl (List.Sublist.refl _)
  | «open» unopened => exact .inl (List.Sublist.refl _)
  | enqueue opened unlanded unqueued fresh allowed => exact .inr ⟨_, active_enqueue unlanded, unqueued, fresh, allowed⟩
  | land nodup active => exact .inl (active_land _)
  | abandon opened unlanded unabandoned allowed => exact .inl (List.Sublist.refl _)

structure Quiet (id : String) (b b' : PrBoard) : Prop where
  queued : ∃ new, b'.queued = b.queued ++ new ∧ ∀ q ∈ new, q.prId ≠ id
  landed : ∃ new, b'.landed = b.landed ++ new ∧ id ∉ new
  abandoned : ∃ new, b'.abandoned = b.abandoned ++ new ∧ id ∉ new

theorem Quiet.refl (id : String) (b : PrBoard) : Quiet id b b :=
  ⟨⟨[], by simp⟩, ⟨[], by simp⟩, ⟨[], by simp⟩⟩

theorem Quiet.trans {b'' : PrBoard} (h : Quiet id b b') (h' : Quiet id b' b'') : Quiet id b b'' := by
  obtain ⟨⟨q, hq, hqi⟩, ⟨l, hl, hli⟩, ⟨a, ha, hai⟩⟩ := h
  obtain ⟨⟨q', hq', hqi'⟩, ⟨l', hl', hli'⟩, ⟨a', ha', hai'⟩⟩ := h'
  refine ⟨⟨q ++ q', by rw [hq', hq, List.append_assoc], ?_⟩, ⟨l ++ l', by rw [hl', hl, List.append_assoc], ?_⟩,
    ⟨a ++ a', by rw [ha', ha, List.append_assoc], ?_⟩⟩
  · intro p hp
    rcases List.mem_append.mp hp with hp | hp
    · exact hqi p hp
    · exact hqi' p hp
  · simp [hli, hli']
  · simp [hai, hai']

theorem Step.quiet (h : Step rules b b') (hactive : ∀ p ∈ b.active, p.prId ≠ id)
    (hqueue : ∀ q, rules.mayQueue b q → q.prId ∉ b.landed → q.prId ≠ id)
    (habandon : ∀ x, rules.mayAbandon b x → x ∉ b.landed → x ∉ b.abandoned → x ≠ id) : Quiet id b b' := by
  have hsame := Quiet.refl id b
  cases h with
  | stay => exact hsame
  | «open» unopened => exact ⟨hsame.queued, hsame.landed, hsame.abandoned⟩
  | enqueue opened unlanded unqueued fresh allowed =>
    exact ⟨⟨_, rfl, by simpa using hqueue _ allowed unlanded⟩, hsame.landed, hsame.abandoned⟩
  | land nodup active =>
    refine ⟨hsame.queued, ⟨_, rfl, fun hid => ?_⟩, hsame.abandoned⟩
    obtain ⟨q, hq, he⟩ := active id hid
    exact hactive q hq he
  | abandon opened unlanded unabandoned allowed =>
    refine ⟨hsame.queued, hsame.landed, ⟨_, rfl, ?_⟩⟩
    simpa using (habandon _ allowed unlanded unabandoned).symm

theorem Step.landed_quiet (h : Step rules b b') (hid : id ∈ b.landed) : Quiet id b b' := by
  refine h.quiet ?_ ?_ ?_
  · intro p hp he
    exact (mem_active.mp hp).2 (he ▸ hid)
  · exact fun q _ hq he => hq (he ▸ hid)
  · exact fun x _ hx _ he => hx (he ▸ hid)

theorem run_keeps {P : PrBoard → Prop} (hstep : ∀ b b', Step rules b b' → P b → P b')
    (h : Relation.ReflTransGen (Step rules) b b') (hb : P b) : P b' := by
  induction h with
  | refl => exact hb
  | tail _ hlast ih => exact hstep _ _ hlast ih

theorem run_landed_quiet (h : Relation.ReflTransGen (Step rules) b b') (hid : id ∈ b.landed) : Quiet id b b' := by
  induction h with
  | refl => exact Quiet.refl id b
  | tail _ hstep ih =>
    obtain ⟨new, hnew, -⟩ := ih.landed
    exact ih.trans (hstep.landed_quiet (hnew ▸ List.mem_append_left new hid))

end PrBoard

def board (c : Crates) (log : EventLog) : PrBoard where
  opened := openedPrs c log
  queued := queuedPrs c log
  landed := log.prIds c prLandedKind
  abandoned := log.prIds c prAbandonedKind

theorem active_board (c : Crates) (log : EventLog) : (board c log).active = allPrQueued c log :=
  allPrQueued_eq.symm

def nextEntry (s : Scrubber) (log : EventLog) (args : LandArgs) : QueuedPr where
  prId := structuralSecretScrub s.measures args.prId
  itemId := redactText s.measures (queueItemId (structuralSecretScrub s.measures args.prId)
    (nextOrderIndex (allPrQueued s.crates log)))
  orderIndex := nextOrderIndex (allPrQueued s.crates log)

def PrCall.Allowed {ω : Type} (rules : PrBoard.Rules) (s : Scrubber) (log : EventLog) : PrCall ω → Prop
  | landPr args => findPrQueued s.crates log (structuralSecretScrub s.measures args.prId) = none →
      rules.mayQueue (board s.crates log) (nextEntry s log args)
  | abandonPr args => rules.mayAbandon (board s.crates log) (structuralSecretScrub s.measures args.prId)
  | _ => True

section Refinement

variable {s : Scrubber} {log : EventLog} {ω : Type} {call : PrCall ω} {rs : List EventRecord}

theorem findPrAbandonedReason_eq_none (hlog : s.PrLog log) {prId : String} :
    findPrAbandonedReason s.crates log prId = none ↔ prId ∉ log.prIds s.crates prAbandonedKind := by
  constructor
  · intro h hid
    obtain ⟨v, hv, hid⟩ := List.mem_filterMap.mp hid
    have hreason := hlog.reasoned v hv
    rw [findPrAbandonedReason, List.getLast?_eq_none_iff, List.filterMap_eq_nil_iff] at h
    rw [h v (List.mem_filter.mpr ⟨hv, by simpa using hid⟩)] at hreason
    exact absurd hreason (by decide)
  · intro h
    rw [findPrAbandonedReason, List.getLast?_eq_none_iff, List.filterMap_eq_nil_iff]
    intro v hv
    obtain ⟨hv, hid⟩ := List.mem_filter.mp hv
    exact absurd (List.mem_filterMap.mpr ⟨v, hv, by simpa using hid⟩) h

variable {r : EventRecord}

theorem queuedPrs_concat {c : Crates} (h : r.kind ≠ prQueuedKind) :
    queuedPrs c ⟨log.records ++ [r]⟩ = queuedPrs c log := by
  rw [queuedPrs_append, @queuedPrs_eq_nil c [r] (by simpa using h), List.append_nil]

theorem openedPrs_concat {c : Crates} (h : r.kind ≠ prOpenedKind) :
    openedPrs c ⟨log.records ++ [r]⟩ = openedPrs c log := by
  rw [openedPrs_append, @openedPrs_eq_nil c [r] (by simpa using h), List.append_nil]

theorem Opening.openedPrs {args : OpenArgs} (h : Opening s log args r) :
    openedPrs s.crates ⟨[r]⟩ = [args.opened s.measures r.seq] := by
  simp [Hugit.openedPrs, h.kind, h.parsed]

theorem board_opened {args : OpenArgs} (h : Opening s log args r) :
    board s.crates ⟨log.records ++ [r]⟩ = { board s.crates log with
      opened := openedPrs s.crates log ++ [args.opened s.measures r.seq] } := by
  rw [board, openedPrs_append, h.openedPrs, queuedPrs_concat (by rw [h.kind]; decide),
    prIds_concat (by rw [h.kind]; decide), prIds_concat (by rw [h.kind]; decide)]
  rfl

theorem Queueing.queuedPrs {args : LandArgs} (h : Queueing s log args r) :
    queuedPrs s.crates ⟨[r]⟩ = [nextEntry s log args] := by
  simp [Hugit.queuedPrs, h.kind, h.parsed, nextEntry]

theorem board_queued {args : LandArgs} (h : Queueing s log args r) :
    board s.crates ⟨log.records ++ [r]⟩ =
      { board s.crates log with queued := queuedPrs s.crates log ++ [nextEntry s log args] } := by
  rw [board, openedPrs_concat (by rw [h.kind]; decide), queuedPrs_append, h.queuedPrs,
    prIds_concat (by rw [h.kind]; decide), prIds_concat (by rw [h.kind]; decide)]
  rfl

variable {args : AbandonArgs}

theorem Abandoning.prIds (h : Abandoning s log args r) :
    EventLog.prIds s.crates ⟨[r]⟩ prAbandonedKind = [structuralSecretScrub s.measures args.prId] := by
  obtain ⟨v, hv, hid, -⟩ := h.parsed
  simp [EventLog.prIds, EventLog.payloads, h.kind, hv, hid]

theorem board_abandoned (h : Abandoning s log args r) :
    board s.crates ⟨log.records ++ [r]⟩ = { board s.crates log with
      abandoned := log.prIds s.crates prAbandonedKind ++ [structuralSecretScrub s.measures args.prId] } := by
  rw [board, openedPrs_concat (by rw [h.kind]; decide), queuedPrs_concat (by rw [h.kind]; decide),
    prIds_concat (by rw [h.kind]; decide), prIds_append, h.prIds]
  rfl

theorem board_landed (h : Landings s log rs) :
    board s.crates ⟨log.records ++ rs⟩ = { board s.crates log with
      landed := log.prIds s.crates prLandedKind ++ EventLog.prIds s.crates ⟨rs⟩ prLandedKind } := by
  rw [board, openedPrs_append, openedPrs_eq_nil fun r hr => (h.kinds r hr).1, queuedPrs_append,
    queuedPrs_eq_nil fun r hr => (h.kinds r hr).2.1, prIds_append, prIds_append,
    @prIds_eq_nil s.crates rs prAbandonedKind fun r hr => (h.kinds r hr).2.2, List.append_nil, List.append_nil,
    List.append_nil]
  rfl

theorem PrCall.Effect.step {rules : PrBoard.Rules} (hlog : s.PrLog log) (h : call.Effect s log rs)
    (hallowed : call.Allowed rules s log) :
    PrBoard.Step rules (board s.crates log) (board s.crates ⟨log.records ++ rs⟩) := by
  cases h with
  | nothing =>
    rw [List.append_nil]
    exact .stay
  | opened h =>
    rw [board_opened h]
    exact .open (findPrOpened_eq_none.mp h.unopened)
  | queued h =>
    rw [board_queued h]
    refine .enqueue ?_ ?_ ?_ ?_ (hallowed h.notQueued)
    · obtain ⟨o, ho, -⟩ := h.opened
      exact ⟨o, mem_openedPrs_of_findPrOpened ho⟩
    · have hl := h.notLanded
      rw [← Bool.not_eq_true, prIsLanded_iff] at hl
      exact hl
    · rw [active_board]
      exact findPrQueued_eq_none.mp h.notQueued
    · rw [active_board]
      exact h.fresh
  | abandoned h =>
    rw [board_abandoned h]
    refine .abandon ?_ ?_ ?_ hallowed
    · obtain ⟨o, ho⟩ := h.opened
      exact ⟨o, mem_openedPrs_of_findPrOpened ho⟩
    · have hl := h.notLanded
      rw [← Bool.not_eq_true, prIsLanded_iff] at hl
      exact hl
    · exact (findPrAbandonedReason_eq_none hlog).mp h.notAbandoned
  | settled h hid =>
    rw [board_landed h]
    exact .land h.nodup (by rw [active_board]; exact h.active)
  | batched h =>
    rw [board_landed h]
    exact .land h.nodup (by rw [active_board]; exact h.active)

theorem Scrubber.PrLog.append (h : s.PrLog log) (hr : s.PrLog ⟨rs⟩) : s.PrLog ⟨log.records ++ rs⟩ := by
  refine ⟨?_, ?_, ?_, ?_⟩
  · rw [queuedPrs_append]
    exact List.forall_mem_append.mpr ⟨h.addresses, hr.addresses⟩
  · rw [queuedPrs_append]
    exact List.forall_mem_append.mpr ⟨h.items, hr.items⟩
  · rw [prIds_append, queuedPrs_append, List.map_append, h.named, hr.named]
  · rw [payloads_append]
    exact List.forall_mem_append.mpr ⟨h.reasoned, hr.reasoned⟩

theorem Scrubber.PrLog.of_kinds (h : ∀ r ∈ rs, r.kind ≠ prQueuedKind ∧ r.kind ≠ prAbandonedKind) : s.PrLog ⟨rs⟩ := by
  have hqueued : queuedPrs s.crates ⟨rs⟩ = [] := queuedPrs_eq_nil fun r hr => (h r hr).1
  have hids : EventLog.prIds s.crates ⟨rs⟩ prQueuedKind = [] := prIds_eq_nil fun r hr => (h r hr).1
  have habandoned : EventLog.payloads s.crates ⟨rs⟩ prAbandonedKind = [] := payloads_eq_nil fun r hr => (h r hr).2
  exact ⟨by simp [hqueued], by simp [hqueued], by simp [hqueued, hids], by simp [habandoned]⟩

theorem Queueing.prLog {args : LandArgs} (h : Queueing s log args r) : s.PrLog ⟨[r]⟩ := by
  have hids : EventLog.prIds s.crates ⟨[r]⟩ prQueuedKind = [(nextEntry s log args).prId] := by
    have hparsed := h.parsed
    rw [parseQueued] at hparsed
    simp only [Option.bind_eq_bind, Option.bind_eq_some_iff, Option.pure_def, Option.some.injEq] at hparsed
    obtain ⟨v, hv, id, hid, item, -, index, -, he⟩ := hparsed
    simp [EventLog.prIds, EventLog.payloads, h.kind, hv, hid, nextEntry, ← congrArg QueuedPr.prId he]
  have habandoned : EventLog.payloads s.crates ⟨[r]⟩ prAbandonedKind = [] := by
    refine payloads_eq_nil ?_
    rw [List.forall_mem_singleton, h.kind]
    decide
  refine ⟨?_, ?_, ?_, by simp [habandoned]⟩
  · rw [h.queuedPrs, List.forall_mem_singleton]
    exact structuralSecretScrub_idem _ _
  · rw [h.queuedPrs, List.forall_mem_singleton]
    simp only [nextEntry]
  · rw [h.queuedPrs, hids, List.map_singleton]

theorem Abandoning.prLog (h : Abandoning s log args r) : s.PrLog ⟨[r]⟩ := by
  have hk : ∀ x ∈ [r], x.kind ≠ prQueuedKind := by
    rw [List.forall_mem_singleton, h.kind]
    decide
  have hqueued : queuedPrs s.crates ⟨[r]⟩ = [] := queuedPrs_eq_nil hk
  have hids : EventLog.prIds s.crates ⟨[r]⟩ prQueuedKind = [] := prIds_eq_nil hk
  obtain ⟨v, hv, -, hreason⟩ := h.parsed
  have habandoned : EventLog.payloads s.crates ⟨[r]⟩ prAbandonedKind = [v] := by
    simp [EventLog.payloads, h.kind, hv]
  exact ⟨by simp [hqueued], by simp [hqueued], by simp [hqueued, hids], by simp [habandoned, hreason]⟩

theorem PrCall.Effect.prLog (hlog : s.PrLog log) (h : call.Effect s log rs) : s.PrLog ⟨log.records ++ rs⟩ := by
  refine hlog.append ?_
  cases h with
  | nothing => exact .of_kinds nofun
  | opened h =>
    refine .of_kinds ?_
    rw [List.forall_mem_singleton, h.kind]
    decide
  | queued h => exact h.prLog
  | abandoned h => exact h.prLog
  | settled h hid => exact .of_kinds fun r hr => (h.kinds r hr).2
  | batched h => exact .of_kinds fun r hr => (h.kinds r hr).2

end Refinement

def EveryCall {ω : Type} (s : Scrubber) (host : LandHost ω) (P : EventLog → PrCall ω → Prop) :
    List (PrCall ω) → EventLog → Prop
  | [], _ => True
  | call :: calls, log => P log call ∧ EveryCall s host P calls (call.run s host log)

variable {log : EventLog}

theorem EveryCall.append {ω : Type} {s : Scrubber} {host : LandHost ω} {P : EventLog → PrCall ω → Prop}
    {calls calls' : List (PrCall ω)} :
    EveryCall s host P (calls ++ calls') log ↔
      EveryCall s host P calls log ∧ EveryCall s host P calls' (runPrCalls s host calls log) := by
  induction calls generalizing log with
  | nil => simp [EveryCall, runPrCalls]
  | cons call calls ih =>
    rw [List.cons_append, EveryCall, EveryCall, ih, and_assoc]
    rfl

section Runs

variable {s : Scrubber} {ω : Type} {host : LandHost ω}

theorem runPrCalls_board (hc : s.crates.Json) {rules : PrBoard.Rules} (calls : List (PrCall ω)) {log : EventLog}
    (hlog : s.PrLog log) (hallowed : EveryCall s host (fun log call => call.Allowed rules s log) calls log) :
    s.PrLog (runPrCalls s host calls log) ∧
      (∃ rs, runPrCalls s host calls log = ⟨log.records ++ rs⟩) ∧
      Relation.ReflTransGen (PrBoard.Step rules) (board s.crates log)
        (board s.crates (runPrCalls s host calls log)) := by
  induction calls generalizing log with
  | nil => exact ⟨hlog, ⟨[], by rw [List.append_nil]; rfl⟩, .refl⟩
  | cons call calls ih =>
    obtain ⟨rs, heffect, hrun⟩ := call.effect hc hlog host
    obtain ⟨hcall, hrest⟩ := hallowed
    have hstep := heffect.step hlog hcall
    rw [hrun] at hrest
    obtain ⟨hkept, ⟨rs', happend⟩, hsteps⟩ := ih (heffect.prLog hlog) hrest
    have hcons : runPrCalls s host (call :: calls) log = runPrCalls s host calls ⟨log.records ++ rs⟩ := by
      rw [← hrun]
      rfl
    rw [hcons]
    exact ⟨hkept, ⟨rs ++ rs', by rw [happend, List.append_assoc]⟩, .head hstep hsteps⟩

theorem everyCall_anyCaller (s : Scrubber) (host : LandHost ω) (calls : List (PrCall ω)) (log : EventLog) :
    EveryCall s host (fun log call => call.Allowed .anyCaller s log) calls log := by
  induction calls generalizing log with
  | nil => trivial
  | cons call calls ih =>
    refine ⟨?_, ih _⟩
    cases call <;> simp [PrCall.Allowed, PrBoard.Rules.anyCaller]

theorem EveryCall.imp {P Q : EventLog → PrCall ω → Prop} {log₀ : EventLog} (hc : s.crates.Json)
    (h : ∀ log call, s.PrLog log → P log call → Q log call) {calls : List (PrCall ω)} (hlog : s.PrLog log₀)
    (hP : EveryCall s host P calls log₀) : EveryCall s host Q calls log₀ := by
  induction calls generalizing log₀ with
  | nil => trivial
  | cons call calls ih =>
    obtain ⟨rs, heffect, hrun⟩ := call.effect hc hlog host
    refine ⟨h log₀ call hlog hP.1, ih ?_ hP.2⟩
    rw [hrun]
    exact heffect.prLog hlog

end Runs

def PrFree (log : EventLog) : Prop :=
  ∀ r ∈ log.records, r.kind ≠ prOpenedKind ∧ r.kind ≠ prQueuedKind ∧ r.kind ≠ prLandedKind ∧ r.kind ≠ prAbandonedKind

theorem PrFree.prLog {s : Scrubber} (h : PrFree log) : s.PrLog log :=
  .of_kinds fun r hr => ⟨(h r hr).2.1, (h r hr).2.2.2⟩

theorem PrFree.board (h : PrFree log) (c : Crates) : board c log = ⟨[], [], [], []⟩ := by
  rw [Hugit.board, openedPrs_eq_nil fun r hr => (h r hr).1, queuedPrs_eq_nil fun r hr => (h r hr).2.1,
    @prIds_eq_nil c log.records prLandedKind fun r hr =>
    (h r hr).2.2.1, @prIds_eq_nil c log.records prAbandonedKind fun r hr => (h r hr).2.2.2]

end Hugit
