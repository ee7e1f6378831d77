import Hugit.Text
import Mathlib.Data.List.Forall2

/-! The outage queue of the mirror and the writer that drains it to a push target.
A drain takes every entry off the queue, pushed or not. -/

namespace Hugit

def queueCapacity : Nat := 4096

structure QueueEntry where
  seq : Nat
  refName : String
  oid : String
  deriving DecidableEq

structure QueueIncident where
  kind : String
  capacity : Nat
  rejectedSeq : Nat
  detail : String
  deriving DecidableEq

inductive EnqueueError where
  | backpressure (incident : QueueIncident)
  deriving DecidableEq

structure OutageQueue where
  capacity : Nat
  entries : List QueueEntry
  deriving DecidableEq

namespace OutageQueue

def withCapacity (capacity : Nat) : OutageQueue := ⟨capacity, []⟩

def isFull (q : OutageQueue) : Bool := q.capacity ≤ q.entries.length

def overflow (q : OutageQueue) (entry : QueueEntry) : QueueIncident where
  kind := "queue_overflow_backpressure"
  capacity := q.capacity
  rejectedSeq := entry.seq
  detail := "outage queue at capacity bound " ++ toString q.capacity ++ "; entry seq " ++ toString entry.seq ++
    " held back (producer must apply backpressure and retry)"

def enqueue (q : OutageQueue) (entry : QueueEntry) : Except EnqueueError Unit × OutageQueue :=
  if q.isFull then (.error (.backpressure (q.overflow entry)), q)
  else (.ok (), { q with entries := q.entries ++ [entry] })

def dequeue (q : OutageQueue) : Option (QueueEntry × OutageQueue) :=
  match q.entries with
  | [] => none
  | entry :: rest => some (entry, { q with entries := rest })

end OutageQueue

structure ContentHash where
  hex : String
  deriving DecidableEq

def ContentHash.new (hex : String) : ContentHash :=
  ⟨String.ofList (toAsciiLowercase hex.toList)⟩

inductive PushError where
  | rejected (refName detail : String)
  deriving DecidableEq

structure DivergenceSignal where
  refName : String
  expected : ContentHash
  observed : ContentHash
  detail : String
  deriving DecidableEq

inductive VerifyOutcome where
  | verified (refName : String) (hash : ContentHash)
  | diverged (signal : DivergenceSignal)
  deriving DecidableEq

def verifyPush (refName : String) (expected observed : ContentHash) : VerifyOutcome :=
  if expected = observed then .verified refName expected
  else .diverged ⟨refName, expected, observed, "post-push content-hash mismatch on " ++ refName ++ ": expected " ++
    expected.hex ++ ", mirror observed " ++ observed.hex ++ " (fail-CLOSED, not marked synced)"⟩

structure PushReport where
  refName : String
  seq : Nat
  verify : VerifyOutcome
  latencyMs : Nat
  deriving DecidableEq

structure MirrorPushTarget (τ : Type) where
  pushRef : τ → String → ContentHash → Except PushError ContentHash × τ

namespace OutboundWriter

variable {τ : Type} (m : MirrorPushTarget τ)

def replicate (target : τ) (entry : QueueEntry) (elapsedMs : Nat) : PushReport × τ :=
  let expected := ContentHash.new entry.oid
  let latencyMs := min elapsedMs (2 ^ 64 - 1)
  match m.pushRef target entry.refName expected with
  | (.ok observed, target) =>
    (⟨entry.refName, entry.seq, verifyPush entry.refName expected observed, latencyMs⟩, target)
  | (.error (.rejected refName detail), target) =>
    (⟨refName, entry.seq, .diverged ⟨refName, expected, ContentHash.new "",
      "push rejected (fail-CLOSED, not synced): " ++ detail⟩, latencyMs⟩, target)

def drainEntries (latencyFor : QueueEntry → Nat) : List QueueEntry → τ → List PushReport × τ
  | [], target => ([], target)
  | entry :: rest, target =>
    let pushed := replicate m target entry (latencyFor entry)
    let drained := drainEntries latencyFor rest pushed.2
    (pushed.1 :: drained.1, drained.2)

def drain (latencyFor : QueueEntry → Nat) (q : OutageQueue) (target : τ) : List PushReport × OutageQueue × τ :=
  let drained := drainEntries m latencyFor q.entries target
  (drained.1, { q with entries := [] }, drained.2)

end OutboundWriter

inductive OutageCall where
  | enqueue (entry : QueueEntry)
  | drain (latencyFor : QueueEntry → Nat)

/-- A writer and its queue, the entries the queue has accepted and the reports of
the drains, both in order. -/
structure OutageRun (τ : Type) where
  queue : OutageQueue
  target : τ
  accepted : List QueueEntry
  reports : List PushReport

section

variable {τ : Type} (m : MirrorPushTarget τ)

def OutageRun.start (capacity : Nat) (target : τ) : OutageRun τ :=
  ⟨.withCapacity capacity, target, [], []⟩

def OutageRun.call (r : OutageRun τ) : OutageCall → OutageRun τ
  | .enqueue entry =>
    match r.queue.enqueue entry with
    | (.ok (), queue) => { r with queue := queue, accepted := r.accepted ++ [entry] }
    | (.error _, queue) => { r with queue := queue }
  | .drain latencyFor =>
    let d := OutboundWriter.drain m latencyFor r.queue r.target
    { r with queue := d.2.1, target := d.2.2, reports := r.reports ++ d.1 }

def OutageRun.calls (r : OutageRun τ) (calls : List OutageCall) : OutageRun τ :=
  calls.foldl (OutageRun.call m) r

theorem OutageRun.calls_concat (r : OutageRun τ) (calls : List OutageCall) (call : OutageCall) :
    r.calls m (calls ++ [call]) = (r.calls m calls).call m call := by
  simp [OutageRun.calls]

def PushReport.Verifies (entry : QueueEntry) (report : PushReport) : Prop :=
  report.seq = entry.seq ∧ report.verify = .verified entry.refName (ContentHash.new entry.oid)

/-- Every accepted entry is verified or still waits, in arrival order. -/
def OutageRun.NothingLost (r : OutageRun τ) : Prop :=
  ∃ pushed, r.accepted = pushed ++ r.queue.entries ∧ List.Forall₂ PushReport.Verifies pushed r.reports

def MirrorPushTarget.AcceptsAll : τ → List QueueEntry → Prop
  | _, [] => True
  | target, entry :: rest =>
    let answer := m.pushRef target entry.refName (ContentHash.new entry.oid)
    answer.1 = .ok (ContentHash.new entry.oid) ∧ AcceptsAll answer.2 rest

theorem verifies_replicate (target : τ) (entry : QueueEntry) (elapsedMs : Nat) :
    PushReport.Verifies entry (OutboundWriter.replicate m target entry elapsedMs).1 ↔
      (m.pushRef target entry.refName (ContentHash.new entry.oid)).1 = .ok (ContentHash.new entry.oid) := by
  unfold OutboundWriter.replicate PushReport.Verifies
  dsimp only
  rcases m.pushRef target entry.refName (ContentHash.new entry.oid) with ⟨answer | observed, target'⟩
  · cases answer
    simp
  · by_cases h : ContentHash.new entry.oid = observed
    · simp [verifyPush, h]
    · simp [verifyPush, h, Ne.symm h]

theorem target_replicate (target : τ) (entry : QueueEntry) (elapsedMs : Nat) :
    (OutboundWriter.replicate m target entry elapsedMs).2 =
      (m.pushRef target entry.refName (ContentHash.new entry.oid)).2 := by
  unfold OutboundWriter.replicate
  dsimp only
  rcases m.pushRef target entry.refName (ContentHash.new entry.oid) with ⟨answer | observed, target'⟩
  · cases answer
    rfl
  · rfl

theorem verifies_drainEntries (latencyFor : QueueEntry → Nat) (entries : List QueueEntry) (target : τ) :
    List.Forall₂ PushReport.Verifies entries (OutboundWriter.drainEntries m latencyFor entries target).1 ↔
      m.AcceptsAll target entries := by
  induction entries generalizing target with
  | nil => simp [OutboundWriter.drainEntries, MirrorPushTarget.AcceptsAll]
  | cons entry rest ih =>
    rw [OutboundWriter.drainEntries, List.forall₂_cons, verifies_replicate, ih, target_replicate]
    rfl

theorem enqueue_entries (q : OutageQueue) (entry : QueueEntry) :
    (q.enqueue entry = (.ok (), { q with entries := q.entries ++ [entry] })) ∨
      ∃ e, q.enqueue entry = (.error e, q) := by
  unfold OutageQueue.enqueue
  split_ifs
  · exact .inr ⟨_, rfl⟩
  · exact .inl rfl

theorem nothingLost_enqueue {r : OutageRun τ} (h : r.NothingLost) (entry : QueueEntry) :
    (r.call m (.enqueue entry)).NothingLost := by
  obtain ⟨pushed, haccepted, hreports⟩ := h
  rcases enqueue_entries r.queue entry with he | ⟨e, he⟩
  · simp only [OutageRun.call, he]
    exact ⟨pushed, by simp [haccepted], hreports⟩
  · simp only [OutageRun.call, he]
    exact ⟨pushed, haccepted, hreports⟩

theorem nothingLost_drain {r : OutageRun τ} (h : r.NothingLost) (latencyFor : QueueEntry → Nat) :
    (r.call m (.drain latencyFor)).NothingLost ↔ m.AcceptsAll r.target r.queue.entries := by
  obtain ⟨pushed, haccepted, hreports⟩ := h
  rw [← verifies_drainEntries m latencyFor]
  constructor
  · rintro ⟨pushed', haccepted', hreports'⟩
    simp only [OutageRun.call, OutboundWriter.drain, List.append_nil] at haccepted' hreports'
    obtain rfl : pushed' = pushed ++ r.queue.entries := haccepted'.symm.trans haccepted
    have hlast := List.forall₂_drop_append _ _ _ hreports'
    rwa [← hreports.length_eq, List.drop_left] at hlast
  · intro hdrained
    refine ⟨pushed ++ r.queue.entries, ?_, List.rel_append hreports hdrained⟩
    simp [OutageRun.call, OutboundWriter.drain, haccepted]

theorem outage_queue_loses_nothing_iff (capacity : Nat) (target : τ) (calls : List OutageCall) :
    (∀ before after, calls = before ++ after → ((OutageRun.start capacity target).calls m before).NothingLost) ↔
      ∀ before latencyFor after, calls = before ++ .drain latencyFor :: after →
        m.AcceptsAll ((OutageRun.start capacity target).calls m before).target
          ((OutageRun.start capacity target).calls m before).queue.entries := by
  constructor
  · intro h before latencyFor after he
    have hafter := h (before ++ [.drain latencyFor]) after (by simp [he])
    rw [OutageRun.calls_concat] at hafter
    exact (nothingLost_drain m (h before _ he) latencyFor).mp hafter
  · intro h before after he
    induction before using List.reverseRecOn generalizing after with
    | nil => exact ⟨[], rfl, .nil⟩
    | append_singleton before call ih =>
      have hbefore := ih (call :: after) (by simp [he])
      rw [OutageRun.calls_concat]
      cases call with
      | enqueue entry => exact nothingLost_enqueue m hbefore entry
      | drain latencyFor =>
        exact (nothingLost_drain m hbefore latencyFor).mpr (h before latencyFor after (by simp [he]))

end

def outage : MirrorPushTarget Unit :=
  ⟨fun _ refName _ => (.error (.rejected refName "503"), ())⟩

/-- One entry, one drain during an outage: the entry is nowhere. -/
theorem drained_during_outage :
    let r := (OutageRun.start queueCapacity ()).calls outage
      [.enqueue ⟨1, "refs/heads/main", "ab"⟩, .drain fun _ => 5]
    r.accepted = [⟨1, "refs/heads/main", "ab"⟩] ∧ r.queue.entries = [] ∧
      r.reports.map PushReport.verify = [.diverged ⟨"refs/heads/main", ContentHash.new "ab", ContentHash.new "",
        "push rejected (fail-CLOSED, not synced): 503"⟩] := by
  refine ⟨rfl, rfl, rfl⟩

end Hugit
