import Hugit.Interleaving
import Hugit.Serializer

/-! The serializer under concurrent callers. Each load and compare-and-swap of the
admission gate is one step, and so is each section under the writer lock. -/

namespace Hugit

structure Semaphore where
  inUse : Nat
  peak : Nat
  capacity : Nat

/-- The state all callers share. `owners` is a history variable: the caller of
each record appended so far. -/
structure Inner where
  log : EventLog
  poisoned : Bool
  gate : Semaphore
  capacity : Nat
  owners : List Nat

def Inner.fromLog (log : EventLog) (capacity : Nat) : Inner where
  log := log
  poisoned := false
  gate := ⟨0, 0, max capacity 1⟩
  capacity := max capacity 1
  owners := []

/-- Where a call stands. A value `cur` is what the caller last read from `in_use`. -/
inductive Phase where
  | entered
  | acquiring (cur : Nat)
  | acquired (cur : Nat)
  | admitted
  | dropping (result : Except CallError EventRecord)
  | releasing (result : Except CallError EventRecord) (cur : Nat)
  | returned (result : Except CallError EventRecord)

namespace Phase

def live : Phase → Bool
  | acquired _ | admitted | dropping _ | releasing .. => true
  | _ => false

def result : Phase → Option (Except CallError EventRecord)
  | dropping result | releasing result _ | returned result => some result
  | _ => none

end Phase

structure Caller where
  call : Call
  phase : Phase

def Caller.enter (call : Call) : Caller :=
  ⟨call, .entered⟩

namespace Inner

def setInUse (s : Inner) (n : Nat) : Inner :=
  { s with gate := { s.gate with inUse := n } }

def raisePeak (s : Inner) (n : Nat) : Inner :=
  { s with gate := { s.gate with peak := max s.gate.peak n } }

def critical (c : Crates) (s : Inner) (i : Nat) (call : Call) : Inner :=
  let log := (call.locked c s.log).2
  { s with log := log, owners := s.owners ++ List.replicate (log.len - s.log.len) i }

end Inner

/-- One step of caller `i`. A weak exchange may fail although the value matches. -/
inductive CallStep (c : Crates) (i : Nat) : Inner → Caller → Inner → Caller → Prop
  | load (s : Inner) (call : Call) :
      CallStep c i s ⟨call, .entered⟩ s ⟨call, .acquiring s.gate.inUse⟩
  | refuse (s : Inner) (call : Call) {cur : Nat} (h : s.gate.capacity ≤ cur) :
      CallStep c i s ⟨call, .acquiring cur⟩
        s ⟨call, .returned (.error (call.refused (.backpressure s.capacity)))⟩
  | acquire (s : Inner) (call : Call) {cur : Nat} (h : cur < s.gate.capacity) (he : s.gate.inUse = cur) :
      CallStep c i s ⟨call, .acquiring cur⟩ (s.setInUse (cur + 1)) ⟨call, .acquired cur⟩
  | retry (s : Inner) (call : Call) {cur : Nat} (h : cur < s.gate.capacity) :
      CallStep c i s ⟨call, .acquiring cur⟩ s ⟨call, .acquiring s.gate.inUse⟩
  | fetchMax (s : Inner) (call : Call) {cur : Nat} :
      CallStep c i s ⟨call, .acquired cur⟩ (s.raisePeak (cur + 1)) ⟨call, .admitted⟩
  | lock (s : Inner) (call : Call) (h : s.poisoned = false) :
      CallStep c i s ⟨call, .admitted⟩ (s.critical c i call) ⟨call, .dropping (call.locked c s.log).1⟩
  | lockPoisoned (s : Inner) (call : Call) (h : s.poisoned = true) :
      CallStep c i s ⟨call, .admitted⟩ s ⟨call, .dropping (.error (call.refused .writerPoisoned))⟩
  | dropLoad (s : Inner) (call : Call) {result : Except CallError EventRecord} :
      CallStep c i s ⟨call, .dropping result⟩ s ⟨call, .releasing result s.gate.inUse⟩
  | release (s : Inner) (call : Call) {result : Except CallError EventRecord} {cur : Nat}
      (he : s.gate.inUse = cur) :
      CallStep c i s ⟨call, .releasing result cur⟩ (s.setInUse (cur - 1)) ⟨call, .returned result⟩
  | dropRetry (s : Inner) (call : Call) {result : Except CallError EventRecord} {cur : Nat} :
      CallStep c i s ⟨call, .releasing result cur⟩ s ⟨call, .releasing result s.gate.inUse⟩

inductive PoisonStep : Inner → Inner → Prop
  | poison (s : Inner) : PoisonStep s { s with poisoned := true }

def IsEntering (caller : Caller) : Prop :=
  ∃ call, caller = .enter call

def SerializerReachable (c : Crates) (log : EventLog) (capacity : Nat) (s : System Inner Caller) : Prop :=
  System.Reachable IsEntering PoisonStep (CallStep c) ⟨.fromLog log capacity, []⟩ s

theorem permits_eq_live {c : Crates} {log : EventLog} {capacity : Nat} {s : System Inner Caller}
    (h : SerializerReachable c log capacity s) :
    s.shared.gate.inUse = s.threads.countP (·.phase.live) := by
  have hcount := @System.Reachable.count _ _ IsEntering PoisonStep (CallStep c)
    (fun s => s.gate.inUse) (fun caller => caller.phase.live)
  refine hcount ?_ ?_ ?_ h rfl
  · rintro _ ⟨call, rfl⟩
    rfl
  · rintro _ _ ⟨⟩
    rfl
  · intro i s t s' t' hpos hstep
    cases hstep with
    | acquire call h he => simp [Inner.setInUse, Phase.live, he]
    | release call he =>
      have hh := hpos rfl
      simp only [Inner.setInUse, Phase.live, Bool.toNat_true, Bool.toNat_false]
      omega
    | _ => rfl

theorem permits_le_capacity {c : Crates} {log : EventLog} {capacity : Nat} {s : System Inner Caller}
    (h : SerializerReachable c log capacity s) :
    s.shared.gate.inUse ≤ max capacity 1 ∧ s.shared.gate.peak ≤ max capacity 1 := by
  have hrule := @System.Reachable.holds _ _ IsEntering PoisonStep (CallStep c)
    (fun _ s => s.gate.capacity = max capacity 1 ∧ s.gate.inUse ≤ max capacity 1 ∧
      s.gate.peak ≤ max capacity 1)
    (fun _ _ caller => ∀ cur, caller.phase = .acquired cur → cur < max capacity 1)
  refine (hrule ?_ ?_ ?_ h ⟨⟨rfl, by simp [Inner.fromLog], by simp [Inner.fromLog]⟩, by simp⟩).1.2
  · rintro n s _ hg ⟨call, rfl⟩
    exact ⟨hg, fun cur hc => by cases hc⟩
  · rintro n s _ hg ⟨⟩
    exact ⟨hg, fun i t hp => hp⟩
  · intro n i s t s' t' ⟨hcap, huse, hpeak⟩ _ hp hstep
    cases hstep with
    | acquire call hlt he =>
      have hlt' := hcap ▸ hlt
      refine ⟨⟨hcap, hlt', hpeak⟩, fun cur hc => ?_, fun _ _ _ hq => hq⟩
      cases hc
      exact hlt'
    | fetchMax call =>
      exact ⟨⟨hcap, huse, max_le hpeak (hp _ rfl)⟩, fun cur hc => (by cases hc), fun _ _ _ hq => hq⟩
    | lock call hl =>
      exact ⟨⟨hcap, huse, hpeak⟩, fun cur hc => (by cases hc), fun _ _ _ hq => hq⟩
    | release call he =>
      refine ⟨⟨hcap, ?_, hpeak⟩, fun cur hc => (by cases hc), fun _ _ _ hq => hq⟩
      exact (Nat.sub_le _ 1).trans (he ▸ huse)
    | _ => exact ⟨⟨hcap, huse, hpeak⟩, fun cur hc => (by cases hc), fun _ _ _ hq => hq⟩

inductive Accounts (base : EventLog) (s : Inner) (i : Nat) : Except CallError EventRecord → Prop
  | record {k : Nat} {r : EventRecord} (hone : s.owners.count i = 1) (hk : s.owners[k]? = some i)
      (hr : s.log.records[base.len + k]? = some r) : Accounts base s i (.ok r)
  | denial {e : CallError} {k : Nat} {r : EventRecord} (he : e.isDenial = true)
      (hone : s.owners.count i = 1) (hk : s.owners[k]? = some i)
      (hr : s.log.records[base.len + k]? = some r) (hkind : r.kind = authzDeniedKind) :
      Accounts base s i (.error e)
  | nothing {e : CallError} (he : e.isDenial = false) (hnone : i ∉ s.owners) : Accounts base s i (.error e)

def Settled (base : EventLog) (i : Nat) (s : Inner) (caller : Caller) : Prop :=
  match caller.phase.result with
  | none => i ∉ s.owners
  | some result => Accounts base s i result

structure Owned (base : EventLog) (n : Nat) (s : Inner) : Prop where
  gapFree : GapFree s.log.records
  history : base.records <+: s.log.records
  length : s.log.len = base.len + s.owners.length
  owner_lt : ∀ i ∈ s.owners, i < n

theorem isDenial_refused_backpressure (call : Call) (n : Nat) :
    (call.refused (.backpressure n)).isDenial = false := by
  cases call <;> rfl

theorem isDenial_refused_poisoned (call : Call) : (call.refused .writerPoisoned).isDenial = false := by
  cases call <;> rfl

theorem Settled.grow {base : EventLog} {i : Nat} {s s' : Inner} {caller : Caller}
    (h : Settled base i s caller) {rest : List Nat} (hlog : s.log.records <+: s'.log.records)
    (howners : s'.owners = s.owners ++ rest) (hi : i ∉ rest) : Settled base i s' caller := by
  have hcount : s'.owners.count i = s.owners.count i := by
    rw [howners, List.count_append, List.count_eq_zero_of_not_mem hi, Nat.add_zero]
  have howner {k : Nat} (hk : s.owners[k]? = some i) : s'.owners[k]? = some i := by
    rw [howners, List.getElem?_append_left (List.getElem?_eq_some_iff.mp hk).1, hk]
  have hrecord {k : Nat} {r : EventRecord} (hr : s.log.records[k]? = some r) :
      s'.log.records[k]? = some r := by
    obtain ⟨tail, htail⟩ := hlog
    rw [← htail, List.getElem?_append_left (List.getElem?_eq_some_iff.mp hr).1, hr]
  have hnone (hm : i ∉ s.owners) : i ∉ s'.owners := by
    rw [howners, List.mem_append]
    exact fun hh => hh.elim hm hi
  unfold Settled at h ⊢
  cases hres : caller.phase.result with
  | none =>
    rw [hres] at h
    exact hnone h
  | some result =>
    rw [hres] at h
    cases h with
    | record hone hk hr => exact .record (hcount.trans hone) (howner hk) (hrecord hr)
    | denial he hone hk hr hkind => exact .denial he (hcount.trans hone) (howner hk) (hrecord hr) hkind
    | nothing he hm => exact .nothing he (hnone hm)

theorem critical_cases (c : Crates) (s : Inner) (i : Nat) (call : Call) :
    (∃ r, (s.critical c i call).log.records = s.log.records ++ [r] ∧
      (s.critical c i call).owners = s.owners ++ [i] ∧ r.seq = s.log.len ∧
      ((call.locked c s.log).1 = .ok r ∨
        r.kind = authzDeniedKind ∧ ∃ e, e.isDenial = true ∧ (call.locked c s.log).1 = .error e)) ∨
    (s.critical c i call = s ∧ ∃ e, e.isDenial = false ∧ (call.locked c s.log).1 = .error e) := by
  have hacc := call.locked_accounted c s.log
  have hone {log : EventLog} {r : EventRecord} (hlog : log.records = s.log.records ++ [r]) :
      List.replicate (log.len - s.log.len) i = [i] := by
    have hlen : log.len = s.log.len + 1 := by simp [EventLog.len, hlog]
    simp [hlen]
  unfold Inner.critical
  generalize call.locked c s.log = outcome at hacc ⊢
  obtain ⟨result, log⟩ := outcome
  cases hacc with
  | record kind principalChain payload recordedAt =>
    exact .inl ⟨_, rfl, by simp only [hone rfl], rfl, .inl rfl⟩
  | denial he principalChain payload recordedAt =>
    exact .inl ⟨_, rfl, by simp only [hone rfl], rfl, .inr ⟨rfl, _, he, rfl⟩⟩
  | nothing he => exact .inr ⟨by simp, _, he, rfl⟩

theorem critical_settled {c : Crates} {base : EventLog} {s : Inner} {n i : Nat} {call : Call}
    (ho : Owned base n s) (hi : i < n) (hnone : i ∉ s.owners) :
    Owned base n (s.critical c i call) ∧
      Accounts base (s.critical c i call) i (call.locked c s.log).1 ∧
      ∀ j caller, j ≠ i → Settled base j s caller → Settled base j (s.critical c i call) caller := by
  rcases critical_cases c s i call with ⟨r, hlog, howners, hseq, hres⟩ | ⟨hsame, e, he, hres⟩
  · have hone : (s.critical c i call).owners.count i = 1 := by
      rw [howners, List.count_append, List.count_eq_zero_of_not_mem hnone]
      simp
    have hk : (s.critical c i call).owners[s.owners.length]? = some i := by simp [howners]
    have hr : (s.critical c i call).log.records[base.len + s.owners.length]? = some r := by
      rw [← ho.length, hlog]
      simp [EventLog.len]
    refine ⟨⟨?_, ?_, ?_, ?_⟩, ?_, fun j caller hj hs => ?_⟩
    · rw [hlog]
      exact ho.gapFree.concat hseq
    · rw [hlog]
      exact ho.history.trans (List.prefix_append _ _)
    · have hlen := ho.length
      simp only [EventLog.len, hlog, howners, List.length_append, List.length_singleton] at hlen ⊢
      omega
    · rw [howners]
      intro j hj
      rcases List.mem_append.mp hj with hj | hj
      · exact ho.owner_lt j hj
      · exact List.mem_singleton.mp hj ▸ hi
    · rcases hres with hres | ⟨hkind, e, he, hres⟩
      · rw [hres]
        exact .record hone hk hr
      · rw [hres]
        exact .denial he hone hk hr hkind
    · exact hs.grow (hlog ▸ List.prefix_append _ _) howners (by simpa using hj)
  · rw [hsame, hres]
    exact ⟨ho, .nothing he hnone, fun _ _ _ hs => hs⟩

theorem CallStep.settled {c : Crates} {base : EventLog} {n i : Nat} {s s' : Inner} {t t' : Caller}
    (ho : Owned base n s) (hi : i < n) (ht : Settled base i s t) (h : CallStep c i s t s' t') :
    Owned base n s' ∧ Settled base i s' t' ∧ ∀ j u, j ≠ i → Settled base j s u → Settled base j s' u := by
  have hsame (hlog : s'.log = s.log) (howners : s'.owners = s.owners) : Owned base n s' ∧
      ∀ j u, Settled base j s u → Settled base j s' u := by
    refine ⟨⟨hlog ▸ ho.gapFree, hlog ▸ ho.history, by rw [hlog, howners]; exact ho.length,
      howners ▸ ho.owner_lt⟩, fun j u hu => ?_⟩
    exact hu.grow (hlog ▸ List.prefix_refl _) (by rw [howners, List.append_nil]) List.not_mem_nil
  cases h with
  | refuse call hcap =>
    exact ⟨ho, .nothing (isDenial_refused_backpressure call _) ht, fun _ _ _ hu => hu⟩
  | lock call hl =>
    exact critical_settled ho hi ht
  | lockPoisoned call hl =>
    exact ⟨ho, .nothing (isDenial_refused_poisoned call) ht, fun _ _ _ hu => hu⟩
  | _ =>
    obtain ⟨ho', hu'⟩ := hsame rfl rfl
    exact ⟨ho', hu' i _ ht, fun j u _ hu => hu' j u hu⟩

/-- At every point, and so once all calls are back, the permits in use are the
live ones and stay within the capacity, and each call that is back stands for its
own record, for one audit record of its denial, or for none; every new record has
its call. -/
theorem serializer_accounts {c : Crates} {log : EventLog} (hg : GapFree log.records) {capacity : Nat}
    {s : System Inner Caller} (h : SerializerReachable c log capacity s) :
    s.shared.gate.inUse = s.threads.countP (·.phase.live) ∧ s.shared.gate.inUse ≤ max capacity 1 ∧
      GapFree s.shared.log.records ∧ log.records <+: s.shared.log.records ∧
      s.shared.log.len = log.len + s.shared.owners.length ∧
      (∀ i ∈ s.shared.owners, i < s.threads.length) ∧
      ∀ i caller result, s.threads[i]? = some caller → caller.phase = .returned result →
        Accounts log s.shared i result := by
  have hrule := @System.Reachable.holds _ _ IsEntering PoisonStep (CallStep c) (Owned log) (Settled log)
  obtain ⟨ho, hs⟩ : s.Holds (Owned log) (Settled log) := by
    refine hrule ?_ ?_ ?_ h ⟨⟨hg, List.prefix_refl _, rfl, by simp [Inner.fromLog]⟩, by simp⟩
    · rintro n s _ ho ⟨call, rfl⟩
      refine ⟨⟨ho.gapFree, ho.history, ho.length, fun i hi => (ho.owner_lt i hi).trans n.lt_succ_self⟩, ?_⟩
      exact fun hn => (ho.owner_lt n hn).false
    · rintro n s _ ho ⟨⟩
      exact ⟨⟨ho.gapFree, ho.history, ho.length, ho.owner_lt⟩, fun i t ht =>
        ht.grow (List.prefix_refl _) (List.append_nil _).symm List.not_mem_nil⟩
    · exact fun n i s t s' t' ho hi ht hstep => hstep.settled ho hi ht
  refine ⟨permits_eq_live h, (permits_le_capacity h).1, ho.gapFree, ho.history, ho.length, ho.owner_lt, ?_⟩
  intro i caller result hi hres
  have hh := hs i caller hi
  rwa [Settled, hres] at hh

def noteCall : Call := .submit ⟨"note", ["user:a"], "a", 0⟩

theorem contended_reachable (c : Crates) : ∃ s r, SerializerReachable c .empty 1 s ∧
    s.threads = [⟨noteCall, .returned (.ok r)⟩,
      ⟨noteCall, .returned (.error (.submit (.backpressure 1)))⟩] ∧ s.shared.owners = [0] := by
  have h0 : SerializerReachable c .empty 1 ⟨.fromLog .empty 1, []⟩ := .refl
  have h1 := h0.tail (.spawn ⟨noteCall, rfl⟩)
  have h2 := h1.tail (.spawn ⟨noteCall, rfl⟩)
  have h3 := h2.tail (.act (i := 0) rfl (.load _ _))
  have h4 := h3.tail (.act (i := 0) rfl (.acquire _ _ (by decide) rfl))
  have h5 := h4.tail (.act (i := 1) rfl (.load _ _))
  have h6 := h5.tail (.act (i := 1) rfl (.refuse _ _ (by decide)))
  have h7 := h6.tail (.act (i := 0) rfl (.fetchMax _ _))
  have h8 := h7.tail (.act (i := 0) rfl (.lock _ _ rfl))
  have h9 := h8.tail (.act (i := 0) rfl (.dropLoad _ _))
  have h10 := h9.tail (.act (i := 0) rfl (.release _ _ rfl))
  exact ⟨_, _, h10, rfl, rfl⟩

theorem contended_accounts : ∃ s : System Inner Caller, SerializerReachable reference .empty 1 s ∧
    s.shared.gate.inUse = 0 ∧ s.shared.log.len = 1 ∧
    ∃ r, Accounts .empty s.shared 0 (.ok r) ∧
      Accounts .empty s.shared 1 (.error (.submit (.backpressure 1))) := by
  obtain ⟨s, r, h, ht, ho⟩ := contended_reachable reference
  have hempty : GapFree EventLog.empty.records := by simp [GapFree, EventLog.empty]
  obtain ⟨huse, _, _, _, hlen, _, hacc⟩ := serializer_accounts hempty h
  refine ⟨s, h, by rw [huse, ht]; rfl, by rw [hlen, ho]; rfl, r, ?_, ?_⟩
  · exact hacc 0 _ _ (by rw [ht]; rfl) rfl
  · exact hacc 1 _ _ (by rw [ht]; rfl) rfl

end Hugit
