import Hugit.PlainGit
import Hugit.ReceivePack

/-! Sequences of pushes on one store and one log. A pack may carry objects that
its target does not reach; the store stays closed under references only as long
as those are complete too. -/

namespace Hugit

namespace InMemoryCas

theorem get_put (cas : InMemoryCas) (object : CasObject) (oid : Oid) :
    (cas.put object).get oid =
      if oid = object.oid then some ((cas.get oid).getD object.bytes) else cas.get oid := by
  unfold put contains
  by_cases ho : oid = object.oid
  · subst ho
    cases hget : cas.get object.oid with
    | none =>
      have hlookup : cas.objects.lookup object.oid = none := hget
      simp [get, List.lookup_append, hlookup]
    | some bytes => simp [hget]
  · have hb : (oid == object.oid) = false := by simpa using ho
    split_ifs
    · rfl
    · simp [get, List.lookup_append, List.lookup_cons, hb]

theorem contains_put (cas : InMemoryCas) (object : CasObject) (oid : Oid) :
    (cas.put object).contains oid = true ↔ cas.contains oid = true ∨ oid = object.oid := by
  rw [contains, get_put, contains]
  by_cases ho : oid = object.oid <;> simp [ho]

theorem contains_storeObjects (objects : List CasObject) (cas : InMemoryCas) (oid : Oid) :
    (storeObjects cas objects).contains oid = true ↔
      cas.contains oid = true ∨ oid ∈ objects.map CasObject.oid := by
  induction objects generalizing cas with
  | nil => simp [storeObjects]
  | cons object objects ih =>
    have hh := ih (cas.put object)
    rw [contains_put] at hh
    rw [storeObjects, List.foldl_cons, ← storeObjects, hh, List.map_cons, List.mem_cons, or_assoc]

theorem get_storeObjects {objects : List CasObject} {cas : InMemoryCas} {oid : Oid} {bytes : Bytes}
    (h : (storeObjects cas objects).get oid = some bytes) :
    cas.get oid = some bytes ∨ ⟨oid, bytes⟩ ∈ objects := by
  induction objects generalizing cas with
  | nil => exact .inl h
  | cons object objects ih =>
    rcases ih h with hput | hmem
    · rw [get_put] at hput
      split_ifs at hput with ho
      · cases hget : cas.get oid with
        | none =>
          rw [hget] at hput
          obtain rfl : object.bytes = bytes := by simpa using hput
          exact .inr (by simp [ho])
        | some old => exact .inl (by simpa [hget] using hput)
      · exact .inl hput
    · exact .inr (List.mem_cons_of_mem _ hmem)

end InMemoryCas

variable {g : GitCodec} {p : PackCodec} {u : UnpackedPack}

theorem Packed.get_of_mem (h : Packed g p u.objects u.byOid) {oid : Oid} {bytes : Bytes}
    (hm : ⟨oid, bytes⟩ ∈ u.objects) :
    ∃ object, u.get oid = some object ∧ zlibCompress p (encodeLoose object) = .ok bytes := by
  obtain ⟨object, hobject, hbytes⟩ := h.framed _ hm
  refine ⟨object, List.lookup_eq_some_iff.mpr ?_, hbytes⟩
  obtain ⟨pre, post, hsplit⟩ := List.append_of_mem hobject
  refine ⟨pre, post, hsplit, fun e he => ?_⟩
  have hnd := h.nodup
  rw [hsplit, List.map_append, List.map_cons, List.nodup_append] at hnd
  simpa using (hnd.2.2 e.1 (List.mem_map_of_mem he) oid List.mem_cons_self).symm

theorem Packed.mem_oids (h : Packed g p u.objects u.byOid) (oid : Oid) :
    oid ∈ u.objects.map CasObject.oid ↔ (u.get oid).isSome = true := by
  rw [h.oids, UnpackedPack.get, List.lookup_isSome_iff]
  simp only [List.mem_map, beq_iff_eq]
  exact exists_congr fun e => and_congr_right fun _ => eq_comm

section

variable (g : GitCodec) (p : PackCodec) (c : Crates)

def InMemoryCas.next (cas : InMemoryCas) (oid : Oid) : List Oid :=
  match cas.get oid with
  | none => []
  | some bytes =>
    match decodeCasObject p bytes with
    | .error _ => []
    | .ok object => g.children object

def InMemoryCas.Complete (cas : InMemoryCas) (target : Oid) : Prop :=
  ∀ y, Reaches (cas.next g p) [target] y → cas.contains y = true

def InMemoryCas.Closed (cas : InMemoryCas) : Prop :=
  ∀ oid, ∀ y ∈ cas.next g p oid, cas.contains y = true

structure Repository where
  cas : InMemoryCas
  log : EventLog
  deriving DecidableEq

def Repository.empty : Repository := ⟨.empty, .empty⟩

structure Push where
  gate : FlagGate
  req : ReceiveRequest
  currentRefs : String → Option Oid
  limits : RecvLimits

def Push.admit (push : Push) (cas : InMemoryCas) : Except ReceiveError UnpackedPack :=
  admitPush g p push.gate push.req cas push.currentRefs push.limits

def Push.run (push : Push) (s : Repository) : Repository :=
  let r := receivePack g p c push.gate push.req s.cas s.log push.currentRefs push.limits
  ⟨r.2.1, r.2.2⟩

def receiveAll (pushes : List Push) : Repository :=
  pushes.foldl (fun s push => push.run g p c s) .empty

/-- An object that the pushed target does not reach inside the pack refers only
to objects of the pack or of the store. -/
def Push.NoStray (push : Push) (cas : InMemoryCas) : Prop :=
  ∀ u, push.admit g p cas = .ok u → ∀ oid object, u.get oid = some object →
    ¬ Reaches (u.next g) [push.req.update.newOid] oid →
      ∀ y ∈ g.children object, (u.get y).isSome = true ∨ cas.contains y = true

end

section

variable {g : GitCodec} {p : PackCodec} {c : Crates}

variable {cas : InMemoryCas}

theorem UnpackedPack.anchored_spec {u : UnpackedPack} {target : Oid} {maxCasLookups : Nat}
    (h : u.anchored g target cas maxCasLookups = .ok true) {oid : Oid} {object : GitObject}
    (hget : u.get oid = some object) (hr : Reaches (u.next g) [target] oid) {y : Oid} (hy : y ∈ g.children object) :
    (u.get y).isSome = true ∨ cas.contains y = true := by
  unfold anchored at h
  split_ifs at h with ht
  · have hnext : y ∈ u.next g oid := by simpa [next, hget] using hy
    have hsat := (targetReachable_spec h ht).mp rfl y (hr.step hnext)
    cases hgy : u.get y with
    | some _ => exact .inl rfl
    | none => exact .inr (by simpa [Satisfied, hgy] using hsat)
  · -- a target that is not in the pack reaches nothing in it
    have hnone : u.get target = none := by simpa using ht
    have honly : oid = target := hr.within (S := (· = target)) (by simp) fun x hx z hz => by
      simp [hx, next, hnone] at hz
    rw [← honly, hget] at ht
    exact absurd rfl ht

theorem InMemoryCas.Closed.complete (h : cas.Closed g p) {target : Oid} (ht : cas.contains target = true) :
    cas.Complete g p target :=
  fun _ hy => hy.within (by simpa using ht) fun x _ z hz => h x z hz

theorem InMemoryCas.Closed.store (hp : p.Sound) (h : cas.Closed g p) {push : Push} {u : UnpackedPack}
    (hadm : push.admit g p cas = .ok u) (hstray : push.NoStray g p cas) :
    (storeObjects cas u.objects).Closed g p := by
  obtain ⟨-, -, -, -, hunpack, -, hanchored, -⟩ := admitPush_eq_ok.mp hadm
  have hpacked := unpackPack_packed hunpack
  intro oid y hy
  rw [contains_storeObjects, hpacked.mem_oids]
  unfold next at hy
  cases hget : (storeObjects cas u.objects).get oid with
  | none => simp [hget] at hy
  | some bytes =>
    rw [hget] at hy
    rcases get_storeObjects hget with hold | hnew
    · exact .inl (h oid y (by simpa [next, hold] using hy))
    · obtain ⟨object, hobject, hbytes⟩ := hpacked.get_of_mem hnew
      simp only [decodeCasObject_zlibCompress hp hbytes] at hy
      rw [or_comm]
      by_cases hr : Reaches (u.next g) [push.req.update.newOid] oid
      · exact UnpackedPack.anchored_spec hanchored hobject hr hy
      · exact hstray u hadm oid object hobject hr y hy

theorem Push.run_cases (push : Push) (s : Repository) :
    push.run g p c s = s ∨
      ∃ u, push.admit g p s.cas = .ok u ∧ (push.run g p c s).cas = storeObjects s.cas u.objects ∧
        (push.run g p c s).log = (recordRefUpdate c s.log push.req.principalChain
          push.req.update.refName push.req.update.newOid push.req.recordedAt).2 := by
  unfold run receivePack
  cases h : admitPush g p push.gate push.req s.cas push.currentRefs push.limits with
  | error e => exact .inl rfl
  | ok u => exact .inr ⟨u, h, rfl, rfl⟩

/-- The invariant of a sequence of pushes: the store is closed under references
and holds every target on the log. -/
structure Repository.Sound (g : GitCodec) (p : PackCodec) (s : Repository) : Prop where
  closed : s.cas.Closed g p
  recorded : ∀ record ∈ s.log.records, ∃ refName target,
    record.payload = rawPushPayload refName target ∧ s.cas.contains target = true

theorem Repository.Sound.run (hp : p.Sound) {s : Repository} (h : s.Sound g p) {push : Push}
    (hstray : push.NoStray g p s.cas) : (push.run g p c s).Sound g p := by
  rcases push.run_cases (g := g) (p := p) (c := c) s with hsame | ⟨u, hadm, hcas, hlog⟩
  · rwa [hsame]
  · obtain ⟨-, -, -, -, hunpack, htarget, -, -⟩ := admitPush_eq_ok.mp hadm
    have hkeep {oid : Oid} (ho : (u.get oid).isSome = true ∨ s.cas.contains oid = true) :
        (push.run g p c s).cas.contains oid = true := by
      rw [hcas, InMemoryCas.contains_storeObjects, (unpackPack_packed hunpack).mem_oids]
      exact ho.symm
    refine ⟨hcas ▸ h.closed.store hp hadm hstray, fun record hr => ?_⟩
    rw [hlog, recordRefUpdate_records, List.mem_append, List.mem_singleton] at hr
    rcases hr with hr | rfl
    · obtain ⟨refName, target, hpay, ht⟩ := h.recorded record hr
      exact ⟨refName, target, hpay, hkeep (.inr ht)⟩
    · exact ⟨_, _, rfl, hkeep htarget⟩

theorem receiveAll_sound (hp : p.Sound) {pushes : List Push}
    (hstray : ∀ before push after, pushes = before ++ push :: after →
      push.NoStray g p (receiveAll g p c before).cas) :
    (receiveAll g p c pushes).Sound g p := by
  induction pushes using List.reverseRecOn with
  | nil =>
    exact ⟨by simp [receiveAll, Repository.empty, InMemoryCas.Closed, InMemoryCas.next, InMemoryCas.get,
      InMemoryCas.empty], by simp [receiveAll, Repository.empty, EventLog.empty]⟩
  | append_singleton pushes push ih =>
    have hs := ih fun before q after he => hstray before q (after ++ [push]) (by simp [he])
    rw [receiveAll, List.foldl_append]
    exact hs.run hp (hstray pushes push [] rfl)

theorem receive_keeps_refs_complete (hp : p.Sound) {pushes : List Push}
    (hstray : ∀ before push after, pushes = before ++ push :: after →
      push.NoStray g p (receiveAll g p c before).cas) :
    ∀ record ∈ (receiveAll g p c pushes).log.records,
      (∃ refName target, record.payload = rawPushPayload refName target) ∧
        ∀ refName target, record.payload = rawPushPayload refName target →
          (receiveAll g p c pushes).cas.Complete g p target := by
  intro record hr
  have hsound := receiveAll_sound hp hstray
  obtain ⟨refName, target, hpay, ht⟩ := hsound.recorded record hr
  refine ⟨⟨refName, target, hpay⟩, fun refName' target' hpay' => ?_⟩
  obtain ⟨-, rfl⟩ := rawPushPayload_injective (hpay.symm.trans hpay')
  exact hsound.closed.complete ht

end

open PlainGit

def pushOf (objects : List GitObject) (target : GitObject) (expected : Option Oid) : Push where
  gate := ⟨true⟩
  req := ⟨packOf objects, ⟨"refs/heads/main", expected, idOf target⟩, ["user:a"], 0⟩
  currentRefs := fun _ => expected
  limits := .default

theorem Push.noStray_of_refs {push : Push} {cas : InMemoryCas} (hadm : push.admit g p cas = .ok u)
    (h : ∀ e ∈ u.byOid, ∀ y ∈ g.children e.2, (u.get y).isSome = true ∨ cas.contains y = true) :
    push.NoStray g p cas := by
  intro v hv oid object hget _ y hy
  obtain rfl : u = v := Except.ok.inj (hadm.symm.trans hv)
  obtain ⟨pre, post, hsplit, -⟩ := List.lookup_eq_some_iff.mp hget
  exact h (oid, object) (by simp [hsplit]) y hy

def firstCommit : GitObject := commit (tree [blob [9]]) []

def secondCommit : GitObject := commit (tree [blob [9]]) [firstCommit]

/-- A commit with all it needs, then its child, whose pack leaves out what the
store has. -/
def incrementalPushes : List Push :=
  [pushOf [firstCommit, tree [blob [9]], blob [9]] firstCommit none,
    pushOf [secondCommit] secondCommit (some (idOf firstCommit))]

theorem incrementalPushes_complete :
    (receiveAll .plain .plain reference incrementalPushes).log.records.map EventRecord.payload =
        [rawPushPayload "refs/heads/main" (idOf firstCommit),
          rawPushPayload "refs/heads/main" (idOf secondCommit)] ∧
      ∀ record ∈ (receiveAll .plain .plain reference incrementalPushes).log.records,
        (∃ refName target, record.payload = rawPushPayload refName target) ∧
          ∀ refName target, record.payload = rawPushPayload refName target →
            (receiveAll .plain .plain reference incrementalPushes).cas.Complete .plain .plain target := by
  refine ⟨by decide +kernel, receive_keeps_refs_complete PackCodec.plain_sound ?_⟩
  intro before push after he
  rcases before with _ | ⟨first, _ | ⟨second, before⟩⟩
  · obtain ⟨rfl, -⟩ := List.cons.inj he
    exact Push.noStray_of_refs rfl (by decide +kernel)
  · obtain ⟨rfl, hrest⟩ := List.cons.inj he
    obtain ⟨rfl, -⟩ := List.cons.inj hrest
    exact Push.noStray_of_refs rfl (by decide +kernel)
  · simp [incrementalPushes] at he

/-- The blob is pushed together with a commit whose tree is missing. The next
push delivers nothing and moves the ref to that commit. -/
theorem strayCommit_recorded :
    let stray := firstCommit
    let pushes := [pushOf [blob [1], stray] (blob [1]) none, pushOf [] stray (some (idOf (blob [1])))]
    (∀ kind data kind' data', GitCodec.plain.computeHash kind data = GitCodec.plain.computeHash kind' data' →
        kind = kind' ∧ data = data') ∧
    (∃ record ∈ (receiveAll .plain .plain reference pushes).log.records,
        record.payload = rawPushPayload "refs/heads/main" (idOf stray)) ∧
      ¬ (receiveAll .plain .plain reference pushes).cas.Complete .plain .plain (idOf stray) := by
  intro stray pushes
  have hmissing : (receiveAll .plain .plain reference pushes).cas.contains (idOf (tree [blob [9]])) = false := by
    decide +kernel
  have href : idOf (tree [blob [9]]) ∈
      (receiveAll .plain .plain reference pushes).cas.next .plain .plain (idOf stray) := by
    decide +kernel
  refine ⟨fun _ _ _ _ h => oid_injective (Except.ok.inj h), by decide +kernel, fun hcomplete => ?_⟩
  have hall := hcomplete _ (Reaches.step (.root (by simp)) href)
  simp [hmissing] at hall

end Hugit
