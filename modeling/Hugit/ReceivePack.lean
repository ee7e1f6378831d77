import Hugit.PackContents
import Hugit.RawPush
import Hugit.Reachability

/-! Receive-pack: every check of a push comes before its first write. Among them
is a walk that looks for the closure of the new target in the pack and takes
whatever the store holds for complete. -/

namespace Hugit

structure RefUpdate where
  refName : String
  expected : Option Oid
  newOid : Oid
  deriving DecidableEq

structure ReceiveRequest where
  pack : Bytes
  update : RefUpdate
  principalChain : List String
  recordedAt : Nat
  deriving DecidableEq

structure Receipt where
  storedOids : List Oid
  event : EventRecord
  deriving DecidableEq

structure FlagGate where
  selfHostedAlpha : Bool
  deriving DecidableEq

def FlagGate.admitWrite (gate : FlagGate) : Except ReceiveError Unit :=
  if gate.selfHostedAlpha then .ok () else .error .writePathDisabled

section

variable (g : GitCodec) (p : PackCodec) (c : Crates)

namespace UnpackedPack

def get (u : UnpackedPack) (oid : Oid) : Option GitObject :=
  u.byOid.lookup oid

def walk (u : UnpackedPack) (cas : InMemoryCas) (maxCasLookups : Nat) :
    Nat → List Oid → List Oid → Nat → Except ReceiveError Bool
  | _, [], _, _ => .ok true
  | 0, _ :: _, _, _ => .ok false
  | fuel + 1, oid :: stack, seen, casLookups =>
    if oid ∈ seen then u.walk cas maxCasLookups fuel stack seen casLookups
    else
      match u.get oid with
      | none =>
        if maxCasLookups < casLookups + 1 then .error (.casLookupBudgetExceeded maxCasLookups)
        else if cas.contains oid then u.walk cas maxCasLookups fuel stack (oid :: seen) (casLookups + 1)
        else .ok false
      | some object =>
        match g.references object with
        | .error _ => .ok false
        | .ok oids => u.walk cas maxCasLookups fuel (oids.reverse ++ stack) (oid :: seen) casLookups

def walkFuel (u : UnpackedPack) : Nat :=
  1 + (u.byOid.map fun e => (g.children e.2).length).sum

def targetReachable (u : UnpackedPack) (target : Oid) (cas : InMemoryCas) (maxCasLookups : Nat) :
    Except ReceiveError Bool := do
  let walked ← u.walk g cas maxCasLookups (u.walkFuel g) [target] [] 0
  return walked && (u.get target).isSome

/-- The walk is made only for a target that the pack delivers. -/
def anchored (u : UnpackedPack) (target : Oid) (cas : InMemoryCas) (maxCasLookups : Nat) :
    Except ReceiveError Bool :=
  if (u.get target).isSome then u.targetReachable g target cas maxCasLookups else .ok true

end UnpackedPack

def admitPush (gate : FlagGate) (req : ReceiveRequest) (cas : InMemoryCas)
    (currentRefs : String → Option Oid) (limits : RecvLimits) : Except ReceiveError UnpackedPack := do
  gate.admitWrite
  refuseIf (req.principalChain = []) .missingAttribution
  refuseIf (limits.maxPackBytes < req.pack.length) (.oversizedPack req.pack.length limits.maxPackBytes)
  let declared ← packHeaderObjectCount req.pack
  refuseIf (limits.maxObjects < declared) (.decompressionBomb ("pack header declares " ++
    toString declared ++ " objects, exceeds ceiling " ++ toString limits.maxObjects))
  let unpacked ← unpackPack g p req.pack cas limits
  refuseIf ((unpacked.get req.update.newOid).isNone ∧ ¬ cas.contains req.update.newOid)
    (.refUpdateTampered req.update.refName req.update.newOid)
  let reachable ← unpacked.anchored g req.update.newOid cas limits.maxCasLookups
  refuseIf (reachable = false) (.unreachableTarget req.update.refName req.update.newOid)
  let actual := currentRefs req.update.refName
  refuseIf (actual ≠ req.update.expected) (.staleRef req.update.refName req.update.expected actual)
  return unpacked

def receivePack (gate : FlagGate) (req : ReceiveRequest) (cas : InMemoryCas) (log : EventLog)
    (currentRefs : String → Option Oid) (limits : RecvLimits) :
    Except ReceiveError Receipt × InMemoryCas × EventLog :=
  match admitPush g p gate req cas currentRefs limits with
  | .error e => (.error e, cas, log)
  | .ok unpacked =>
    let recorded := recordRefUpdate c log req.principalChain req.update.refName req.update.newOid
      req.recordedAt
    (.ok ⟨(unpacked.objects.map CasObject.oid).insertionSort (· ≤ ·), recorded.1⟩,
      storeObjects cas unpacked.objects, recorded.2)

end

section

variable {g : GitCodec} {p : PackCodec} {c : Crates}

theorem admitPush_eq_ok {gate : FlagGate} {req : ReceiveRequest} {cas : InMemoryCas}
    {currentRefs : String → Option Oid} {limits : RecvLimits} {u : UnpackedPack} :
    admitPush g p gate req cas currentRefs limits = .ok u ↔
      gate.selfHostedAlpha = true ∧ req.principalChain ≠ [] ∧ req.pack.length ≤ limits.maxPackBytes ∧
        (∃ declared, packHeaderObjectCount req.pack = .ok declared ∧ declared ≤ limits.maxObjects) ∧
        unpackPack g p req.pack cas limits = .ok u ∧
        ((u.get req.update.newOid).isSome = true ∨ cas.contains req.update.newOid = true) ∧
        u.anchored g req.update.newOid cas limits.maxCasLookups = .ok true ∧
        currentRefs req.update.refName = req.update.expected := by
  have hgate {b : Unit} : gate.admitWrite = .ok b ↔ gate.selfHostedAlpha = true := by
    simp [FlagGate.admitWrite]
  have hanchor (v : UnpackedPack) : ¬ ((v.get req.update.newOid).isNone = true ∧
      ¬ cas.contains req.update.newOid = true) ↔
        ((v.get req.update.newOid).isSome = true ∨ cas.contains req.update.newOid = true) := by
    cases v.get req.update.newOid <;> simp
  simp only [admitPush, bind_eq_ok, pure_eq_ok, refuseIf_eq_ok, hgate, hanchor]
  constructor
  · rintro ⟨_, h1, _, h2, _, h3, n, h4, _, h5, v, h6, _, h7, b, h8, _, h9, _, h10, rfl⟩
    obtain rfl : b = true := by simpa using h9
    exact ⟨h1, h2, Nat.le_of_not_lt h3, ⟨n, h4, Nat.le_of_not_lt h5⟩, h6, h7, h8, not_not.mp h10⟩
  · rintro ⟨h1, h2, h3, ⟨n, h4, h5⟩, h6, h7, h8, h9⟩
    exact ⟨(), h1, (), h2, (), Nat.not_lt.mpr h3, n, h4, (), Nat.not_lt.mpr h5, u, h6, (), h7, true, h8,
      (), by simp, (), not_not.mpr h9, rfl⟩

namespace UnpackedPack

def next (g : GitCodec) (u : UnpackedPack) (oid : Oid) : List Oid :=
  match u.get oid with
  | some object => g.children object
  | none => []

def Satisfied (g : GitCodec) (u : UnpackedPack) (cas : InMemoryCas) (oid : Oid) : Prop :=
  match u.get oid with
  | some object => ∃ oids, g.references object = .ok oids
  | none => cas.contains oid = true

def pendingChildren (g : GitCodec) (entries : List (Oid × GitObject)) (seen : List Oid) : Nat :=
  ((entries.filter fun e => e.1 ∉ seen).map fun e => (g.children e.2).length).sum

theorem pendingChildren_cons_le (entries : List (Oid × GitObject)) (seen : List Oid) (oid : Oid) :
    pendingChildren g entries (oid :: seen) ≤ pendingChildren g entries seen := by
  refine List.Sublist.sum_le_sum (List.Sublist.map _ ?_) (fun _ _ => Nat.zero_le _)
  refine List.monotone_filter_right _ fun e he => ?_
  simp only [List.mem_cons, not_or, decide_eq_true_eq] at he ⊢
  exact he.2

theorem pendingChildren_visit {entries : List (Oid × GitObject)} {oid : Oid} {object : GitObject}
    (h : entries.lookup oid = some object) {seen : List Oid} (hs : oid ∉ seen) :
    pendingChildren g entries (oid :: seen) + (g.children object).length ≤
      pendingChildren g entries seen := by
  obtain ⟨pre, post, rfl, -⟩ := List.lookup_eq_some_iff.mp h
  have hsplit (seen : List Oid) : pendingChildren g (pre ++ (oid, object) :: post) seen =
      pendingChildren g pre seen + (if oid ∈ seen then 0 else (g.children object).length) +
        pendingChildren g post seen := by
    by_cases ho : oid ∈ seen <;> simp [pendingChildren, ho, Nat.add_assoc]
  have hpre := pendingChildren_cons_le (g := g) pre seen oid
  have hpost := pendingChildren_cons_le (g := g) post seen oid
  rw [hsplit, hsplit, if_pos List.mem_cons_self, if_neg hs]
  omega

variable {u : UnpackedPack} {cas : InMemoryCas} {target : Oid}

theorem complete_of_walked {seen : List Oid} (hf : Frontier (u.next g) (fun _ => False) [target] seen [])
    (hs : ∀ x ∈ seen, u.Satisfied g cas x) {y : Oid} (hy : Reaches (u.next g) [target] y) :
    u.Satisfied g cas y := by
  rcases hf.complete (fun _ => False.elim) hy with hy | hstop
  · exact hs y hy
  · exact hstop.elim

theorem walk_spec {maxCasLookups : Nat} {fuel : Nat} {stack seen : List Oid} {casLookups : Nat} {b : Bool}
    (hfuel : stack.length + pendingChildren g u.byOid seen ≤ fuel)
    (hf : Frontier (u.next g) (fun _ => False) [target] seen stack) (hs : ∀ x ∈ seen, u.Satisfied g cas x)
    (h : u.walk g cas maxCasLookups fuel stack seen casLookups = .ok b) :
    b = true ↔ ∀ y, Reaches (u.next g) [target] y → u.Satisfied g cas y := by
  induction fuel generalizing stack seen casLookups with
  | zero =>
    obtain rfl : stack = [] := List.eq_nil_of_length_eq_zero (by omega)
    obtain rfl : true = b := Except.ok.inj h
    simpa using fun y => complete_of_walked hf hs
  | succ fuel ih =>
    cases stack with
    | nil =>
      obtain rfl : true = b := Except.ok.inj h
      simpa using fun y => complete_of_walked hf hs
    | cons oid stack =>
      rw [List.length_cons] at hfuel
      have hreached : Reaches (u.next g) [target] oid := hf.reached oid (.inr List.mem_cons_self)
      -- a node that fails the test refutes the closure
      have hrefuted (hno : ¬ u.Satisfied g cas oid) (hb : false = b) :
          b = true ↔ ∀ y, Reaches (u.next g) [target] y → u.Satisfied g cas y :=
        ⟨fun ht => by simp [← hb] at ht, fun hall => absurd (hall oid hreached) hno⟩
      by_cases hseen : oid ∈ seen
      · rw [walk, if_pos hseen] at h
        exact ih (by omega) (hf.skip (.inl hseen)) hs h
      rw [walk, if_neg hseen] at h
      cases hget : u.get oid with
      | none =>
        have hnext : u.next g oid = [] := by simp [next, hget]
        simp only [hget] at h
        obtain ⟨_, h⟩ := ite_error_eq_ok.mp h
        by_cases hcas : cas.contains oid = true
        · rw [if_pos hcas] at h
          have hle := pendingChildren_cons_le (g := g) u.byOid seen oid
          refine ih (by omega) (hf.visit (by simp) (fun _ hy => hy) (by simp [hnext]) fun _ hy => .inl hy) ?_ h
          exact List.forall_mem_cons.mpr ⟨by simpa [Satisfied, hget] using hcas, hs⟩
        · rw [if_neg hcas] at h
          exact hrefuted (by simpa [Satisfied, hget] using hcas) (Except.ok.inj h)
      | some object =>
        simp only [hget] at h
        cases href : g.references object with
        | error e =>
          simp only [href] at h
          exact hrefuted (by simp [Satisfied, hget, href]) (Except.ok.inj h)
        | ok oids =>
          simp only [href] at h
          have hchildren : g.children object = oids := g.children_of_ok href
          have hnext : u.next g oid = oids := by simp [next, hget, hchildren]
          have hle := pendingChildren_visit (g := g) hget hseen
          rw [hchildren] at hle
          refine ih ?_ (hf.visit (by simp) (by simp +contextual) (by simp +contextual [hnext]) ?_) ?_ h
          · rw [List.length_append, List.length_reverse]
            omega
          · intro y hy
            rw [hnext]
            simpa [or_comm] using hy
          · exact List.forall_mem_cons.mpr ⟨by simp [Satisfied, hget, href], hs⟩

theorem targetReachable_spec {maxCasLookups : Nat} {b : Bool}
    (h : u.targetReachable g target cas maxCasLookups = .ok b) (ht : (u.get target).isSome = true) :
    b = true ↔ ∀ y, Reaches (u.next g) [target] y → u.Satisfied g cas y := by
  obtain ⟨walked, hwalk, hb⟩ := bind_eq_ok.mp h
  obtain rfl : walked = b := by simpa [ht] using pure_eq_ok.mp hb
  refine walk_spec ?_ (.start _ _ _) (by simp) hwalk
  simp [walkFuel, pendingChildren]

end UnpackedPack

end

end Hugit
