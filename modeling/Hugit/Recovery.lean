import Hugit.Compaction
import Hugit.Replay

/-! Recovery: the chain is put together from the cold ranges, the surviving hot
tail and, where both leave a gap, the mirror. It is verified before it is served. -/

namespace Hugit

open Std

class MirrorSource (M : Type) where
  recordsIn : M → Nat → Nat → List EventRecord

structure NoMirror where

instance : MirrorSource NoMirror where
  recordsIn _ _ _ := []

inductive RecoverySource where
  | coldTier
  | coldTierWithMirror
  deriving DecidableEq

structure Recovered where
  state : RefState
  records : List EventRecord
  source : RecoverySource

inductive RecoveryError where
  | incompleteChain (missingSeq : Nat)
  | tamper (e : TamperError)
  | replay (e : ReplayError)
  deriving DecidableEq

def gatherCold {S : Type} [ColdStore S] (cold : S) : ExtTreeMap Nat EventRecord :=
  (ColdStore.list cold).foldl (fun bySeq key =>
    match ColdStore.get cold key with
    | some range => range.records.foldl (fun bySeq r => bySeq.insert r.seq r) bySeq
    | none => bySeq) ∅

/-- The hot tail fills only what the cold tier left vacant. -/
def spliceHot (bySeq : ExtTreeMap Nat EventRecord) (hotTail : List EventRecord) :
    ExtTreeMap Nat EventRecord :=
  hotTail.foldl (fun bySeq r => bySeq.insertIfNew r.seq r) bySeq

/-- The loop over consecutive keys; a map runs out of them within its size. -/
def reachFrom (bySeq : ExtTreeMap Nat EventRecord) : Nat → Nat → Nat
  | 0, reach => reach
  | fuel + 1, reach => if reach ∈ bySeq then reachFrom bySeq fuel (reach + 1) else reach

def contiguousReach (bySeq : ExtTreeMap Nat EventRecord) : Nat :=
  reachFrom bySeq bySeq.size 0

def fillFromMirror (bySeq : ExtTreeMap Nat EventRecord) (records : List EventRecord) :
    ExtTreeMap Nat EventRecord × Bool :=
  records.foldl (fun (bySeq, usedMirror) r =>
    if r.seq ∈ bySeq then (bySeq, usedMirror) else (bySeq.insert r.seq r, true)) (bySeq, false)

def assemble (bySeq : ExtTreeMap Nat EventRecord) : List Nat → Except RecoveryError (List EventRecord)
  | [] => .ok []
  | expected :: rest =>
    match bySeq[expected]? with
    | none => .error (.incompleteChain expected)
    | some r =>
      match assemble (bySeq.erase expected) rest with
      | .error e => .error e
      | .ok records => .ok (r :: records)

def serve (c : Crates) (records : List EventRecord) (source : RecoverySource) :
    Except RecoveryError Recovered :=
  match verifyChain c records with
  | .error e => .error (.tamper e)
  | .ok () =>
    match replayUnchecked c records with
    | .error e => .error (.replay e)
    | .ok state => .ok ⟨state, records, source⟩

def recoverWithSources {S M : Type} [ColdStore S] [MirrorSource M] (c : Crates) (cold : S)
    (mirror : M) (hotTail : List EventRecord) : Except RecoveryError Recovered :=
  let bySeq := spliceHot (gatherCold cold) hotTail
  let maxSeq := (bySeq.maxKey?.map fun s => (s + 1) % 2 ^ 64).getD 0
  let reach := contiguousReach bySeq
  let (bySeq, usedMirror) :=
    if 0 < maxSeq ∧ reach < maxSeq then
      fillFromMirror bySeq (MirrorSource.recordsIn mirror reach maxSeq)
    else (bySeq, false)
  match assemble bySeq (List.range maxSeq) with
  | .error e => .error e
  | .ok records => serve c records (if usedMirror then .coldTierWithMirror else .coldTier)

theorem serve_eq_ok {c : Crates} {records : List EventRecord} {source : RecoverySource}
    {recovered : Recovered} : serve c records source = .ok recovered ↔
      verifyChain c records = .ok () ∧ replayUnchecked c records = .ok recovered.state ∧
        recovered.records = records ∧ recovered.source = source := by
  obtain ⟨state, rs, src⟩ := recovered
  unfold serve
  cases verifyChain c records with
  | error e => simp
  | ok u =>
    cases replayUnchecked c records with
    | error e => simp
    | ok s => simp [eq_comm]

theorem le_reachFrom {bySeq : ExtTreeMap Nat EventRecord} {n fuel reach : Nat}
    (h : ∀ s, reach ≤ s → s < n → s ∈ bySeq) (hf : n ≤ reach + fuel) :
    n ≤ reachFrom bySeq fuel reach := by
  induction fuel generalizing reach with
  | zero => simpa [reachFrom] using hf
  | succ fuel ih =>
    rw [reachFrom]
    split_ifs with hm
    · exact ih (fun s hs hn => h s (by omega) hn) (by omega)
    · by_contra hlt
      exact hm (h reach le_rfl (by omega))

theorem le_contiguousReach {bySeq : ExtTreeMap Nat EventRecord} {n : Nat}
    (h : ∀ s < n, s ∈ bySeq) : n ≤ contiguousReach bySeq := by
  have hsub : List.range n ⊆ bySeq.keys := fun s hs =>
    ExtTreeMap.mem_keys.mpr (h s (List.mem_range.mp hs))
  have hsize : n ≤ bySeq.size := by
    have := (List.subperm_of_subset List.nodup_range hsub).length_le
    rwa [List.length_range, ExtTreeMap.length_keys] at this
  exact le_reachFrom (fun s _ hs => h s hs) (by omega)

theorem assemble_eq_ok {bySeq : ExtTreeMap Nat EventRecord} {seqs : List Nat}
    {records : List EventRecord} (hnd : seqs.Nodup) :
    assemble bySeq seqs = .ok records ↔ seqs.map (fun s => bySeq[s]?) = records.map some := by
  induction seqs generalizing bySeq records with
  | nil => cases records <;> simp [assemble]
  | cons s seqs ih =>
    obtain ⟨hns, hnd⟩ := List.nodup_cons.mp hnd
    have herase : seqs.map (fun t => (bySeq.erase s)[t]?) = seqs.map fun t => bySeq[t]? := by
      refine List.map_congr_left fun t ht => ?_
      have hst : s ≠ t := fun he => hns (he ▸ ht)
      simp [ExtTreeMap.getElem?_erase, hst]
    have hrest (rs : List EventRecord) : assemble (bySeq.erase s) seqs = .ok rs ↔
        seqs.map (fun t => bySeq[t]?) = rs.map some := by
      rw [ih hnd, herase]
    rw [assemble, List.map_cons]
    cases bySeq[s]? with
    | none => cases records <;> simp
    | some r =>
      cases records with
      | nil => cases assemble (bySeq.erase s) seqs <;> simp
      | cons r' records =>
        rw [List.map_cons, List.cons.injEq, ← hrest]
        cases assemble (bySeq.erase s) seqs <;> simp

section

variable {records : List EventRecord} {offset : Nat}

def seqWrites (records : List EventRecord) : List (Nat × EventRecord) :=
  records.map fun r => (r.seq, r)

theorem lastWrite_seqWrites (h : ∀ (i : Nat) (r : EventRecord), records[i]? = some r → r.seq = offset + i)
    (s : Nat) : lastWrite s (seqWrites records) = if offset ≤ s then records[s - offset]? else none := by
  induction records generalizing offset with
  | nil => simp [seqWrites]
  | cons r rest ih =>
    have hr : r.seq = offset := h 0 r rfl
    have hrest := @ih (offset + 1) fun i x hi => by
      have := h (i + 1) x (by simpa using hi)
      omega
    have hcons : lastWrite s (seqWrites (r :: rest)) =
        (lastWrite s (seqWrites rest)).or (if r.seq = s then some r else none) := rfl
    rw [hcons, hrest, hr]
    rcases Nat.lt_trichotomy s offset with hlt | rfl | hgt
    · simp [show ¬ offset + 1 ≤ s by omega, show ¬ offset ≤ s by omega, show offset ≠ s by omega]
    · simp
    · have hs : s - offset = s - (offset + 1) + 1 := by omega
      simp [show offset + 1 ≤ s by omega, show offset ≤ s by omega, show offset ≠ s by omega, hs]

theorem firstWrite_seqWrites
    (h : ∀ (i : Nat) (r : EventRecord), records[i]? = some r → r.seq = offset + i) (s : Nat) :
    firstWrite s (seqWrites records) = if offset ≤ s then records[s - offset]? else none := by
  rw [firstWrite_eq_lastWrite, lastWrite_seqWrites h]
  have hkeys : (seqWrites records).map Prod.fst = List.range' offset records.length := by
    refine List.ext_getElem (by simp [seqWrites]) fun i hi _ => ?_
    have hlt : i < records.length := by simpa [seqWrites] using hi
    simp [seqWrites, h i _ (List.getElem?_eq_getElem hlt)]
  rw [hkeys]
  exact List.nodup_range'

end

def recordsAt {S : Type} [ColdStore S] (cold : S) (key : String) : List EventRecord :=
  ((ColdStore.get cold key).map ColdRange.records).getD []

theorem gatherCold_getElem? {S : Type} [ColdStore S] (cold : S) (s : Nat) :
    (gatherCold cold)[s]? =
      lastWrite s ((ColdStore.list cold).flatMap fun key => seqWrites (recordsAt cold key)) := by
  have hfold (keys : List String) (m : ExtTreeMap Nat EventRecord) :
      keys.foldl (fun bySeq key =>
        match ColdStore.get cold key with
        | some range => range.records.foldl (fun bySeq r => bySeq.insert r.seq r) bySeq
        | none => bySeq) m =
      (keys.flatMap fun key => seqWrites (recordsAt cold key)).foldl
        (fun m w => m.insert w.1 w.2) m := by
    induction keys generalizing m with
    | nil => rfl
    | cons key keys ih =>
      rw [List.foldl_cons, ih, List.flatMap_cons, List.foldl_append]
      congr 1
      cases hg : ColdStore.get cold key <;> simp [recordsAt, hg, seqWrites, List.foldl_map]
  have hgather : gatherCold cold = _ := hfold (ColdStore.list cold) ∅
  rw [hgather, getElem?_foldl_insert]
  simp

theorem spliceHot_getElem? (bySeq : ExtTreeMap Nat EventRecord) (hotTail : List EventRecord) (s : Nat) :
    (spliceHot bySeq hotTail)[s]? = bySeq[s]?.or (firstWrite s (seqWrites hotTail)) := by
  rw [← getElem?_foldl_insertIfNew, seqWrites, List.foldl_map]
  rfl

theorem recoverWithSources_complete {S M : Type} [ColdStore S] [MirrorSource M] {c : Crates}
    {cold : S} {mirror : M} {hotTail records : List EventRecord} (hl : records.length < 2 ^ 64)
    (h : ∀ s : Nat, (spliceHot (gatherCold cold) hotTail)[s]? = records[s]?) :
    recoverWithSources c cold mirror hotTail = serve c records .coldTier := by
  unfold recoverWithSources
  generalize spliceHot (gatherCold cold) hotTail = bySeq at h
  have hmem (s : Nat) : s ∈ bySeq ↔ s < records.length := by
    rw [ExtTreeMap.mem_iff_isSome_getElem?, h s]
    simp
  have hmax : (bySeq.maxKey?.map fun s => (s + 1) % 2 ^ 64).getD 0 = records.length := by
    rcases Nat.eq_zero_or_pos records.length with hz | hpos
    · have hempty : bySeq = ∅ := ExtTreeMap.ext_getElem? fun {k} => by
        rw [h k]
        simp [List.length_eq_zero_iff.mp hz]
      simp [hempty, hz]
    · have hkey : bySeq.maxKey? = some (records.length - 1) := by
        rw [ExtTreeMap.maxKey?_eq_some_iff_mem_and_forall]
        refine ⟨(hmem _).mpr (by omega), fun k hk => ?_⟩
        have := (hmem k).mp hk
        rw [Nat.isLE_compare]
        omega
      rw [hkey, Option.map_some, Option.getD_some]
      have hp : records.length - 1 + 1 = records.length := by omega
      rw [hp, Nat.mod_eq_of_lt hl]
  have hreach : records.length ≤ contiguousReach bySeq := le_contiguousReach fun s hs => (hmem s).mpr hs
  have hok : assemble bySeq (List.range records.length) = .ok records := by
    refine (assemble_eq_ok List.nodup_range).mpr (List.ext_getElem? fun i => ?_)
    by_cases hi : i < records.length
    · simp [h, hi]
    · simp [hi]
  have hno : ¬ (0 < records.length ∧ contiguousReach bySeq < records.length) := by omega
  simp only [hmax, hno, if_false, hok, Bool.false_eq_true]

end Hugit
