import Hugit.HashChain
import Hugit.Tamper

/-! Tamper evidence of logs without redaction markers: the stored hash of the
last record commits to every authenticated field of every record before it. -/

namespace Hugit

def chainEntry (r : EventRecord) : String × List String × String × Nat :=
  (r.kind, r.principalChain, r.payload, r.seq)

def chainLink (c : Crates) (prev : String) (entry : String × List String × String × Nat) : String :=
  computeThisHash c prev entry.1 entry.2.1 entry.2.2.1 entry.2.2.2

def chainOf (records : List EventRecord) : List ((String × List String × String × Nat) × String) :=
  records.map fun r => (chainEntry r, r.thisHash)

def preimages (records : List EventRecord) : Set Bytes :=
  { p | ∃ r ∈ records, r.preimage = p }

variable {c : Crates} {records : List EventRecord}

theorem preimages_injOn (h : ((records.map EventRecord.preimage).dedup.map c.digest).Nodup) :
    (preimages records).InjOn c.digest := by
  rintro _ ⟨r, hr, rfl⟩ _ ⟨s, hs, rfl⟩ he
  exact List.inj_on_of_nodup_map h (List.mem_dedup.mpr (List.mem_map_of_mem hr))
    (List.mem_dedup.mpr (List.mem_map_of_mem hs)) he

def EventRecord.authenticated (r : EventRecord) : EventRecord :=
  { r with recordedAt := 0 }

theorem verifyFrom_linked {redactions : Std.ExtTreeMap Nat RedactionCommitment}
    (hr : ∀ i : Nat, redactions[i]? = none) {position : Nat} {prev : String}
    (h : verifyFrom c redactions position prev records = .ok ()) :
    Linked (chainLink c) prev (chainOf records) ∧
      linkInputs prev (chainOf records) = records.map fun r => (r.prevHash, chainEntry r) := by
  induction records generalizing position prev with
  | nil => exact ⟨trivial, rfl⟩
  | cons r rest ih =>
    cases hv : verifyRecord c redactions position prev r with
    | error e => simp [verifyFrom, hv] at h
    | ok u =>
      simp only [verifyFrom, hv] at h
      obtain ⟨_, hprev, hcontent⟩ := verifyRecord_ok_iff.mp hv
      rw [hr position] at hcontent
      obtain ⟨hl, hi⟩ := ih h
      refine ⟨⟨?_, hl⟩, ?_⟩
      · rw [← hprev]
        exact hcontent.symm
      · change (prev, chainEntry r) :: linkInputs r.thisHash (chainOf rest) = _
        rw [hi, ← hprev, List.map_cons]

theorem lastDigest_chainOf (prev : String) (records : List EventRecord) :
    lastDigest prev (chainOf records) = (records.getLast?.map EventRecord.thisHash).getD prev := by
  simp [lastDigest, chainOf, List.getLast?_map, Function.comp_def]

theorem chainLink_injOn (hcf : (preimages records).InjOn c.digest) (hf : ∀ r ∈ records, r.Fits) :
    { p | ∃ r ∈ records, (r.prevHash, chainEntry r) = p }.InjOn
      (Function.uncurry (chainLink c)) := by
  rintro _ ⟨r, hr, rfl⟩ _ ⟨s, hs, rfl⟩ h
  have hd : c.digest r.preimage = c.digest s.preimage := hexEncode_injective h
  have hp : r.preimage = s.preimage := hcf ⟨r, hr, rfl⟩ ⟨s, hs, rfl⟩ hd
  obtain ⟨h1, h2, h3, h4, h5⟩ := EventRecord.preimage_inj (hf r hr) (hf s hs) hp
  simp [chainEntry, h1, h2, h3, h4, h5]

theorem authenticated_eq_iff {r s : EventRecord} :
    r.authenticated = s.authenticated ↔
      r.seq = s.seq ∧ r.prevHash = s.prevHash ∧ r.thisHash = s.thisHash ∧ r.kind = s.kind ∧
        r.principalChain = s.principalChain ∧ r.payload = s.payload := by
  simp [EventRecord.authenticated]

theorem redactionFree_recompute (hn : RedactionFree records) (h : verifyChain c records = .ok ())
    {r : EventRecord} (hr : r ∈ records) :
    r.recompute c = r.thisHash := by
  obtain ⟨i, hi⟩ := List.mem_iff_getElem?.mp hr
  have hcontent := (verifyChain_ok_iff.mp h).2 i r hi
  rwa [redactionFree_markers hn] at hcontent

section

variable {c : Crates} {xs ys : List EventRecord}
  (hcf : (preimages (xs ++ ys)).InjOn c.digest) (hf : ∀ r ∈ xs ++ ys, r.Fits)
  (hnx : RedactionFree xs) (hny : RedactionFree ys)
  (hvx : verifyChain c xs = .ok ()) (hvy : verifyChain c ys = .ok ())
  (hlast : xs.getLast?.map EventRecord.thisHash = ys.getLast?.map EventRecord.thisHash)

include hcf hf hnx hny hvx hvy hlast

theorem length_eq_of_lastHash_eq : xs.length = ys.length := by
  rcases xs.eq_nil_or_concat' with rfl | ⟨us, x, rfl⟩ <;>
    rcases ys.eq_nil_or_concat' with rfl | ⟨vs, y, rfl⟩
  · rfl
  · simp at hlast
  · simp at hlast
  · have hx : x ∈ us ++ [x] := by simp
    have hy : y ∈ vs ++ [y] := by simp
    have hthis : x.thisHash = y.thisHash := by simpa using hlast
    rw [← redactionFree_recompute hnx hvx hx, ← redactionFree_recompute hny hvy hy] at hthis
    have hpre : x.preimage = y.preimage :=
      hcf ⟨x, by simp, rfl⟩ ⟨y, by simp, rfl⟩ (hexEncode_injective hthis)
    have hseq := (EventRecord.preimage_inj (hf x (by simp)) (hf y (by simp)) hpre).2.2.2.2
    have hsx := (verifyChain_ok_iff.mp hvx).1.gapFree us.length x (by simp)
    have hsy := (verifyChain_ok_iff.mp hvy).1.gapFree vs.length y (by simp)
    simp only [List.length_append, List.length_singleton]
    omega

theorem authenticated_eq_of_lastHash_eq :
    xs.map EventRecord.authenticated = ys.map EventRecord.authenticated := by
  have hlen := length_eq_of_lastHash_eq hcf hf hnx hny hvx hvy hlast
  obtain ⟨hlx, hix⟩ := verifyFrom_linked (redactionFree_markers hnx) hvx
  obtain ⟨hly, hiy⟩ := verifyFrom_linked (redactionFree_markers hny) hvy
  have hinj := chainLink_injOn hcf hf
  have hmem (zs : List EventRecord) (hz : ∀ r ∈ zs, r ∈ xs ++ ys) :
      ∀ p ∈ zs.map (fun r => (r.prevHash, chainEntry r)),
        p ∈ { p | ∃ r ∈ xs ++ ys, (r.prevHash, chainEntry r) = p } := by
    intro p hp
    obtain ⟨r, hr, rfl⟩ := List.mem_map.mp hp
    exact ⟨r, hz r hr, rfl⟩
  obtain ⟨_, hchain⟩ := hlx.eq_of_lastDigest_eq hinj hly
    (hix ▸ hmem xs fun r hr => List.mem_append_left _ hr)
    (hiy ▸ hmem ys fun r hr => List.mem_append_right _ hr)
    (by simpa [chainOf] using hlen) (by rw [lastDigest_chainOf, lastDigest_chainOf, hlast])
  have hinputs : xs.map (fun r => (r.prevHash, chainEntry r)) =
      ys.map (fun r => (r.prevHash, chainEntry r)) := by rw [← hix, ← hiy, hchain]
  refine List.ext_getElem (by simpa using hlen) fun i hi hj => ?_
  rw [List.length_map] at hi hj
  have hc : (chainOf xs)[i]? = (chainOf ys)[i]? := by rw [hchain]
  have hp : (xs.map fun r => (r.prevHash, chainEntry r))[i]? =
      (ys.map fun r => (r.prevHash, chainEntry r))[i]? := by rw [hinputs]
  simp only [chainOf, chainEntry, List.getElem?_map, List.getElem?_eq_getElem hi,
    List.getElem?_eq_getElem hj, Option.map_some, Option.some.injEq, Prod.mk.injEq] at hc hp
  simp only [List.getElem_map]
  exact authenticated_eq_iff.mpr
    ⟨hc.1.2.2.2, hp.1, hc.2, hc.1.1, hc.1.2.1, hc.1.2.2.1⟩

end

/-- One edit of a stored log: a record altered in an authenticated field, a
record before the tail dropped, a record inserted or duplicated, or the records
put in another order. -/
inductive Tampering : List EventRecord → List EventRecord → Prop
  | alter {xs : List EventRecord} {i : Nat} {r r' : EventRecord} (hi : xs[i]? = some r)
      (hne : r'.authenticated ≠ r.authenticated) : Tampering xs (xs.set i r')
  | drop {xs : List EventRecord} {i : Nat} (hi : i + 1 < xs.length) : Tampering xs (xs.eraseIdx i)
  | insert {xs : List EventRecord} {i : Nat} (hi : i ≤ xs.length) (r : EventRecord) :
      Tampering xs (xs.insertIdx i r)
  | duplicate {xs : List EventRecord} {i : Nat} {r : EventRecord} (hi : xs[i]? = some r) :
      Tampering xs (xs.insertIdx (i + 1) r)
  | reorder {xs ys : List EventRecord} (hp : ys.Perm xs) (hne : ys ≠ xs) : Tampering xs ys

theorem eq_of_perm_authenticated {xs ys : List EventRecord}
    (hseq : GapFree xs) (hp : ys.Perm xs)
    (ha : ys.map EventRecord.authenticated = xs.map EventRecord.authenticated) : ys = xs := by
  refine List.ext_getElem hp.length_eq fun i hi hj => ?_
  obtain ⟨k, hk⟩ := List.mem_iff_getElem?.mp (hp.mem_iff.mp (List.getElem_mem hi))
  have hrow : (ys.map EventRecord.authenticated)[i]? = (xs.map EventRecord.authenticated)[i]? := by
    rw [ha]
  simp only [List.getElem?_map, List.getElem?_eq_getElem hi, List.getElem?_eq_getElem hj,
    Option.map_some, Option.some.injEq] at hrow
  have hki : k = i := by
    rw [← hseq k _ hk, (authenticated_eq_iff.mp hrow).1]
    exact hseq i _ (List.getElem?_eq_getElem hj)
  subst hki
  rw [List.getElem?_eq_getElem hj] at hk
  exact (Option.some.inj hk).symm

theorem Tampering.authenticated_ne {xs ys : List EventRecord} (h : Tampering xs ys)
    (hseq : GapFree xs) :
    ys.map EventRecord.authenticated ≠ xs.map EventRecord.authenticated := by
  intro ha
  have hlen : ys.length = xs.length := by simpa using congrArg List.length ha
  cases h with
  | @alter i r r' hi hne =>
    obtain ⟨hlt, _⟩ := List.getElem?_eq_some_iff.mp hi
    have hrow : ((xs.set i r').map EventRecord.authenticated)[i]? =
        (xs.map EventRecord.authenticated)[i]? := by rw [ha]
    simp only [List.getElem?_map, List.getElem?_set_self hlt, hi, Option.map_some,
      Option.some.injEq] at hrow
    exact hne hrow
  | @drop i hi =>
    rw [List.length_eraseIdx_of_lt (by omega)] at hlen
    omega
  | insert hi r =>
    rw [List.length_insertIdx_of_le_length hi] at hlen
    omega
  | duplicate hi =>
    obtain ⟨hlt, _⟩ := List.getElem?_eq_some_iff.mp hi
    rw [List.length_insertIdx_of_le_length hlt] at hlen
    omega
  | reorder hp hne => exact hne (eq_of_perm_authenticated hseq hp ha)

/-- The last stored hash commits to the authenticated fields of the whole log,
so an edit that keeps it is rejected. -/
theorem verifyChain_commits_to_history {c : Crates} {xs ys : List EventRecord}
    (hcf : (preimages (xs ++ ys)).InjOn c.digest) (hf : ∀ r ∈ xs ++ ys, r.Fits)
    (hnx : RedactionFree xs) (hny : RedactionFree ys) (hvx : verifyChain c xs = .ok ())
    (hlast : xs.getLast?.map EventRecord.thisHash = ys.getLast?.map EventRecord.thisHash) :
    (verifyChain c ys = .ok () → xs.length = ys.length ∧
      ∀ (i : Nat) (x y : EventRecord), xs[i]? = some x → ys[i]? = some y →
        x.seq = y.seq ∧ x.prevHash = y.prevHash ∧ x.thisHash = y.thisHash ∧ x.kind = y.kind ∧
          x.principalChain = y.principalChain ∧ x.payload = y.payload) ∧
    (Tampering xs ys → ∃ e, verifyChain c ys = .error e) := by
  constructor
  · intro hvy
    refine ⟨length_eq_of_lastHash_eq hcf hf hnx hny hvx hvy hlast, fun i x y hx hy => ?_⟩
    have ha := authenticated_eq_of_lastHash_eq hcf hf hnx hny hvx hvy hlast
    have hrow : (xs.map EventRecord.authenticated)[i]? = (ys.map EventRecord.authenticated)[i]? := by
      rw [ha]
    simp only [List.getElem?_map, hx, hy, Option.map_some, Option.some.injEq] at hrow
    exact authenticated_eq_iff.mp hrow
  · intro ht
    cases hvy : verifyChain c ys with
    | error e => exact ⟨e, rfl⟩
    | ok u =>
      have ha := authenticated_eq_of_lastHash_eq hcf hf hnx hny hvx hvy hlast
      exact absurd ha.symm (ht.authenticated_ne (verifyChain_ok_iff.mp hvx).1.gapFree)

def forgedNote : EventRecord :=
  { EventLog.nextRecord reference [] "note" ["user:a"] "a" 0 with payload := "x" }

theorem forgedNote_rejected :
    ∃ e, verifyChain reference ((notes reference ["a", "b"]).records.set 0 forgedNote) = .error e := by
  have ht : Tampering (notes reference ["a", "b"]).records
      ((notes reference ["a", "b"]).records.set 0 forgedNote) :=
    .alter rfl (by simp [authenticated_eq_iff, forgedNote, EventLog.nextRecord])
  have hcf := preimages_injOn (by decide +kernel :
    ((((notes reference ["a", "b"]).records ++ (notes reference ["a", "b"]).records.set 0 forgedNote).map
      EventRecord.preimage).dedup.map reference.digest).Nodup)
  exact (verifyChain_commits_to_history hcf (by decide +kernel) (by decide) (by decide)
    (notes_verifies reference ["a", "b"]).2 rfl).2 ht

end Hugit
