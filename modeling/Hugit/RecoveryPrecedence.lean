import Hugit.Recovery

/-! What a recovery that succeeds has served: every record from the first source that
has its place, and no record past the last place seen. -/

namespace Hugit

open Std

section Sources

theorem firstWrite_seqWrites_isSome {records : List EventRecord} {s : Nat} :
    (firstWrite s (seqWrites records)).isSome = true ↔ ∃ r ∈ records, r.seq = s := by
  induction records with
  | nil => simp [seqWrites, firstWrite]
  | cons r records ih =>
    have hcons : firstWrite s (seqWrites (r :: records)) =
        if r.seq = s then some r else firstWrite s (seqWrites records) := rfl
    rw [hcons, List.exists_mem_cons_iff, ← ih]
    by_cases hr : r.seq = s <;> simp [hr]

theorem mem_of_firstWrite_seqWrites {records : List EventRecord} {s : Nat} {r : EventRecord}
    (h : firstWrite s (seqWrites records) = some r) : r ∈ records ∧ r.seq = s := by
  induction records with
  | nil => simp [seqWrites, firstWrite] at h
  | cons x records ih =>
    have hcons : firstWrite s (seqWrites (x :: records)) =
        if x.seq = s then some x else firstWrite s (seqWrites records) := rfl
    rw [hcons] at h
    split_ifs at h with hx
    · obtain rfl := Option.some.inj h
      exact ⟨by simp, hx⟩
    · exact ⟨List.mem_cons_of_mem _ (ih h).1, (ih h).2⟩

def coldRecords {S : Type} [ColdStore S] (cold : S) : List EventRecord :=
  (ColdStore.list cold).flatMap (recordsAt cold)

variable {S : Type} [ColdStore S] {cold : S}

theorem gatherCold_eq (s : Nat) : (gatherCold cold)[s]? = lastWrite s (seqWrites (coldRecords cold)) := by
  rw [gatherCold_getElem?, coldRecords, seqWrites, List.map_flatMap]
  rfl

theorem mem_of_gatherCold {s : Nat} {r : EventRecord} (h : (gatherCold cold)[s]? = some r) :
    r ∈ coldRecords cold ∧ r.seq = s := by
  rw [gatherCold_eq] at h
  obtain ⟨x, hx, he⟩ := List.mem_map.mp (mem_of_lastWrite h)
  obtain ⟨hs, rfl⟩ := Prod.mk.inj he
  exact ⟨hx, hs⟩

theorem gatherCold_eq_none {s : Nat} : (gatherCold cold)[s]? = none ↔ ∀ r ∈ coldRecords cold, r.seq ≠ s := by
  rw [gatherCold_eq, lastWrite_eq_none, seqWrites, List.forall_mem_map]

theorem mem_spliceHot {hotTail : List EventRecord} {s : Nat} :
    s ∈ spliceHot (gatherCold cold) hotTail ↔ ∃ r ∈ coldRecords cold ++ hotTail, r.seq = s := by
  rw [ExtTreeMap.mem_iff_isSome_getElem?, spliceHot_getElem?, Option.isSome_or, Bool.or_eq_true,
    firstWrite_seqWrites_isSome]
  have hcold : (gatherCold cold)[s]?.isSome = true ↔ ∃ r ∈ coldRecords cold, r.seq = s := by
    rw [Option.isSome_iff_ne_none, ne_eq, gatherCold_eq_none]
    push Not
    rfl
  rw [hcold]
  constructor
  · rintro (⟨r, hr, hs⟩ | ⟨r, hr, hs⟩)
    · exact ⟨r, List.mem_append_left _ hr, hs⟩
    · exact ⟨r, List.mem_append_right _ hr, hs⟩
  · rintro ⟨r, hr, hs⟩
    rcases List.mem_append.mp hr with hr | hr
    · exact .inl ⟨r, hr, hs⟩
    · exact .inr ⟨r, hr, hs⟩

theorem maxKey_spliceHot {hotTail : List EventRecord} :
    (spliceHot (gatherCold cold) hotTail).maxKey? =
      ((coldRecords cold ++ hotTail).map EventRecord.seq).max? := by
  cases h : ((coldRecords cold ++ hotTail).map EventRecord.seq).max? with
  | none =>
    rw [ExtTreeMap.maxKey?_eq_none_iff]
    have hnil : coldRecords cold ++ hotTail = [] := List.map_eq_nil_iff.mp (List.max?_eq_none_iff.mp h)
    refine ExtTreeMap.ext_getElem? fun {s} => ?_
    have hs : s ∉ spliceHot (gatherCold cold) hotTail := by
      rw [mem_spliceHot, hnil]
      simp
    rw [ExtTreeMap.getElem?_eq_none hs]
    simp
  | some m =>
    obtain ⟨hm, hle⟩ := List.max?_eq_some_iff.mp h
    rw [ExtTreeMap.maxKey?_eq_some_iff_mem_and_forall]
    refine ⟨mem_spliceHot.mpr (List.mem_map.mp hm), fun k hk => ?_⟩
    rw [Nat.isLE_compare]
    exact hle k (List.mem_map.mpr (mem_spliceHot.mp hk))

end Sources

section Mirror

theorem fillFromMirror_eq (bySeq : ExtTreeMap Nat EventRecord) (records : List EventRecord) :
    (∀ s, (fillFromMirror bySeq records).1[s]? = bySeq[s]?.or (firstWrite s (seqWrites records))) ∧
      ((fillFromMirror bySeq records).2 = true ↔ ∃ r ∈ records, r.seq ∉ bySeq) := by
  -- the flag is carried along, so the fold is described from any state of it
  have hfold (m : ExtTreeMap Nat EventRecord) (used : Bool) :
      (∀ s, (records.foldl (fun acc r => if r.seq ∈ acc.1 then acc else (acc.1.insert r.seq r, true))
          (m, used)).1[s]? = m[s]?.or (firstWrite s (seqWrites records))) ∧
      ((records.foldl (fun acc r => if r.seq ∈ acc.1 then acc else (acc.1.insert r.seq r, true))
          (m, used)).2 = true ↔ used = true ∨ ∃ r ∈ records, r.seq ∉ m) := by
    induction records generalizing m used with
    | nil => simp [seqWrites, firstWrite]
    | cons r records ih =>
      have hcons (s : Nat) : firstWrite s (seqWrites (r :: records)) =
          if r.seq = s then some r else firstWrite s (seqWrites records) := rfl
      simp only [List.foldl_cons]
      by_cases hm : r.seq ∈ m
      · simp only [hm, if_true]
        obtain ⟨hget, hused⟩ := ih m used
        refine ⟨fun s => ?_, by rw [hused]; simp [hm]⟩
        rw [hget, hcons]
        split_ifs with hs
        · subst hs
          obtain ⟨x, hx⟩ := Option.isSome_iff_exists.mp (ExtTreeMap.mem_iff_isSome_getElem?.mp hm)
          simp [hx]
        · rfl
      · simp only [hm, if_false]
        obtain ⟨hget, hused⟩ := ih (m.insert r.seq r) true
        refine ⟨fun s => ?_, by rw [hused]; simp [hm]⟩
        rw [hget, hcons, ExtTreeMap.getElem?_insert]
        by_cases hs : r.seq = s
        · subst hs
          simp [ExtTreeMap.getElem?_eq_none hm]
        · simp [hs]
  obtain ⟨hget, hused⟩ := hfold bySeq false
  exact ⟨hget, hused.trans (by simp)⟩

end Mirror

def MirrorSource.InRange {M : Type} [MirrorSource M] (mirror : M) : Prop :=
  ∀ lo hi, ∀ r ∈ recordsIn mirror lo hi, lo ≤ r.seq ∧ r.seq < hi

def ComesFirst {S M : Type} [ColdStore S] [MirrorSource M] (cold : S) (mirror : M)
    (hotTail : List EventRecord) (r : EventRecord) : Prop :=
  if ∃ x ∈ coldRecords cold, x.seq = r.seq then r ∈ coldRecords cold
  else if ∃ x ∈ hotTail, x.seq = r.seq then r ∈ hotTail
  else ∃ lo hi, r ∈ MirrorSource.recordsIn mirror lo hi

structure ServedInOrder {S M : Type} [ColdStore S] [MirrorSource M] (c : Crates) (cold : S) (mirror : M)
    (hotTail : List EventRecord) (recovered : Recovered) : Prop where
  gapFree : GapFree recovered.records
  verified : verifyChain c recovered.records = .ok ()
  replayed : replay c ⟨recovered.records⟩ = .ok recovered.state
  precedence : ∀ r ∈ recovered.records, ComesFirst cold mirror hotTail r
  last : recovered.records.getLast?.map EventRecord.seq =
    ((coldRecords cold ++ hotTail).map EventRecord.seq).max?
  source : recovered.source = .coldTierWithMirror ↔
    ∃ r ∈ recovered.records, ∀ x ∈ coldRecords cold ++ hotTail, x.seq ≠ r.seq

section Recovery

variable {S M : Type} [ColdStore S] [MirrorSource M] {c : Crates} {cold : S} {mirror : M}
  {hotTail : List EventRecord} {recovered : Recovered}

/-- A chain of `maxSeq` records put together from the sealed records, the hot tail where they
leave a place free, and what the mirror was asked for. -/
structure ChainGathered (c : Crates) (cold : S) (mirror : M) (hotTail asked : List EventRecord) (maxSeq : Nat)
    (recovered : Recovered) : Prop where
  fromMirror : ∀ r ∈ asked, ∃ lo hi, r ∈ MirrorSource.recordsIn mirror lo hi
  below : ∀ r ∈ asked, r.seq < maxSeq
  found : (List.range maxSeq).map (fun s => ((spliceHot (gatherCold cold) hotTail)[s]?).or
    (firstWrite s (seqWrites asked))) = recovered.records.map some
  verified : verifyChain c recovered.records = .ok ()
  replayed : replayUnchecked c recovered.records = .ok recovered.state
  source : recovered.source = .coldTierWithMirror ↔
    ∃ r ∈ asked, r.seq ∉ spliceHot (gatherCold cold) hotTail

def endSeen (records : List EventRecord) : Nat :=
  ((records.map EventRecord.seq).max?.map fun s => (s + 1) % 2 ^ 64).getD 0

theorem recoverWithSources_eq_ok (hm : MirrorSource.InRange mirror)
    (h : recoverWithSources c cold mirror hotTail = .ok recovered) :
    ∃ asked, ChainGathered c cold mirror hotTail asked (endSeen (coldRecords cold ++ hotTail)) recovered := by
  have hend : (((coldRecords cold ++ hotTail).map EventRecord.seq).max?.map fun s => (s + 1) % 2 ^ 64).getD 0 =
      endSeen (coldRecords cold ++ hotTail) := rfl
  simp only [recoverWithSources, maxKey_spliceHot, hend] at h
  generalize endSeen (coldRecords cold ++ hotTail) = maxSeq at h
  by_cases hgap : 0 < maxSeq ∧ contiguousReach (spliceHot (gatherCold cold) hotTail) < maxSeq
  · obtain ⟨hget, hused⟩ := fillFromMirror_eq (spliceHot (gatherCold cold) hotTail)
      (MirrorSource.recordsIn mirror (contiguousReach (spliceHot (gatherCold cold) hotTail)) maxSeq)
    simp only [hgap, and_self, if_true] at h
    generalize fillFromMirror (spliceHot (gatherCold cold) hotTail)
      (MirrorSource.recordsIn mirror (contiguousReach (spliceHot (gatherCold cold) hotTail)) maxSeq) = filled
      at h hget hused
    cases hasm : assemble filled.1 (List.range maxSeq) with
    | error e => simp [hasm] at h
    | ok records =>
      simp only [hasm] at h
      obtain ⟨hv, hr, rfl, hsource⟩ := serve_eq_ok.mp h
      have hmap := (assemble_eq_ok List.nodup_range).mp hasm
      simp only [hget] at hmap
      refine ⟨_, fun r hr => ⟨_, _, hr⟩, fun r hr => (hm _ _ r hr).2, hmap, hv, hr, ?_⟩
      rw [hsource, ← hused]
      cases filled.2 <;> simp
  · simp only [hgap, if_false] at h
    cases hasm : assemble (spliceHot (gatherCold cold) hotTail) (List.range maxSeq) with
    | error e => simp [hasm] at h
    | ok records =>
      simp only [hasm, Bool.false_eq_true, if_false] at h
      obtain ⟨hv, hr, rfl, hsource⟩ := serve_eq_ok.mp h
      have hmap := (assemble_eq_ok List.nodup_range).mp hasm
      refine ⟨[], by simp, by simp, ?_, hv, hr, by simp [hsource]⟩
      simpa [seqWrites, firstWrite] using hmap

namespace ChainGathered

variable {asked : List EventRecord} {maxSeq : Nat}

theorem length (h : ChainGathered c cold mirror hotTail asked maxSeq recovered) :
    recovered.records.length = maxSeq := by
  simpa [eq_comm] using congrArg List.length h.found

theorem gapFree (h : ChainGathered c cold mirror hotTail asked maxSeq recovered) : GapFree recovered.records :=
  (verifyChain_ok_iff.mp h.verified).1.gapFree

theorem found_at (h : ChainGathered c cold mirror hotTail asked maxSeq recovered) {s : Nat} {r : EventRecord}
    (hs : recovered.records[s]? = some r) :
    ((spliceHot (gatherCold cold) hotTail)[s]?).or (firstWrite s (seqWrites asked)) = some r := by
  have hlt : s < maxSeq := h.length ▸ (List.getElem?_eq_some_iff.mp hs).1
  have hh := congrArg (fun l => l[s]?) h.found
  simpa [hlt, hs] using hh

theorem comesFirst (h : ChainGathered c cold mirror hotTail asked maxSeq recovered) {r : EventRecord}
    (hr : r ∈ recovered.records) : ComesFirst cold mirror hotTail r := by
  obtain ⟨s, hs⟩ := List.mem_iff_getElem?.mp hr
  obtain rfl := h.gapFree s r hs
  have hfound := h.found_at hs
  rw [spliceHot_getElem?] at hfound
  unfold ComesFirst
  cases hcold : (gatherCold cold)[r.seq]? with
  | some x =>
    obtain rfl : x = r := by simpa [hcold] using hfound
    have hx := (mem_of_gatherCold hcold).1
    rw [if_pos ⟨x, hx, rfl⟩]
    exact hx
  | none =>
    have hno : ¬ ∃ x ∈ coldRecords cold, x.seq = r.seq := by
      rintro ⟨x, hx, he⟩
      exact gatherCold_eq_none.mp hcold x hx he
    rw [if_neg hno]
    rw [hcold, Option.none_or] at hfound
    cases hhot : firstWrite r.seq (seqWrites hotTail) with
    | some x =>
      obtain rfl : x = r := by simpa [hhot] using hfound
      have hx := (mem_of_firstWrite_seqWrites hhot).1
      rw [if_pos ⟨x, hx, rfl⟩]
      exact hx
    | none =>
      have hno' : ¬ ∃ x ∈ hotTail, x.seq = r.seq := by
        rw [← firstWrite_seqWrites_isSome, hhot]
        simp
      rw [if_neg hno']
      rw [hhot, Option.none_or] at hfound
      exact h.fromMirror r (mem_of_firstWrite_seqWrites hfound).1

theorem mirror_used (h : ChainGathered c cold mirror hotTail asked maxSeq recovered) :
    recovered.source = .coldTierWithMirror ↔
      ∃ r ∈ recovered.records, ∀ x ∈ coldRecords cold ++ hotTail, x.seq ≠ r.seq := by
  rw [h.source]
  constructor
  · rintro ⟨r, hr, hnot⟩
    have hlt : r.seq < recovered.records.length := h.length ▸ h.below r hr
    refine ⟨recovered.records[r.seq], List.getElem_mem hlt, fun x hx he => hnot ?_⟩
    rw [h.gapFree r.seq _ (List.getElem?_eq_getElem hlt)] at he
    exact mem_spliceHot.mpr ⟨x, hx, he⟩
  · rintro ⟨r, hr, hnot⟩
    obtain ⟨s, hs⟩ := List.mem_iff_getElem?.mp hr
    obtain rfl := h.gapFree s r hs
    have hvacant : r.seq ∉ spliceHot (gatherCold cold) hotTail := by
      rw [mem_spliceHot]
      rintro ⟨x, hx, he⟩
      exact hnot x hx he
    have hh := h.found_at hs
    rw [ExtTreeMap.getElem?_eq_none hvacant, Option.none_or] at hh
    exact ⟨r, (mem_of_firstWrite_seqWrites hh).1, hvacant⟩

end ChainGathered

section Last

variable {seen : List EventRecord}

theorem endSeen_eq_succ (hw : ∀ r ∈ seen, r.seq < 2 ^ 64) (hne : ∀ r ∈ seen, r.seq ≠ 2 ^ 64 - 1) :
    endSeen seen = ((seen.map EventRecord.seq).max?.map (· + 1)).getD 0 := by
  cases hmx : (seen.map EventRecord.seq).max? with
  | none => simp [endSeen, hmx]
  | some m =>
    obtain ⟨y, hy, rfl⟩ := List.mem_map.mp (List.max?_eq_some_iff.mp hmx).1
    have hylt := hw y hy
    have hyne := hne y hy
    rw [endSeen, hmx]
    exact Nat.mod_eq_of_lt (by omega)

theorem endSeen_eq_zero (hw : ∀ r ∈ seen, r.seq < 2 ^ 64) {x : EventRecord} (hx : x ∈ seen)
    (he : x.seq = 2 ^ 64 - 1) : (seen.map EventRecord.seq).max? = some (2 ^ 64 - 1) ∧ endSeen seen = 0 := by
  have hmax : (seen.map EventRecord.seq).max? = some (2 ^ 64 - 1) := by
    rw [List.max?_eq_some_iff]
    refine ⟨List.mem_map.mpr ⟨x, hx, he⟩, fun n hn => ?_⟩
    obtain ⟨y, hy, rfl⟩ := List.mem_map.mp hn
    have hylt := hw y hy
    omega
  exact ⟨hmax, by rw [endSeen, hmax]; rfl⟩

theorem getLast?_seq {records : List EventRecord} (hg : GapFree records) {last : Option Nat}
    (hlen : records.length = (last.map (· + 1)).getD 0) : records.getLast?.map EventRecord.seq = last := by
  cases last with
  | none =>
    rw [List.length_eq_zero_iff.mp hlen]
    rfl
  | some n =>
    have hlen' : records.length = n + 1 := hlen
    have hlt : n < records.length := by omega
    rw [List.getLast?_eq_getElem?, hlen', Nat.add_sub_cancel, List.getElem?_eq_getElem hlt, Option.map_some,
      hg n _ (List.getElem?_eq_getElem hlt)]

end Last

/-- A recovery that succeeds served its sources in order, unless some record stood at the
last place there is: one past it is zero, and the chain is cut to nothing. -/
theorem recovery_in_order_iff (hm : MirrorSource.InRange mirror)
    (hw : ∀ r ∈ coldRecords cold ++ hotTail, r.seq < 2 ^ 64)
    (h : recoverWithSources c cold mirror hotTail = .ok recovered) :
    ServedInOrder c cold mirror hotTail recovered ↔
      ∀ r ∈ coldRecords cold ++ hotTail, r.seq ≠ 2 ^ 64 - 1 := by
  obtain ⟨asked, hg⟩ := recoverWithSources_eq_ok hm h
  constructor
  · intro hserved x hx he
    obtain ⟨hmax, hzero⟩ := endSeen_eq_zero hw hx he
    have hlast := hserved.last
    rw [List.length_eq_zero_iff.mp (hg.length.trans hzero), hmax] at hlast
    cases hlast
  · intro hne
    have hlen := hg.length
    rw [endSeen_eq_succ hw hne] at hlen
    exact ⟨hg.gapFree, hg.verified, replay_eq_ok.mpr ⟨hg.verified, hg.replayed⟩, fun _ => hg.comesFirst,
      getLast?_seq hg.gapFree hlen, hg.mirror_used⟩

end Recovery

structure ListMirror where
  records : List EventRecord

instance : MirrorSource ListMirror where
  recordsIn mirror lo hi := mirror.records.filter fun r => lo ≤ r.seq && r.seq < hi

theorem ListMirror.inRange (mirror : ListMirror) : MirrorSource.InRange mirror := by
  intro lo hi r hr
  simpa using (List.mem_filter.mp hr).2

def secondNote (c : Crates) : EventRecord :=
  EventLog.nextRecord c (notes c ["a"]).records "note" ["user:a"] "b" 0

def firstNote (c : Crates) : EventRecord :=
  EventLog.nextRecord c [] "note" ["user:a"] "a" 0

theorem mirrored_recovery (c : Crates) :
    recoverWithSources c InMemoryColdStore.new (ListMirror.mk [firstNote c]) [secondNote c] =
      .ok ⟨.new, [firstNote c, secondNote c], .coldTierWithMirror⟩ := by
  have hseen : coldRecords InMemoryColdStore.new ++ [secondNote c] = [secondNote c] := rfl
  have hmem (s : Nat) : s ∈ spliceHot (gatherCold InMemoryColdStore.new) [secondNote c] ↔ s = 1 := by
    rw [mem_spliceHot, hseen]
    simp [secondNote, EventLog.nextRecord, eq_comm]
  have hzero : 0 ∉ spliceHot (gatherCold InMemoryColdStore.new) [secondNote c] := by simp [hmem]
  have hreach : contiguousReach (spliceHot (gatherCold InMemoryColdStore.new) [secondNote c]) = 0 := by
    rw [contiguousReach]
    cases (spliceHot (gatherCold InMemoryColdStore.new) [secondNote c]).size with
    | zero => rfl
    | succ n => rw [reachFrom, if_neg hzero]
  have hmax : (((spliceHot (gatherCold InMemoryColdStore.new) [secondNote c]).maxKey?).map
      fun s => (s + 1) % 2 ^ 64).getD 0 = 2 := by
    rw [maxKey_spliceHot, hseen]
    rfl
  have hasked : MirrorSource.recordsIn (ListMirror.mk [firstNote c]) 0 2 = [firstNote c] := rfl
  obtain ⟨hget, hused⟩ := fillFromMirror_eq (spliceHot (gatherCold InMemoryColdStore.new) [secondNote c])
    [firstNote c]
  have hchain : (List.range 2).map (fun s => (fillFromMirror
      (spliceHot (gatherCold InMemoryColdStore.new) [secondNote c]) [firstNote c]).1[s]?) =
      [firstNote c, secondNote c].map some := by
    have hcold (s : Nat) : (gatherCold InMemoryColdStore.new)[s]? = none := by
      rw [gatherCold_eq]
      rfl
    simp only [hget, spliceHot_getElem?, hcold, Option.none_or]
    rfl
  have hflag := hused.mpr ⟨firstNote c, by simp, hzero⟩
  obtain ⟨hv, hr⟩ := replay_eq_ok.mp (notes_replay c ["a", "b"])
  have hserve : serve c [firstNote c, secondNote c] .coldTierWithMirror =
      .ok ⟨.new, [firstNote c, secondNote c], .coldTierWithMirror⟩ := serve_eq_ok.mpr ⟨hv, hr, rfl, rfl⟩
  have hgap : 0 < 2 ∧ 0 < 2 := by decide
  simp only [recoverWithSources, hmax, hreach, hasked, if_pos hgap,
    (assemble_eq_ok List.nodup_range).mpr hchain, hflag, if_true, hserve]

/-- A mirror that fills the gap below a surviving record is reported. -/
theorem mirrored_in_order : ∃ recovered,
    recoverWithSources reference InMemoryColdStore.new (ListMirror.mk [firstNote reference])
      [secondNote reference] = .ok recovered ∧
    ServedInOrder reference InMemoryColdStore.new (ListMirror.mk [firstNote reference])
      [secondNote reference] recovered ∧
    recovered.source = .coldTierWithMirror := by
  have hseen : coldRecords InMemoryColdStore.new ++ [secondNote reference] = [secondNote reference] := rfl
  have hplace : ∀ r ∈ [secondNote reference], r.seq = 1 := by
    intro r hr
    obtain rfl := List.mem_singleton.mp hr
    rfl
  refine ⟨_, mirrored_recovery reference, ?_, rfl⟩
  refine (recovery_in_order_iff (ListMirror.inRange _) ?_ (mirrored_recovery reference)).mpr ?_
  · intro r hr
    rw [hplace r (hseen ▸ hr)]
    decide
  · intro r hr
    rw [hplace r (hseen ▸ hr)]
    decide

theorem recoverWithSources_cut {S M : Type} [ColdStore S] [MirrorSource M] {cold : S}
    {hotTail : List EventRecord} (c : Crates) (mirror : M)
    (h : endSeen (coldRecords cold ++ hotTail) = 0) :
    recoverWithSources c cold mirror hotTail = .ok ⟨.new, [], .coldTier⟩ := by
  have hend : (((coldRecords cold ++ hotTail).map EventRecord.seq).max?.map fun s => (s + 1) % 2 ^ 64).getD 0 =
      0 := h
  simp only [recoverWithSources, maxKey_spliceHot, hend, Nat.lt_irrefl, false_and, if_false, List.range_zero,
    assemble, Bool.false_eq_true]
  rfl

def strayRecord (c : Crates) : EventRecord :=
  { firstNote c with seq := 2 ^ 64 - 1 }

/-- One stray record with the highest sequence number, and the chain that survived beside
it is recovered as an empty one. -/
theorem stray_record_cuts : ∃ recovered,
    recoverWithSources reference InMemoryColdStore.new NoMirror.mk
      [firstNote reference, secondNote reference, strayRecord reference] = .ok recovered ∧
    recovered.records = [] ∧
    ¬ ServedInOrder reference InMemoryColdStore.new NoMirror.mk
      [firstNote reference, secondNote reference, strayRecord reference] recovered := by
  have hend : endSeen (coldRecords InMemoryColdStore.new ++
      [firstNote reference, secondNote reference, strayRecord reference]) = 0 := rfl
  refine ⟨_, recoverWithSources_cut reference NoMirror.mk hend, rfl, fun hserved => ?_⟩
  have hlast := hserved.last
  cases hlast

end Hugit
