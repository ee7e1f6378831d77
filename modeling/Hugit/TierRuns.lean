import Hugit.Recovery
import Hugit.Redaction

/-! Runs that interleave appends, redactions and compactions of one log. Every
sealed run starts at the first record, so recovery reads the longest one and
continues with the hot remainder. -/

namespace Hugit

open Std

/-- The live log, its cold store, and the records sealed last under the greatest
end so far. -/
structure TierState where
  log : EventLog
  cold : InMemoryColdStore
  longest : List EventRecord

inductive TierStep where
  | append (kind : String) (principalChain : List String) (payload : String) (recordedAt : Nat)
  | redact (s : RedactionStep)
  | compact (hotBound : Nat)

namespace TierState

def start (log : EventLog) : TierState :=
  ⟨log, .new, []⟩

def sealedUnder (longest records : List EventRecord) : List EventRecord :=
  if longest.length ≤ records.length then records else longest

def step (c : Crates) (s : TierState) : TierStep → TierState
  | .append kind principalChain payload recordedAt =>
    { s with log := (s.log.append c kind principalChain payload recordedAt).2 }
  | .redact r =>
    match redactionStep c s.log.records r with
    | none => s
    | some records => { s with log := ⟨records⟩ }
  | .compact hotBound =>
    match Hugit.compact c s.log hotBound s.cold with
    | (.error _, _) => s
    | (.ok _, cold) =>
      { s with cold, longest := sealedUnder s.longest (s.log.records.take (s.log.len - hotBound)) }

def run (c : Crates) (s : TierState) (steps : List TierStep) : TierState :=
  steps.foldl (step c) s

end TierState

/-- What a cold range of the run is: the first records of the log as they were,
under their own key. -/
structure SealedRun (log : EventLog) (key : String) (range : ColdRange) : Prop where
  key_eq : key = range.key
  range_eq : range = .fromRecords range.records
  ne_nil : range.records ≠ []
  gapFree : GapFree range.records
  hashes : range.records.map EventRecord.thisHash <+: log.records.map EventRecord.thisHash

structure Tiered (s : TierState) : Prop where
  gapFree : GapFree s.log.records
  sealed : ∀ key range, s.cold.objects[key]? = some range →
    SealedRun s.log key range ∧ range.records.length ≤ s.longest.length
  longest : s.longest ≠ [] → s.cold.objects[(ColdRange.fromRecords s.longest).key]? =
    some (.fromRecords s.longest)

theorem tiered_start {log : EventLog} (h : GapFree log.records) : Tiered (.start log) :=
  ⟨h, by simp [TierState.start, InMemoryColdStore.new], by simp [TierState.start]⟩

variable {s : TierState}

theorem Tiered.longest_sealed (h : Tiered s) (hne : s.longest ≠ []) :
    SealedRun s.log (ColdRange.fromRecords s.longest).key (.fromRecords s.longest) :=
  (h.sealed _ _ (h.longest hne)).1

theorem Tiered.longest_hashes (h : Tiered s) :
    s.longest.map EventRecord.thisHash <+: s.log.records.map EventRecord.thisHash := by
  by_cases hne : s.longest = []
  · simp [hne]
  · exact (h.longest_sealed hne).hashes

theorem Tiered.longest_length_le (h : Tiered s) : s.longest.length ≤ s.log.len := by
  simpa [EventLog.len] using h.longest_hashes.length_le

theorem Tiered.grow (h : Tiered s) {log : EventLog} (hg : GapFree log.records)
    (hh : s.log.records.map EventRecord.thisHash <+: log.records.map EventRecord.thisHash) :
    Tiered { s with log } :=
  ⟨hg, fun key range hr =>
    have ⟨hrun, hle⟩ := h.sealed key range hr
    ⟨{ hrun with hashes := hrun.hashes.trans hh }, hle⟩, h.longest⟩

theorem Tiered.seal (h : Tiered s) {n : Nat} (hn : n ≠ 0) (hle : n ≤ s.log.len) (hl : s.log.len < 2 ^ 64) :
    Tiered { s with
      cold := ColdStore.put s.cold (.fromRecords (s.log.records.take n))
      longest := TierState.sealedUnder s.longest (s.log.records.take n) } := by
  set front := s.log.records.take n with hp
  have hlen : front.length = n := by simpa [hp, EventLog.len] using hle
  have hne : front ≠ [] := by
    intro he
    rw [he] at hlen
    exact hn hlen.symm
  have hnew : SealedRun s.log (ColdRange.fromRecords front).key (.fromRecords front) :=
    ⟨rfl, rfl, hne, h.gapFree.take n, (List.take_prefix n s.log.records).map _⟩
  have hget (key : String) : (ColdStore.put s.cold (.fromRecords front)).objects[key]? =
      if (ColdRange.fromRecords front).key = key then some (.fromRecords front)
      else s.cold.objects[key]? := by
    simp [ColdStore.put, ExtTreeMap.getElem?_insert]
  have hlong : s.longest.length ≤ (TierState.sealedUnder s.longest front).length ∧
      front.length ≤ (TierState.sealedUnder s.longest front).length := by
    unfold TierState.sealedUnder
    split_ifs <;> omega
  refine ⟨h.gapFree, fun key range hr => ?_, fun hlne => ?_⟩
  · rw [hget] at hr
    split_ifs at hr with hk
    · obtain rfl := Option.some.inj hr
      exact ⟨hk ▸ hnew, hlong.2⟩
    · have ⟨hrun, hle⟩ := h.sealed key range hr
      exact ⟨hrun, hle.trans hlong.1⟩
  · simp only [TierState.sealedUnder] at hlne ⊢
    split_ifs at hlne ⊢ with hcmp
    · rw [hget, if_pos rfl]
    · have hgl : GapFree s.longest := (h.longest_sealed hlne).gapFree
      have hlt := ColdRange.key_lt_key hne hnew.gapFree hgl (by omega) (h.longest_length_le.trans_lt hl)
      have hkey : (ColdRange.fromRecords front).key ≠ (ColdRange.fromRecords s.longest).key := by
        intro he
        rw [he] at hlt
        exact String.lt_irrefl _ hlt
      rw [hget, if_neg hkey]
      exact h.longest hlne

theorem Tiered.step {c : Crates} (h : Tiered s) {st : TierStep} (hl : (s.step c st).log.len < 2 ^ 64) :
    Tiered (s.step c st) := by
  cases st with
  | append kind principalChain payload recordedAt =>
    refine h.grow (h.gapFree.concat rfl) ?_
    simp
  | redact r =>
    simp only [TierState.step]
    cases hs : redactionStep c s.log.records r with
    | none => exact h
    | some records =>
      obtain ⟨x, hx, _, rfl⟩ := redactionStep_eq_some.mp hs
      refine h.grow ((scrub_gapFree hx h.gapFree).concat rfl) ?_
      simp [scrub_hashes hx]
  | compact hotBound =>
    simp only [TierState.step] at hl ⊢
    cases hc : compact c s.log hotBound s.cold with
    | mk result cold =>
      cases result with
      | error e => exact h
      | ok report =>
        simp only [hc] at hl ⊢
        obtain ⟨_, _, rfl⟩ := compact_eq_ok hc
        split_ifs with hz
        · have hkeep : TierState.sealedUnder s.longest (s.log.records.take (s.log.len - hotBound)) =
              s.longest := by
            rw [hz, List.take_zero, TierState.sealedUnder]
            split_ifs with he
            · exact (List.length_eq_zero_iff.mp (Nat.le_zero.mp he)).symm
            · rfl
          rw [hkeep]
          exact h
        · exact h.seal hz (Nat.sub_le _ _) hl

theorem TierState.len_le_step (c : Crates) (s : TierState) (st : TierStep) :
    s.log.len ≤ (s.step c st).log.len := by
  cases st with
  | append kind principalChain payload recordedAt => simp [step, EventLog.len]
  | redact r =>
    simp only [step]
    cases hs : redactionStep c s.log.records r with
    | none => exact le_rfl
    | some records => simp [EventLog.len, redactionStep_length hs]
  | compact hotBound =>
    simp only [step]
    split <;> exact le_rfl

theorem TierState.len_le_run (c : Crates) (s : TierState) (steps : List TierStep) :
    s.log.len ≤ (s.run c steps).log.len := by
  induction steps generalizing s with
  | nil => exact le_rfl
  | cons st steps ih => exact (s.len_le_step c st).trans (ih (s.step c st))

theorem Tiered.run {c : Crates} (h : Tiered s) {steps : List TierStep} (hl : (s.run c steps).log.len < 2 ^ 64) :
    Tiered (s.run c steps) := by
  induction steps generalizing s with
  | nil => exact h
  | cons st steps ih =>
    have hst : (s.step c st).log.len < 2 ^ 64 := ((s.step c st).len_le_run c steps).trans_lt hl
    exact ih (h.step hst) hl

theorem Tiered.key_lt_longest (h : Tiered s) (hl : s.log.len < 2 ^ 64) {key : String} {range : ColdRange}
    (hr : s.cold.objects[key]? = some range) (hne : key ≠ (ColdRange.fromRecords s.longest).key) :
    key < (ColdRange.fromRecords s.longest).key := by
  obtain ⟨hrun, hle⟩ := h.sealed key range hr
  have hlne : s.longest ≠ [] := by
    intro he
    rw [he, List.length_nil] at hle
    exact hrun.ne_nil (List.length_eq_zero_iff.mp (Nat.le_zero.mp hle))
  have hlong := h.longest_sealed hlne
  have hgl : GapFree s.longest := hlong.gapFree
  have hll := h.longest_length_le.trans_lt hl
  rw [hrun.key_eq, hrun.range_eq] at hne ⊢
  rcases Nat.lt_or_ge range.records.length s.longest.length with hlt | hge
  · exact ColdRange.key_lt_key hrun.ne_nil hrun.gapFree hgl hlt hll
  · have hpre := List.prefix_of_prefix_length_le hrun.hashes hlong.hashes (by simpa using hle)
    have hhash := hpre.eq_of_length (by simpa using Nat.le_antisymm hle hge)
    exact absurd (ColdRange.key_congr hrun.ne_nil hrun.gapFree hgl hll hhash) hne

theorem eq_concat_of_max {keys : List String} (hs : keys.Pairwise fun a b => compare a b = .lt)
    {top : String} (ht : top ∈ keys) (hmax : ∀ k ∈ keys, k ≠ top → k < top) :
    ∃ init, keys = init ++ [top] := by
  obtain ⟨init, rest, rfl⟩ := List.append_of_mem ht
  obtain rfl : rest = [] := by
    cases rest with
    | nil => rfl
    | cons k rest =>
      have hlt : compare top k = .lt :=
        (List.pairwise_cons.mp (List.pairwise_append.mp hs).2.1).1 k List.mem_cons_self
      have hlt : top < k := compareOfLessAndEq_eq_lt.mp hlt
      have hne : k ≠ top := fun he => String.lt_irrefl _ (he ▸ hlt)
      exact absurd (hmax k (by simp) hne) (String.lt_asymm hlt)
  exact ⟨init, rfl⟩

theorem Tiered.gatherCold (h : Tiered s) (hl : s.log.len < 2 ^ 64) (i : Nat) :
    (gatherCold s.cold)[i]? = s.longest[i]? := by
  have hlist : ColdStore.list s.cold = s.cold.objects.keys := rfl
  have hget (key : String) (hk : key ∈ s.cold.objects.keys) :
      ∃ range, s.cold.objects[key]? = some range ∧ recordsAt s.cold key = range.records := by
    rw [ExtTreeMap.mem_keys, ExtTreeMap.mem_iff_isSome_getElem?, Option.isSome_iff_exists] at hk
    obtain ⟨range, hr⟩ := hk
    exact ⟨range, hr, by simp [recordsAt, ColdStore.get, hr]⟩
  -- every write of a range lies below the length of the longest one
  have hbelow (key : String) (hk : key ∈ s.cold.objects.keys) (w : Nat × EventRecord)
      (hw : w ∈ seqWrites (recordsAt s.cold key)) : w.1 < s.longest.length := by
    obtain ⟨range, hr, hrec⟩ := hget key hk
    obtain ⟨hrun, hle⟩ := h.sealed key range hr
    rw [hrec, seqWrites, List.mem_map] at hw
    obtain ⟨r, hmem, rfl⟩ := hw
    obtain ⟨j, hj⟩ := List.mem_iff_getElem?.mp hmem
    have hlt := (List.getElem?_eq_some_iff.mp hj).1
    have hseq : r.seq = j := hrun.gapFree j r hj
    omega
  rw [gatherCold_getElem?, hlist]
  by_cases hlne : s.longest = []
  · have hnone : lastWrite i (s.cold.objects.keys.flatMap fun key =>
        seqWrites (recordsAt s.cold key)) = none := by
      refine lastWrite_eq_none.mpr fun w hw => ?_
      obtain ⟨key, hk, hw⟩ := List.mem_flatMap.mp hw
      have := hbelow key hk w hw
      simp [hlne] at this
    rw [hnone, hlne]
    rfl
  · have htop := h.longest hlne
    have hmem : (ColdRange.fromRecords s.longest).key ∈ s.cold.objects.keys := by
      rw [ExtTreeMap.mem_keys, ExtTreeMap.mem_iff_isSome_getElem?, htop]
      rfl
    have hmax (k : String) (hk : k ∈ s.cold.objects.keys)
        (hne : k ≠ (ColdRange.fromRecords s.longest).key) :
        k < (ColdRange.fromRecords s.longest).key := by
      obtain ⟨range, hr, _⟩ := hget k hk
      exact h.key_lt_longest hl hr hne
    obtain ⟨init, hinit⟩ := eq_concat_of_max ExtTreeMap.ordered_keys hmem hmax
    have hrec : recordsAt s.cold (ColdRange.fromRecords s.longest).key = s.longest := by
      simp [recordsAt, ColdStore.get, htop]
    have hgl : GapFree s.longest := (h.longest_sealed hlne).gapFree
    have hlast : lastWrite i (seqWrites s.longest) = s.longest[i]? := by
      have hseq (j : Nat) (r : EventRecord) (hj : s.longest[j]? = some r) : r.seq = 0 + j := by
        rw [hgl j r hj, Nat.zero_add]
      simpa using lastWrite_seqWrites hseq i
    rw [hinit, List.flatMap_append, lastWrite_append, List.flatMap_singleton, hrec, hlast]
    cases hi : s.longest[i]? with
    | some r => rfl
    | none =>
      refine (Option.none_or ..).trans (lastWrite_eq_none.mpr fun w hw => ?_)
      obtain ⟨key, hk, hw⟩ := List.mem_flatMap.mp hw
      have := hbelow key (hinit ▸ List.mem_append_left _ hk) w hw
      have := List.getElem?_eq_none_iff.mp hi
      omega

end Hugit
