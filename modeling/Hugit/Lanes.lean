import Hugit.FirstFit
import Hugit.LandingQueue
import Mathlib.Data.List.Range

/-! Parallel lanes: the entries of a batch in groups whose footprints do not meet. -/

namespace Hugit

def isDisjoint (a b : List String) : Bool :=
  a.all fun key => !b.contains key

def disjointAt (entries : List BatchEntry) (k idx : Nat) : Bool :=
  match entries[k]?, entries[idx]? with
  | some placed, some entry => isDisjoint placed.affected entry.affected
  | _, _ => true

def laneIndices (entries : List BatchEntry) : List (List Nat) :=
  firstFit (disjointAt entries) (List.range entries.length)

def disjointLanes (batch : Batch) : List (List String) :=
  (laneIndices batch.entries).map fun lane => lane.filterMap fun k => (batch.entries[k]?).map BatchEntry.itemId

/-- Two entries whose footprints have a key in common. -/
def Conflict (entries : List BatchEntry) (i j : Nat) : Prop :=
  ∃ a b key, entries[i]? = some a ∧ entries[j]? = some b ∧ key ∈ a.affected ∧ key ∈ b.affected

variable {entries : List BatchEntry} {i j : Nat}

theorem Conflict.symm (h : Conflict entries i j) : Conflict entries j i := by
  obtain ⟨a, b, key, hi, hj, ha, hb⟩ := h
  exact ⟨b, a, key, hj, hi, hb, ha⟩

theorem disjointAt_eq_false : disjointAt entries i j = false ↔ Conflict entries i j := by
  unfold disjointAt Conflict
  cases hi : entries[i]? with
  | none => simp
  | some a =>
    cases hj : entries[j]? with
    | none => simp
    | some b => simp [isDisjoint]

theorem disjointAt_eq_true : disjointAt entries i j = true ↔ ¬ Conflict entries i j := by
  rw [← disjointAt_eq_false, Bool.not_eq_false]

/-- The lanes are a partition of the queue's positions into increasing runs
without conflicts, and a lane is left behind only over a conflict with an entry
that was queued earlier. -/
theorem lanes_greedy_partition (batch : Batch) :
    ∃ lanes : List (List Nat),
      disjointLanes batch = lanes.map (fun lane => lane.filterMap fun k =>
        (batch.entries[k]?).map BatchEntry.itemId) ∧
      lanes.flatten.Perm (List.range batch.entries.length) ∧
      (∀ lane ∈ lanes, lane ≠ [] ∧ lane.Pairwise (· < ·)) ∧
      (∀ lane ∈ lanes, ∀ i ∈ lane, ∀ j ∈ lane, i ≠ j → ¬ Conflict batch.entries i j) ∧
      ∀ (k' k : Nat) lane' lane, k' < k → lanes[k']? = some lane' → lanes[k]? = some lane →
        ∀ j ∈ lane, ∃ i ∈ lane', i < j ∧ Conflict batch.entries i j := by
  have h := firstFit_fitted (disjointAt batch.entries) (List.range batch.entries.length)
  refine ⟨laneIndices batch.entries, rfl, h.perm, ?_, ?_, ?_⟩
  · intro lane hl
    refine ⟨fun he => h.nonempty (he ▸ hl), ?_⟩
    exact List.pairwise_lt_range.sublist (h.sublist lane hl)
  · intro lane hl i hi j hj hne
    have hpair : lane.Pairwise fun i j => ¬ Conflict batch.entries i j :=
      (h.fitted lane hl).imp fun hij => disjointAt_eq_true.mp hij
    have hsymm : Std.Symm fun i j => ¬ Conflict batch.entries i j := ⟨fun _ _ hij hji => hij hji.symm⟩
    exact hpair.forall hi hj hne
  · intro k' k lane' lane hlt hk' hk j hj
    obtain ⟨hlen', rfl⟩ := List.getElem?_eq_some_iff.mp hk'
    obtain ⟨hlen, rfl⟩ := List.getElem?_eq_some_iff.mp hk
    obtain ⟨i, hi, hsub, hno⟩ := List.pairwise_iff_getElem.mp h.blocked k' k hlen' hlen hlt j hj
    have hij : i < j := by simpa using List.pairwise_lt_range.sublist hsub
    exact ⟨i, hi, hij, disjointAt_eq_false.mp hno⟩

end Hugit
