import Mathlib.Tactic

/-! Maps built by a sequence of writes: the last write to a key decides. -/

namespace Hugit

open Std

section

variable {κ ω : Type*} [DecidableEq κ]

def lastWrite (k : κ) : List (κ × ω) → Option ω
  | [] => none
  | w :: ws => (lastWrite k ws).or (if w.1 = k then some w.2 else none)

@[simp] theorem lastWrite_nil (k : κ) : lastWrite k ([] : List (κ × ω)) = none := rfl

theorem lastWrite_append (k : κ) (ws vs : List (κ × ω)) :
    lastWrite k (ws ++ vs) = (lastWrite k vs).or (lastWrite k ws) := by
  induction ws with
  | nil => simp
  | cons w ws ih => simp [lastWrite, ih, Option.or_assoc]

@[simp] theorem lastWrite_concat (k : κ) (ws : List (κ × ω)) (w : κ × ω) :
    lastWrite k (ws ++ [w]) = if w.1 = k then some w.2 else lastWrite k ws := by
  rw [lastWrite_append]
  by_cases h : w.1 = k <;> simp [lastWrite, h]

theorem lastWrite_eq_none {k : κ} {ws : List (κ × ω)} :
    lastWrite k ws = none ↔ ∀ w ∈ ws, w.1 ≠ k := by
  induction ws with
  | nil => simp
  | cons w ws ih => simp [lastWrite, ih, and_comm]

theorem mem_of_lastWrite {k : κ} {v : ω} {ws : List (κ × ω)} (h : lastWrite k ws = some v) :
    (k, v) ∈ ws := by
  induction ws with
  | nil => simp at h
  | cons w ws ih =>
    rcases Option.or_eq_some_iff.mp h with hh | ⟨_, hh⟩
    · exact List.mem_cons_of_mem _ (ih hh)
    · split_ifs at hh with hk
      obtain ⟨rfl⟩ := hh
      exact hk ▸ List.mem_cons_self

theorem lastWrite_filterMap_key (g : κ → Option ω) (ks : List κ) (k : κ) :
    lastWrite k (ks.filterMap fun k => (g k).map (k, ·)) = if k ∈ ks then g k else none := by
  induction ks with
  | nil => rfl
  | cons j ks ih =>
    by_cases hk : k = j
    · subst hk
      cases hg : g k with
      | none => simp [hg, ih]
      | some v => by_cases hm : k ∈ ks <;> simp [hg, lastWrite, ih, hm]
    · cases hg : g j <;> simp [hg, lastWrite, ih, hk, Ne.symm hk]

/-- The last write of a key is found by its place in the sequence. -/
theorem lastWrite_zipIdx {α : Type*} (f : α → κ) (g : α → ω) (items : List α) (k : κ) :
    lastWrite k (items.map fun a => (f a, g a)) =
      (lastWrite k (items.zipIdx.map fun a => (f a.1, a.2))).bind fun i => items[i]?.map g := by
  induction items using List.reverseRecOn with
  | nil => rfl
  | append_singleton items a ih =>
    rw [List.map_append, List.zipIdx_append, List.map_append]
    by_cases hk : f a = k
    · simp [hk]
    · have hplace : ∀ i, lastWrite k (items.zipIdx.map fun a => (f a.1, a.2)) = some i → i < items.length := by
        intro i hi
        obtain ⟨⟨b, j⟩, hb, he⟩ := List.mem_map.mp (mem_of_lastWrite hi)
        obtain ⟨-, rfl⟩ := Prod.mk.inj he
        exact (List.mem_zipIdx hb).2.1.trans_eq (Nat.zero_add _)
      simp only [List.map_cons, List.map_nil, List.zipIdx_cons, List.zipIdx_nil, lastWrite_concat, hk, if_false, ih]
      refine Option.bind_congr fun i hi => ?_
      rw [List.getElem?_append_left (hplace i hi)]

def firstWrite (k : κ) : List (κ × ω) → Option ω
  | [] => none
  | w :: ws => if w.1 = k then some w.2 else firstWrite k ws

theorem firstWrite_eq_lastWrite {ws : List (κ × ω)} (hnd : (ws.map Prod.fst).Nodup) (k : κ) :
    firstWrite k ws = lastWrite k ws := by
  induction ws with
  | nil => rfl
  | cons w ws ih =>
    obtain ⟨hw, hnd⟩ := List.nodup_cons.mp hnd
    rw [firstWrite, lastWrite, ih hnd]
    split_ifs with hk
    · have hnone : lastWrite k ws = none :=
        lastWrite_eq_none.mpr fun v hv he => hw (hk ▸ he ▸ List.mem_map_of_mem hv)
      rw [hnone, Option.none_or]
    · rw [Option.or_none]

end

section

variable {ι κ ω : Type*} [DecidableEq κ] {full part : ι → Option (κ × ω)}

theorem lastWrite_filterMap_cons (f : ι → Option (κ × ω)) (i : ι) (items : List ι) (k : κ) (a : ω) :
    (lastWrite k ((i :: items).filterMap f)).getD a =
      (lastWrite k (items.filterMap f)).getD ((lastWrite k (f i).toList).getD a) := by
  cases h : f i with
  | none => simp [h]
  | some w => cases hl : lastWrite k (items.filterMap f) <;> simp [h, hl, lastWrite]

theorem forall_split_cons {i : ι} {items : List ι} {P : List ι → ι → List ι → Prop} :
    (∀ before j after, i :: items = before ++ j :: after → P before j after) ↔
      P [] i items ∧ ∀ before j after, items = before ++ j :: after → P (i :: before) j after := by
  constructor
  · exact fun h => ⟨h [] i items rfl, fun before j after he => h (i :: before) j after (by rw [he]; rfl)⟩
  · rintro ⟨hfirst, hrest⟩ (_ | ⟨j', before⟩) j after he
    · obtain ⟨rfl, rfl⟩ := List.cons.inj he
      exact hfirst
    · obtain ⟨rfl, htail⟩ := List.cons.inj he
      exact hrest before j after htail

/-- Two write sequences, one of them passing some items over, end with the same
value of a key exactly when each item passed over either is followed by another
write of the key or repeats the value the shorter sequence gives it. -/
theorem lastWrite_filterMap_eq_iff {items : List ι} (hsub : ∀ i ∈ items, part i = full i ∨ part i = none)
    (k : κ) (a b : ω) :
    (lastWrite k (items.filterMap full)).getD a = (lastWrite k (items.filterMap part)).getD b ↔
      (a = b ∨ ∃ i ∈ items, ∃ v, full i = some (k, v)) ∧
        ∀ before i after, items = before ++ i :: after → part i = none → ∀ v, full i = some (k, v) →
          (∃ j ∈ after, ∃ u, full j = some (k, u)) ∨
            (lastWrite k (before.filterMap part)).getD b = v := by
  induction items generalizing a b with
  | nil => simp
  | cons i items ih =>
    obtain ⟨hi, hsub⟩ := List.forall_mem_cons.mp hsub
    rw [lastWrite_filterMap_cons, lastWrite_filterMap_cons, ih hsub, forall_split_cons]
    simp only [lastWrite_filterMap_cons, List.exists_mem_cons_iff, List.filterMap_nil, lastWrite_nil,
      Option.getD_none]
    cases hf : full i with
    | none =>
      have hp : part i = none := by simpa [hf] using hi
      simp [hp]
    | some w =>
      obtain ⟨k', v⟩ := w
      by_cases hk : k' = k
      · rcases hi with hi | hi
        · simp [hi, hf, hk, lastWrite]
        · -- the item passed over changes only the longer sequence
          simp [hi, hk, lastWrite, eq_comm, or_comm]
      · rcases hi with hi | hi <;> simp [hi, hf, hk, lastWrite]

end

section

variable {κ ν : Type*} {cmp : κ → κ → Ordering} [TransCmp cmp] [LawfulEqCmp cmp] [DecidableEq κ]

def applyWrite (m : ExtTreeMap κ ν cmp) (w : κ × Option ν) : ExtTreeMap κ ν cmp :=
  match w.2 with
  | some v => m.insert w.1 v
  | none => m.erase w.1

theorem getElem?_applyWrite (m : ExtTreeMap κ ν cmp) (w : κ × Option ν) (k : κ) :
    (applyWrite m w)[k]? = if w.1 = k then w.2 else m[k]? := by
  obtain ⟨k', v⟩ := w
  cases v <;>
    simp [applyWrite, ExtTreeMap.getElem?_erase, ExtTreeMap.getElem?_insert, LawfulEqCmp.compare_eq_iff_eq]

theorem getElem?_foldl_applyWrite (ws : List (κ × Option ν)) (m : ExtTreeMap κ ν cmp) (k : κ) :
    (ws.foldl applyWrite m)[k]? = (lastWrite k ws).getD m[k]? := by
  induction ws generalizing m with
  | nil => rfl
  | cons w ws ih =>
    rw [List.foldl_cons, ih, getElem?_applyWrite]
    cases h : lastWrite k ws <;> by_cases hk : w.1 = k <;> simp [lastWrite, h, hk]

theorem getElem?_foldl_insert (ws : List (κ × ν)) (m : ExtTreeMap κ ν cmp) (k : κ) :
    (ws.foldl (fun m w => m.insert w.1 w.2) m)[k]? = (lastWrite k ws).or m[k]? := by
  induction ws generalizing m with
  | nil => rfl
  | cons w ws ih =>
    rw [List.foldl_cons, ih, ExtTreeMap.getElem?_insert]
    cases h : lastWrite k ws <;> by_cases hk : w.1 = k <;>
      simp [lastWrite, h, hk, LawfulEqCmp.compare_eq_iff_eq]

theorem getElem?_foldl_insertIfNew (ws : List (κ × ν)) (m : ExtTreeMap κ ν cmp) (k : κ) :
    (ws.foldl (fun m w => m.insertIfNew w.1 w.2) m)[k]? = m[k]?.or (firstWrite k ws) := by
  induction ws generalizing m with
  | nil => simp [firstWrite]
  | cons w ws ih =>
    rw [List.foldl_cons, ih, ExtTreeMap.getElem?_insertIfNew]
    simp only [LawfulEqCmp.compare_eq_iff_eq, ExtTreeMap.mem_iff_isSome_getElem?, firstWrite]
    by_cases hk : w.1 = k
    · cases hm : m[k]? <;> simp [hk, hm]
    · simp [hk]

theorem lastWrite_toList (m : ExtTreeMap κ ν cmp) (k : κ) : lastWrite k m.toList = m[k]? := by
  cases hm : m[k]? with
  | none =>
    refine lastWrite_eq_none.mpr fun w hw he => ?_
    have hget := ExtTreeMap.mem_toList_iff_getElem?_eq_some.mp (show (w.1, w.2) ∈ m.toList from hw)
    rw [he, hm] at hget
    cases hget
  | some v =>
    have hv := ExtTreeMap.mem_toList_iff_getElem?_eq_some.mpr hm
    cases hl : lastWrite k m.toList with
    | none => exact absurd rfl (lastWrite_eq_none.mp hl (k, v) hv)
    | some u =>
      have hu := ExtTreeMap.mem_toList_iff_getElem?_eq_some.mp (mem_of_lastWrite hl)
      exact hu.symm.trans hm

end

theorem getElem?_foldl_modify {α β : Type*} (f : β → α → α) {ws : List (Nat × β)} (hnd : (ws.map Prod.fst).Nodup)
    (items : List α) (i : Nat) :
    (ws.foldl (fun items w => items.modify w.1 (f w.2)) items)[i]? =
      items[i]?.map fun a => ((lastWrite i ws).map f).getD id a := by
  induction ws generalizing items with
  | nil => simp
  | cons w ws ih =>
    obtain ⟨hw, hnd⟩ := List.nodup_cons.mp hnd
    rw [List.foldl_cons, ih hnd, List.getElem?_modify, Option.map_eq_map, Option.map_map]
    refine congrArg (Option.map · items[i]?) (funext fun a => ?_)
    by_cases hi : w.1 = i
    · have hnone : lastWrite i ws = none :=
        lastWrite_eq_none.mpr fun v hv he => hw (hi ▸ he ▸ List.mem_map_of_mem hv)
      simp [lastWrite, hi, hnone]
    · simp [lastWrite, hi]

end Hugit
