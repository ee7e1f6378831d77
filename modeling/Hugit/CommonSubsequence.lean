import Mathlib.Data.List.Basic
import Mathlib.Order.MinMax

/-! Longest common subsequences, by what one more element at the end of either
list does to them. -/

namespace Hugit

open List

variable {α : Type}

/-- The length of a longest common subsequence. -/
structure LongestCommon (n : Nat) (a b : List α) : Prop where
  attained : ∃ s, s <+ a ∧ s <+ b ∧ s.length = n
  greatest : ∀ s, s <+ a → s <+ b → s.length ≤ n

theorem sublist_concat_iff {s a : List α} {x : α} :
    s <+ a ++ [x] ↔ s <+ a ∨ ∃ t, s = t ++ [x] ∧ t <+ a := by
  rw [sublist_append_iff]
  constructor
  · rintro ⟨t, u, rfl, ht, hu⟩
    rcases sublist_singleton.mp hu with rfl | rfl
    · exact .inl (by simpa using ht)
    · exact .inr ⟨t, rfl, ht⟩
  · rintro (h | ⟨t, rfl, ht⟩)
    · exact ⟨s, [], by simp, h, nil_sublist _⟩
    · exact ⟨t, [x], rfl, ht, .refl _⟩

namespace LongestCommon

variable {m n : Nat} {a b : List α} {x y : α}

theorem unique (h : LongestCommon m a b) (h' : LongestCommon n a b) : m = n := by
  obtain ⟨s, hsa, hsb, hs⟩ := h.attained
  obtain ⟨t, hta, htb, ht⟩ := h'.attained
  have hle := h'.greatest s hsa hsb
  have hge := h.greatest t hta htb
  omega

theorem symm (h : LongestCommon n a b) : LongestCommon n b a := by
  obtain ⟨s, hsa, hsb, hs⟩ := h.attained
  exact ⟨⟨s, hsb, hsa, hs⟩, fun s hb ha => h.greatest s ha hb⟩

theorem le_left (h : LongestCommon n a b) : n ≤ a.length := by
  obtain ⟨s, hs, -, rfl⟩ := h.attained
  exact hs.length_le

theorem nil_left (b : List α) : LongestCommon 0 [] b := by
  refine ⟨⟨[], nil_sublist _, nil_sublist _, rfl⟩, fun s hs _ => ?_⟩
  simp [sublist_nil.mp hs]

theorem concat_self (h : LongestCommon n a b) (x : α) : LongestCommon (n + 1) (a ++ [x]) (b ++ [x]) := by
  constructor
  · obtain ⟨s, hsa, hsb, rfl⟩ := h.attained
    exact ⟨s ++ [x], hsa.append_right [x], hsb.append_right [x], by simp⟩
  · intro s ha hb
    rcases sublist_concat_iff.mp ha with hs | ⟨t, rfl, ht⟩
    · -- the last element of `s` may stand for the new one in the second list only
      rcases sublist_concat_iff.mp hb with hs' | ⟨u, rfl, hu⟩
      · exact Nat.le_succ_of_le (h.greatest s hs hs')
      · simpa using h.greatest u ((sublist_append_left u [x]).trans hs) hu
    · rw [append_sublist_append_right] at hb
      simpa using h.greatest t ht hb

theorem concat_of_ne (hne : x ≠ y) (hm : LongestCommon m a (b ++ [y])) (hn : LongestCommon n (a ++ [x]) b) :
    LongestCommon (max m n) (a ++ [x]) (b ++ [y]) := by
  constructor
  · rcases Nat.le_total m n with hle | hle
    · obtain ⟨s, hsa, hsb, rfl⟩ := hn.attained
      exact ⟨s, hsa, hsb.trans (sublist_append_left b [y]), (Nat.max_eq_right hle).symm⟩
    · obtain ⟨s, hsa, hsb, rfl⟩ := hm.attained
      exact ⟨s, hsa.trans (sublist_append_left a [x]), hsb, (Nat.max_eq_left hle).symm⟩
  · intro s ha hb
    rcases sublist_concat_iff.mp ha with ha' | ⟨t, rfl, -⟩
    · exact le_max_of_le_left (hm.greatest s ha' hb)
    · rcases sublist_concat_iff.mp hb with hb' | ⟨u, hu, -⟩
      · exact le_max_of_le_right (hn.greatest _ ha hb')
      · exact absurd (by simpa using (append_inj' hu rfl).2) hne

end LongestCommon

end Hugit
