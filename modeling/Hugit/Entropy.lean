import Mathlib.Algebra.BigOperators.Field
import Mathlib.Algebra.BigOperators.Group.Finset.Basic
import Mathlib.Analysis.SpecialFunctions.Log.Base
import Mathlib.Tactic

/-! The Shannon entropy of a sequence, in bits for each of its members. -/

namespace Hugit

variable {α : Type*} [DecidableEq α]

noncomputable def shannon (xs : List α) : ℝ :=
  ∑ x ∈ xs.toFinset, -((xs.count x / xs.length : ℝ) * Real.logb 2 (xs.count x / xs.length))

theorem sum_frequencies {xs : List α} (hne : xs ≠ []) :
    ∑ x ∈ xs.toFinset, (xs.count x / xs.length : ℝ) = 1 := by
  have hlen : (xs.length : ℝ) ≠ 0 := by simpa using hne
  rw [← Finset.sum_div, ← Nat.cast_sum, List.sum_toFinset_count_eq_length, div_self hlen]

/-- Gibbs' inequality for one member: comparing with the uniform distribution
costs at most the difference of the two frequencies. -/
theorem neg_mul_log_le {p k : ℝ} (hp : 0 < p) (hk : 0 < k) :
    -(p * Real.log p) ≤ p * Real.log k + (1 / k - p) := by
  have hlog := Real.log_le_sub_one_of_pos (show 0 < 1 / (k * p) by positivity)
  rw [one_div, Real.log_inv, Real.log_mul hk.ne' hp.ne'] at hlog
  have hmul := mul_le_mul_of_nonneg_left hlog hp.le
  have hk' : p * ((k * p)⁻¹ - 1) = 1 / k - p := by field_simp
  rw [hk'] at hmul
  linarith

theorem shannon_le_logb_card {xs : List α} (hne : xs ≠ []) :
    shannon xs ≤ Real.logb 2 xs.toFinset.card := by
  have hlog : 0 < Real.log 2 := Real.log_pos (by norm_num)
  have hcard : (0 : ℝ) < xs.toFinset.card := by
    have hpos : 0 < xs.toFinset.card := Finset.card_pos.mpr (List.toFinset_nonempty_iff xs |>.mpr hne)
    exact_mod_cast hpos
  have hterm : ∀ x ∈ xs.toFinset,
      -((xs.count x / xs.length : ℝ) * Real.log (xs.count x / xs.length)) ≤
        xs.count x / xs.length * Real.log xs.toFinset.card + (1 / xs.toFinset.card - xs.count x / xs.length) := by
    intro x hx
    have hcount : 0 < xs.count x := List.count_pos_iff.mpr (List.mem_toFinset.mp hx)
    have hlen : 0 < xs.length := List.length_pos_of_ne_nil hne
    exact neg_mul_log_le (by positivity) hcard
  have hsum := Finset.sum_le_sum hterm
  rw [Finset.sum_add_distrib, Finset.sum_sub_distrib, ← Finset.sum_mul, sum_frequencies hne, Finset.sum_const,
    nsmul_eq_mul, mul_one_div_cancel hcard.ne'] at hsum
  have hbits : shannon xs =
      (∑ x ∈ xs.toFinset, -((xs.count x / xs.length : ℝ) * Real.log (xs.count x / xs.length))) / Real.log 2 := by
    rw [shannon, Finset.sum_div]
    refine Finset.sum_congr rfl fun x _ => ?_
    rw [Real.logb, neg_div, mul_div_assoc]
  rw [hbits, Real.logb, div_le_div_iff_of_pos_right hlog]
  linarith

end Hugit
