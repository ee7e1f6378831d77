import Mathlib.Tactic

/-! Computations that may fail, taken apart when they succeed. -/

namespace Hugit

universe u v

variable {ε : Type u} {α β σ : Type v}

def refuseIf (P : Prop) [Decidable P] (e : ε) : Except ε Unit :=
  if P then .error e else .ok ()

theorem refuseIf_eq_ok {P : Prop} [Decidable P] {e : ε} {u : Unit} : refuseIf P e = .ok u ↔ ¬ P := by
  by_cases h : P <;> simp [refuseIf, h]

theorem bind_eq_ok {x : Except ε α} {f : α → Except ε β} {b : β} :
    (x >>= f) = .ok b ↔ ∃ a, x = .ok a ∧ f a = .ok b := by
  cases x <;> simp [bind, Except.bind]

theorem pure_eq_ok {a b : α} : (pure a : Except ε α) = .ok b ↔ a = b := by
  simp [pure, Except.pure]

theorem mapError_eq_ok {ε' : Type u} {f : ε → ε'} {x : Except ε α} {a : α} :
    x.mapError f = .ok a ↔ x = .ok a := by
  cases x <;> simp [Except.mapError]

theorem ite_error_eq_ok {P : Prop} [Decidable P] {e : ε} {x : Except ε α} {a : α} :
    (if P then .error e else x) = .ok a ↔ ¬ P ∧ x = .ok a := by
  by_cases h : P <;> simp [h]

theorem forM_eq_ok {f : α → Except ε PUnit} {as : List α} (h : ∀ a ∈ as, f a = .ok ⟨⟩) :
    as.forM f = .ok ⟨⟩ := by
  induction as with
  | nil => rfl
  | cons a as ih =>
    show (f a >>= fun _ => as.forM f) = .ok ⟨⟩
    rw [h a List.mem_cons_self]
    exact ih fun b hb => h b (List.mem_cons_of_mem a hb)

/-- What every turn of a fallible loop keeps, for the elements still to come,
holds after the loop. -/
theorem foldlM_keeps {step : σ → α → Except ε σ} {P : List α → σ → Prop}
    (hstep : ∀ a l s s', P (a :: l) s → step s a = .ok s' → P l s') {l : List α} {s s' : σ} (hs : P l s)
    (h : l.foldlM step s = .ok s') : P [] s' := by
  induction l generalizing s with
  | nil =>
    obtain rfl : s = s' := pure_eq_ok.mp h
    exact hs
  | cons a l ih =>
    rw [List.foldlM_cons] at h
    obtain ⟨t, ht, hrest⟩ := bind_eq_ok.mp h
    exact ih (hstep a l s t hs ht) hrest

end Hugit
