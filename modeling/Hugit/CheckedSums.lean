import Mathlib.Tactic

/-! Sums with an overflow check at every step. The checks change nothing but the
failure: what does not fit at the end is what some step refuses. -/

namespace Hugit

variable {ε α β γ : Type} {overflow : ε → Prop}

/-- The computation gives the exact value if everything fits, and otherwise fails
with an overflow. -/
def Checked (overflow : ε → Prop) (r : Except ε α) (fits : Prop) (v : α) : Prop :=
  (fits → r = .ok v) ∧ (¬ fits → ∃ e, overflow e ∧ r = .error e)

namespace Checked

theorem ok (v : α) : Checked overflow (.ok v) True v :=
  ⟨fun _ => rfl, fun hn => absurd trivial hn⟩

theorem congr {r : Except ε α} {fits fits' : Prop} {v : α} (h : Checked overflow r fits v)
    (hf : fits ↔ fits') : Checked overflow r fits' v :=
  ⟨fun hh => h.1 (hf.mpr hh), fun hh => h.2 (mt hf.mp hh)⟩

theorem bind {r : Except ε α} {f : α → Except ε β} {fits fits' : Prop} {v : α} {w : β}
    (h : Checked overflow r fits v) (h' : Checked overflow (f v) fits' w) :
    Checked overflow (r >>= f) (fits ∧ fits') w := by
  by_cases hf : fits
  · rw [h.1 hf]
    exact ⟨fun hh => h'.1 hh.2, fun hh => h'.2 fun hf' => hh ⟨hf, hf'⟩⟩
  · obtain ⟨e, ho, he⟩ := h.2 hf
    exact ⟨fun hh => absurd hh.1 hf, fun _ => ⟨e, ho, by rw [he]; rfl⟩⟩

theorem foldlM {Fits : α → Prop} {f : α → γ → Except ε α} {g : α → γ → α}
    (hstep : ∀ a x, Fits a → Checked overflow (f a x) (Fits (g a x)) (g a x))
    (hmono : ∀ a x, Fits (g a x) → Fits a) (xs : List γ) {a : α} (ha : Fits a) :
    Checked overflow (xs.foldlM f a) (Fits (xs.foldl g a)) (xs.foldl g a) := by
  have hback (xs : List γ) (a : α) : Fits (xs.foldl g a) → Fits a := by
    induction xs generalizing a with
    | nil => exact id
    | cons x xs ih => exact fun hh => hmono a x (ih (g a x) hh)
  induction xs generalizing a with
  | nil => exact (ok a).congr (iff_of_true trivial ha)
  | cons x xs ih =>
    rw [List.foldlM_cons, List.foldl_cons]
    by_cases hx : Fits (g a x)
    · exact ((hstep a x ha).bind (ih hx)).congr (and_iff_right hx)
    · obtain ⟨e, ho, he⟩ := (hstep a x ha).2 hx
      rw [he]
      exact ⟨fun hh => absurd (hback xs _ hh) hx, fun _ => ⟨e, ho, rfl⟩⟩

end Checked

section Words

def checkedAddU64 (m n : Nat) : Option Nat :=
  if m + n < 2 ^ 64 then some (m + n) else none

def checkedMulU64 (m n : Nat) : Option Nat :=
  if m * n < 2 ^ 64 then some (m * n) else none

variable {m n k : Nat}

theorem checkedAddU64_eq_some : checkedAddU64 m n = some k ↔ m + n < 2 ^ 64 ∧ m + n = k := by
  rw [checkedAddU64, Option.ite_none_right_eq_some, Option.some.injEq]

theorem checkedMulU64_eq_some : checkedMulU64 m n = some k ↔ m * n < 2 ^ 64 ∧ m * n = k := by
  rw [checkedMulU64, Option.ite_none_right_eq_some, Option.some.injEq]

end Words

end Hugit
