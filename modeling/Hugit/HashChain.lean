import Mathlib.Data.Set.Function
import Mathlib.Tactic

/-! Hash chains over arbitrary entries and digests. A digest commits to its
predecessor and to its own entry, so the last digest commits to the history. -/

namespace Hugit

variable {α δ : Type*}

def Linked (link : δ → α → δ) : δ → List (α × δ) → Prop
  | _, [] => True
  | prev, (a, d) :: rest => d = link prev a ∧ Linked link d rest

def linkInputs : δ → List (α × δ) → List (δ × α)
  | _, [] => []
  | prev, (a, d) :: rest => (prev, a) :: linkInputs d rest

def lastDigest (prev : δ) (chain : List (α × δ)) : δ :=
  (chain.getLast?.map Prod.snd).getD prev

theorem lastDigest_cons (prev : δ) (x : α × δ) (chain : List (α × δ)) :
    lastDigest prev (x :: chain) = lastDigest x.2 chain := by
  cases chain with
  | nil => rfl
  | cons y chain =>
    have h := List.getLast?_eq_some_getLast (List.cons_ne_nil y chain)
    simp only [lastDigest, List.getLast?_cons_cons, h, Option.map_some, Option.getD_some]

/-- Two chains of one length with the same last digest have the same start and
the same entries, as long as the link function has no collision on their inputs. -/
theorem Linked.eq_of_lastDigest_eq {link : δ → α → δ} {s : Set (δ × α)}
    (hinj : s.InjOn (Function.uncurry link)) {p q : δ} {xs ys : List (α × δ)}
    (hx : Linked link p xs) (hy : Linked link q ys)
    (hsx : ∀ x ∈ linkInputs p xs, x ∈ s) (hsy : ∀ y ∈ linkInputs q ys, y ∈ s)
    (hlen : xs.length = ys.length) (hlast : lastDigest p xs = lastDigest q ys) :
    p = q ∧ xs = ys := by
  induction xs generalizing p q ys with
  | nil =>
    obtain rfl : ys = [] := List.length_eq_zero_iff.mp hlen.symm
    exact ⟨hlast, rfl⟩
  | cons x xs ih =>
    cases ys with
    | nil => simp at hlen
    | cons y ys =>
      obtain ⟨a, d⟩ := x
      obtain ⟨b, e⟩ := y
      rw [lastDigest_cons, lastDigest_cons] at hlast
      obtain ⟨hd, htail⟩ := ih hx.2 hy.2 (fun z hz => hsx z (List.mem_cons_of_mem _ hz))
        (fun z hz => hsy z (List.mem_cons_of_mem _ hz)) (by simpa using hlen) hlast
      have hlink : link p a = link q b := by rw [← hx.1, ← hy.1]; exact hd
      have hpair := hinj (hsx (p, a) (by simp [linkInputs])) (hsy (q, b) (by simp [linkInputs])) hlink
      obtain ⟨rfl, rfl⟩ := Prod.mk.inj hpair
      subst hd htail
      exact ⟨rfl, rfl⟩

end Hugit
