import Mathlib.Tactic

/-! Walks over a directed graph that keep a list of what they have seen and a
list of what is left to visit. When nothing is left, everything reachable has
been seen, except behind the nodes at which the walk stops. -/

namespace Hugit

section

variable {ν : Type*}

def Reaches (next : ν → List ν) (roots : List ν) (y : ν) : Prop :=
  ∃ x ∈ roots, Relation.ReflTransGen (fun a b => b ∈ next a) x y

variable {next : ν → List ν} {stop : ν → Prop} {roots seen todo : List ν}

theorem Reaches.root {x : ν} (h : x ∈ roots) : Reaches next roots x :=
  ⟨x, h, .refl⟩

theorem Reaches.step {x y : ν} (h : Reaches next roots x) (hy : y ∈ next x) : Reaches next roots y := by
  obtain ⟨r, hr, hx⟩ := h
  exact ⟨r, hr, hx.tail hy⟩

theorem Reaches.within {S : ν → Prop} {y : ν} (h : Reaches next roots y) (hroots : ∀ x ∈ roots, S x)
    (hstep : ∀ x, S x → ∀ y ∈ next x, S y) : S y := by
  obtain ⟨r, hr, hy⟩ := h
  induction hy with
  | refl => exact hroots r hr
  | tail _ hy ih => exact hstep _ ih _ hy

/-- The invariant of a walk: nothing is lost, and nothing is invented. -/
structure Frontier (next : ν → List ν) (stop : ν → Prop) (roots seen todo : List ν) : Prop where
  rooted : ∀ x ∈ roots, x ∈ seen ∨ stop x ∨ x ∈ todo
  closed : ∀ x ∈ seen, ∀ y ∈ next x, y ∈ seen ∨ stop y ∨ y ∈ todo
  reached : ∀ x, x ∈ seen ∨ x ∈ todo → Reaches next roots x

theorem Frontier.start (next : ν → List ν) (stop : ν → Prop) (roots : List ν) :
    Frontier next stop roots [] roots :=
  ⟨fun _ hx => .inr (.inr hx), by simp, fun _ hx => .root (by simpa using hx)⟩

theorem Frontier.skip {x : ν} (h : Frontier next stop roots seen (x :: todo)) (hx : x ∈ seen ∨ stop x) :
    Frontier next stop roots seen todo := by
  have hdrop {y : ν} (hy : y ∈ seen ∨ stop y ∨ y ∈ x :: todo) : y ∈ seen ∨ stop y ∨ y ∈ todo := by
    simp only [List.mem_cons] at hy
    rcases hy with hy | hy | rfl | hy
    · exact .inl hy
    · exact .inr (.inl hy)
    · exact hx.imp_right .inl
    · exact .inr (.inr hy)
  exact ⟨fun y hy => hdrop (h.rooted y hy), fun y hy z hz => hdrop (h.closed y hy z hz),
    fun y hy => h.reached y (hy.imp_right (List.mem_cons_of_mem _))⟩

theorem Frontier.visit {x : ν} {seen' todo' : List ν} (h : Frontier next stop roots seen (x :: todo))
    (hseen : ∀ y, y ∈ seen' ↔ y = x ∨ y ∈ seen) (hkeep : ∀ y ∈ todo, y ∈ todo')
    (hnext : ∀ y ∈ next x, y ∈ seen' ∨ stop y ∨ y ∈ todo')
    (hnew : ∀ y ∈ todo', y ∈ todo ∨ y ∈ next x) : Frontier next stop roots seen' todo' := by
  have hmove {y : ν} (hy : y ∈ seen ∨ stop y ∨ y ∈ x :: todo) : y ∈ seen' ∨ stop y ∨ y ∈ todo' := by
    simp only [List.mem_cons] at hy
    rcases hy with hy | hy | rfl | hy
    · exact .inl ((hseen y).mpr (.inr hy))
    · exact .inr (.inl hy)
    · exact .inl ((hseen y).mpr (.inl rfl))
    · exact .inr (.inr (hkeep y hy))
  have hx : Reaches next roots x := h.reached x (.inr List.mem_cons_self)
  refine ⟨fun y hy => hmove (h.rooted y hy), fun y hy z hz => ?_, fun y hy => ?_⟩
  · rcases (hseen y).mp hy with rfl | hy
    · exact hnext z hz
    · exact hmove (h.closed y hy z hz)
  · rcases hy with hy | hy
    · rcases (hseen y).mp hy with rfl | hy
      · exact hx
      · exact h.reached y (.inl hy)
    · rcases hnew y hy with hy | hy
      · exact h.reached y (.inr (List.mem_cons_of_mem _ hy))
      · exact hx.step hy

theorem Frontier.complete (h : Frontier next stop roots seen []) (hleaf : ∀ z, stop z → next z = []) {y : ν}
    (hy : Reaches next roots y) : y ∈ seen ∨ stop y := by
  have hend {z : ν} (hz : z ∈ seen ∨ stop z ∨ z ∈ []) : z ∈ seen ∨ stop z :=
    hz.imp_right fun hs => hs.resolve_right List.not_mem_nil
  refine hy.within (fun x hx => hend (h.rooted x hx)) ?_
  rintro x (hx | hx) z hz
  · exact hend (h.closed x hx z hz)
  · rw [hleaf x hx] at hz
    cases hz

section

variable [DecidableEq ν]

def outstanding (next : ν → List ν) (nodes seen : List ν) : Nat :=
  ((nodes.filter fun x => x ∉ seen).map fun x => (next x).length).sum

theorem outstanding_cons_le (next : ν → List ν) (nodes seen : List ν) (x : ν) :
    outstanding next nodes (x :: seen) ≤ outstanding next nodes seen := by
  have hsub : (nodes.filter fun y => y ∉ x :: seen).Sublist (nodes.filter fun y => y ∉ seen) :=
    List.monotone_filter_right nodes fun y hy => by simp_all
  exact (hsub.map _).sum_le_sum fun _ _ => Nat.zero_le _

theorem outstanding_visit {nodes : List ν} {x : ν} (hx : x ∈ nodes ∨ next x = []) (hnew : x ∉ seen) :
    outstanding next nodes (x :: seen) + (next x).length ≤ outstanding next nodes seen := by
  rcases hx with hx | hx
  · induction nodes with
    | nil => cases hx
    | cons y nodes ih =>
      by_cases hyx : y = x
      · subst hyx
        have hle := outstanding_cons_le next nodes seen y
        simp only [outstanding] at hle ⊢
        rw [List.filter_cons_of_neg (by simp), List.filter_cons_of_pos (by simpa using hnew), List.map_cons,
          List.sum_cons]
        omega
      · have hle := ih ((List.mem_cons.mp hx).resolve_left (Ne.symm hyx))
        simp only [outstanding] at hle ⊢
        by_cases hseen : y ∈ seen
        · rwa [List.filter_cons_of_neg (by simp [hseen]), List.filter_cons_of_neg (by simp [hseen])]
        · rw [List.filter_cons_of_pos (by simp [hseen, hyx]), List.filter_cons_of_pos (by simp [hseen]),
            List.map_cons, List.map_cons, List.sum_cons, List.sum_cons]
          omega
  · rw [hx]
    exact outstanding_cons_le next nodes seen x

end

end

end Hugit
