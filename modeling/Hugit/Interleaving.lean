import Mathlib.Tactic

/-! Threads that share one state and take their steps in any order. An invariant
of all of them is proved thread by thread: a step keeps the claim of the thread
that takes it and disturbs no other. -/

namespace Hugit

structure System (σ τ : Type*) where
  shared : σ
  threads : List τ

section

variable {σ τ : Type*} (spawn : τ → Prop) (env : σ → σ → Prop) (act : Nat → σ → τ → σ → τ → Prop)

inductive System.Step : System σ τ → System σ τ → Prop
  | spawn {s : System σ τ} {t : τ} (ht : spawn t) : Step s ⟨s.shared, s.threads ++ [t]⟩
  | env {s : System σ τ} {shared : σ} (h : env s.shared shared) : Step s ⟨shared, s.threads⟩
  | act {s : System σ τ} {i : Nat} {t t' : τ} {shared : σ} (hi : s.threads[i]? = some t)
      (h : act i s.shared t shared t') : Step s ⟨shared, s.threads.set i t'⟩

abbrev System.Reachable : System σ τ → System σ τ → Prop :=
  Relation.ReflTransGen (System.Step spawn env act)

/-- A claim about the shared state and the number of threads, and a claim about
each thread. -/
def System.Holds (G : Nat → σ → Prop) (P : Nat → σ → τ → Prop) (s : System σ τ) : Prop :=
  G s.threads.length s.shared ∧ ∀ i t, s.threads[i]? = some t → P i s.shared t

end

section

variable {σ τ : Type*} {spawn : τ → Prop} {env : σ → σ → Prop} {act : Nat → σ → τ → σ → τ → Prop}
  {G : Nat → σ → Prop} {P : Nat → σ → τ → Prop}

theorem getElem?_concat_cases {ts : List τ} {t u : τ} {j : Nat} (h : (ts ++ [t])[j]? = some u) :
    ts[j]? = some u ∨ (j = ts.length ∧ u = t) := by
  rcases Nat.lt_trichotomy j ts.length with hj | rfl | hj
  · exact .inl (by rwa [List.getElem?_append_left hj] at h)
  · exact .inr ⟨rfl, by simpa [eq_comm] using h⟩
  · rw [List.getElem?_eq_none (by simpa using hj)] at h
    cases h

theorem getElem?_set_cases {ts : List τ} {t u : τ} {i j : Nat} (h : (ts.set i t)[j]? = some u) :
    (j = i ∧ u = t) ∨ (j ≠ i ∧ ts[j]? = some u) := by
  rcases eq_or_ne i j with rfl | hij
  · rw [List.getElem?_set_self'] at h
    cases hi : ts[i]? with
    | none => simp [hi] at h
    | some v => exact .inl ⟨rfl, by simpa [hi, eq_comm] using h⟩
  · exact .inr ⟨hij.symm, by rwa [List.getElem?_set_ne hij] at h⟩

section

variable (hspawn : ∀ n s t, G n s → spawn t → G (n + 1) s ∧ P n s t)
  (henv : ∀ n s s', G n s → env s s' → G n s' ∧ ∀ i t, P i s t → P i s' t)
  (hact : ∀ n i s t s' t', G n s → i < n → P i s t → act i s t s' t' →
    G n s' ∧ P i s' t' ∧ ∀ j u, j ≠ i → P j s u → P j s' u)

include hspawn henv hact

theorem System.Step.holds {s s' : System σ τ} (h : System.Step spawn env act s s') (hs : s.Holds G P) : s'.Holds G P := by
  obtain ⟨hg, hp⟩ := hs
  cases h with
  | spawn ht =>
    obtain ⟨hg', hp'⟩ := hspawn _ _ _ hg ht
    refine ⟨by simpa using hg', fun j u hj => ?_⟩
    rcases getElem?_concat_cases hj with hj | ⟨rfl, rfl⟩
    · exact hp j u hj
    · exact hp'
  | env he =>
    obtain ⟨hg', hp'⟩ := henv _ _ _ hg he
    exact ⟨hg', fun j u hj => hp' j u (hp j u hj)⟩
  | act hi ha =>
    obtain ⟨hlt, _⟩ := List.getElem?_eq_some_iff.mp hi
    obtain ⟨hg', hown, hother⟩ := hact _ _ _ _ _ _ hg hlt (hp _ _ hi) ha
    refine ⟨by simpa using hg', fun j u hj => ?_⟩
    rcases getElem?_set_cases hj with ⟨rfl, rfl⟩ | ⟨hne, hj⟩
    · exact hown
    · exact hother j u hne (hp j u hj)

theorem System.Reachable.holds {s s' : System σ τ} (h : System.Reachable spawn env act s s') (hs : s.Holds G P) : s'.Holds G P := by
  induction h with
  | refl => exact hs
  | tail _ hstep ih => exact hstep.holds hspawn henv hact ih

end

theorem countP_set_add {p : τ → Bool} {ts : List τ} {i : Nat} {t : τ} (hi : ts[i]? = some t) (t' : τ) :
    (ts.set i t').countP p + (p t).toNat = ts.countP p + (p t').toNat := by
  obtain ⟨hlt, hget⟩ := List.getElem?_eq_some_iff.mp hi
  have hite (b : Bool) : (if b = true then 1 else 0) = b.toNat := by cases b <;> rfl
  have hle : (p t).toNat ≤ ts.countP p := by
    cases ht : p t with
    | false => exact Nat.zero_le _
    | true => exact List.countP_pos_iff.mpr ⟨t, hget ▸ List.getElem_mem hlt, ht⟩
  rw [List.countP_set hlt, hget, hite, hite]
  omega

theorem System.Reachable.count {count : σ → Nat} {counted : τ → Bool}
    (hspawn : ∀ t, spawn t → counted t = false)
    (henv : ∀ s s', env s s' → count s' = count s)
    (hact : ∀ i s t s' t', (counted t = true → 0 < count s) → act i s t s' t' →
      count s' + (counted t).toNat = count s + (counted t').toNat)
    {s s' : System σ τ} (h : System.Reachable spawn env act s s')
    (hs : count s.shared = s.threads.countP counted) : count s'.shared = s'.threads.countP counted := by
  induction h with
  | refl => exact hs
  | @tail m _ _ hstep ih =>
    cases hstep with
    | spawn ht => simp [ih, hspawn _ ht]
    | env he => rw [henv _ _ he, ih]
    | @act i t t' shared hi ha =>
      have hpos (ht : counted t = true) : 0 < count m.shared :=
        ih ▸ List.countP_pos_iff.mpr ⟨t, List.mem_of_getElem? hi, ht⟩
      have hmove := hact i m.shared t shared t' hpos ha
      have hset := @countP_set_add _ counted _ _ _ hi t'
      have hgoal : count shared = (m.threads.set i t').countP counted := by omega
      exact hgoal

end

end Hugit
