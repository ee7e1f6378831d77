import Hugit.Text

/-! What a repeated search finds, and how it and the splitting of a text bear a
longer text. -/

namespace Hugit

theorem eq_of_mem_occurrencesFrom {needle text before b a : List Char} {skip : Nat}
    (h : (b, a) ∈ occurrencesFrom needle skip before text) :
    ∃ mid, b = mid.reverse ++ before ∧ text = mid ++ (needle ++ a) := by
  induction text generalizing skip before with
  | nil => cases skip <;> simp [occurrencesFrom] at h
  | cons c text ih =>
    have hlater {skip : Nat} (h : (b, a) ∈ occurrencesFrom needle skip (c :: before) text) :
        ∃ mid, b = mid.reverse ++ before ∧ c :: text = mid ++ (needle ++ a) := by
      obtain ⟨mid, rfl, rfl⟩ := ih h
      exact ⟨c :: mid, by simp, rfl⟩
    cases skip with
    | succ skip => exact hlater h
    | zero =>
      cases hs : stripPrefix needle (c :: text) with
      | none =>
        rw [occurrencesFrom, hs] at h
        exact hlater h
      | some after =>
        rw [occurrencesFrom, hs] at h
        rcases List.mem_cons.mp h with he | h
        · obtain ⟨rfl, rfl⟩ := Prod.mk.inj he
          have htext := stripPrefix_eq_some.mp hs
          exact ⟨[], rfl, htext⟩
        · exact hlater h

/-- No proper end of the needle is also a beginning of it, so its occurrences
never overlap. -/
def Borderless (needle : List Char) : Prop :=
  ∀ k < needle.length, 0 < k → ¬ needle.drop k <+: needle

instance : DecidablePred Borderless := fun needle =>
  inferInstanceAs (Decidable (∀ k < needle.length, 0 < k → ¬ needle.drop k <+: needle))

theorem Borderless.length_le {needle mid a after : List Char} (hn : Borderless needle) (hm : mid ≠ [])
    (h : mid ++ (needle ++ a) = needle ++ after) : needle.length ≤ mid.length := by
  by_contra hlt
  push Not at hlt
  have hdrop : needle ++ a = needle.drop mid.length ++ after := by
    rw [← List.drop_append_of_le_length hlt.le, ← h, List.drop_left]
  have hstart : needle.drop mid.length <+: needle ++ a := ⟨after, hdrop.symm⟩
  have hborder : needle.drop mid.length <+: needle :=
    List.prefix_of_prefix_length_le hstart (List.prefix_append needle a) (List.drop_sublist _ _).length_le
  exact hn mid.length hlt (List.length_pos_of_ne_nil hm) hborder

theorem Borderless.mem_occurrencesFrom {needle mid before a : List Char} {skip : Nat} (hn : Borderless needle)
    (hne : needle ≠ []) (hs : skip ≤ mid.length) :
    (mid.reverse ++ before, a) ∈ occurrencesFrom needle skip before (mid ++ (needle ++ a)) := by
  induction mid generalizing skip before with
  | nil =>
    obtain rfl : skip = 0 := Nat.le_zero.mp hs
    obtain ⟨c, cs, rfl⟩ := List.exists_cons_of_ne_nil hne
    have hstrip : stripPrefix (c :: cs) (c :: (cs ++ a)) = some a := stripPrefix_append (c :: cs) a
    simp [occurrencesFrom, hstrip]
  | cons c mid ih =>
    rw [List.reverse_cons, List.append_assoc, List.cons_append, List.singleton_append]
    cases skip with
    | succ skip => exact ih (Nat.le_of_succ_le_succ hs)
    | zero =>
      cases hstrip : stripPrefix needle (c :: (mid ++ (needle ++ a))) with
      | none =>
        rw [occurrencesFrom, hstrip]
        exact ih (Nat.zero_le _)
      | some after =>
        -- the search steps over what it found, which ends before the next one begins
        have hlen := hn.length_le (List.cons_ne_nil c mid) (stripPrefix_eq_some.mp hstrip)
        rw [List.length_cons] at hlen
        rw [occurrencesFrom, hstrip]
        exact List.mem_cons_of_mem _ (ih (by omega))

theorem Borderless.mem_occurrences_append {needle text b a : List Char} (hn : Borderless needle)
    (hne : needle ≠ []) (h : (b, a) ∈ occurrences needle text) (pre post : List Char) :
    (b ++ pre.reverse, a ++ post) ∈ occurrences needle (pre ++ (text ++ post)) := by
  obtain ⟨mid, rfl, rfl⟩ := eq_of_mem_occurrencesFrom h
  have hh : ((pre ++ mid).reverse ++ [], a ++ post) ∈
      occurrences needle ((pre ++ mid) ++ (needle ++ (a ++ post))) :=
    hn.mem_occurrencesFrom hne (Nat.zero_le _)
  simpa using hh

theorem splitOnce_eq_some {sep : Char} {text x y : List Char} (h : splitOnce sep text = some (x, y)) :
    text = x ++ sep :: y := by
  induction text generalizing x with
  | nil => cases h
  | cons c text ih =>
    rw [splitOnce] at h
    split_ifs at h with hc
    · cases h
      rw [hc, List.nil_append]
    · obtain ⟨p, hp, he⟩ := Option.map_eq_some_iff.mp h
      obtain ⟨rfl, rfl⟩ := Prod.mk.inj he
      rw [ih hp, List.cons_append]

theorem splitOnce_append_right {sep : Char} {text x y : List Char} (h : splitOnce sep text = some (x, y))
    (rest : List Char) : splitOnce sep (text ++ rest) = some (x, y ++ rest) := by
  induction text generalizing x with
  | nil => cases h
  | cons c text ih =>
    rw [splitOnce] at h
    rw [List.cons_append, splitOnce]
    split_ifs at h ⊢ with hc
    · cases h
      rfl
    · obtain ⟨p, hp, he⟩ := Option.map_eq_some_iff.mp h
      obtain ⟨rfl, rfl⟩ := Prod.mk.inj he
      rw [ih hp]
      rfl

theorem takeWhile_append_cons {α : Type*} {p : α → Bool} {c : α} (hc : p c = false) (as bs : List α) :
    (as ++ c :: bs).takeWhile p = as.takeWhile p := by
  induction as with
  | nil => simp [hc]
  | cons a as ih => simp [List.takeWhile_cons, ih]

end Hugit
