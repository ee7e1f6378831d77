import Hugit.Rollup

/-! The checked sums of work and waste are the exact sums over two lists of
attempts, which part the envelopes between them. -/

namespace Hugit

def IsOverflow (e : RollupError) : Prop :=
  ∃ field, e = .overflow field

theorem checked_add (a b : Nat) (field : String) :
    Checked IsOverflow (add a b field) (a + b < 2 ^ 64) (a + b) :=
  ⟨fun h => if_pos h, fun h => ⟨_, ⟨field, rfl⟩, if_neg h⟩⟩

structure SpendFits (spend : WorkCost × WasteCost) : Prop where
  workTokens : spend.1.tokens < 2 ^ 64
  workToolCalls : spend.1.toolCalls < 2 ^ 64
  workCost : spend.1.costUsdMicros < 2 ^ 64
  wasteTokens : spend.2.tokensNotLanded < 2 ^ 64
  wasteCost : spend.2.costUsdMicros < 2 ^ 64

def plusWork (work : WorkCost) (env : ContextEnvelope) : WorkCost :=
  ⟨work.tokens + env.metrics.tokensTotal, work.toolCalls + env.metrics.toolCalls,
    work.costUsdMicros + env.metrics.costUsdMicros⟩

def plusWaste (waste : WasteCost) (env : ContextEnvelope) : WasteCost :=
  { waste with
    tokensNotLanded := waste.tokensNotLanded + env.metrics.tokensTotal
    costUsdMicros := waste.costUsdMicros + env.metrics.costUsdMicros }

def plusAttempt (spend : WorkCost × WasteCost) (attempt : Bool × ContextEnvelope) : WorkCost × WasteCost :=
  if attempt.1 then (plusWork spend.1 attempt.2, spend.2) else (spend.1, plusWaste spend.2 attempt.2)

theorem checked_addWork (work : WorkCost) (env : ContextEnvelope) :
    Checked IsOverflow (addWork work env)
      (work.tokens + env.metrics.tokensTotal < 2 ^ 64 ∧ work.toolCalls + env.metrics.toolCalls < 2 ^ 64 ∧
        work.costUsdMicros + env.metrics.costUsdMicros < 2 ^ 64 ∧ True) (plusWork work env) := by
  refine (checked_add _ _ _).bind ?_
  refine (checked_add _ _ _).bind ?_
  refine (checked_add _ _ _).bind ?_
  exact .ok _

theorem checked_addWaste (waste : WasteCost) (env : ContextEnvelope) :
    Checked IsOverflow (addWaste waste env)
      (waste.tokensNotLanded + env.metrics.tokensTotal < 2 ^ 64 ∧
        waste.costUsdMicros + env.metrics.costUsdMicros < 2 ^ 64 ∧ True) (plusWaste waste env) := by
  refine (checked_add _ _ _).bind ?_
  refine (checked_add _ _ _).bind ?_
  exact .ok _

theorem checked_addAttempt (spend : WorkCost × WasteCost) (attempt : Bool × ContextEnvelope)
    (hs : SpendFits spend) :
    Checked IsOverflow (addAttempt spend attempt) (SpendFits (plusAttempt spend attempt))
      (plusAttempt spend attempt) := by
  obtain ⟨isLanded, env⟩ := attempt
  cases isLanded with
  | true =>
    refine ((checked_addWork spend.1 env).bind (.ok (plusWork spend.1 env, spend.2))).congr ⟨?_, ?_⟩
    · rintro ⟨⟨ht, hc, hu, -⟩, -⟩
      exact ⟨ht, hc, hu, hs.wasteTokens, hs.wasteCost⟩
    · rintro ⟨ht, hc, hu, -, -⟩
      exact ⟨⟨ht, hc, hu, trivial⟩, trivial⟩
  | false =>
    refine ((checked_addWaste spend.2 env).bind (.ok (spend.1, plusWaste spend.2 env))).congr ⟨?_, ?_⟩
    · rintro ⟨⟨ht, hu, -⟩, -⟩
      exact ⟨hs.workTokens, hs.workToolCalls, hs.workCost, ht, hu⟩
    · rintro ⟨-, -, -, ht, hu⟩
      exact ⟨⟨ht, hu, trivial⟩, trivial⟩

variable {spend : WorkCost × WasteCost}

theorem SpendFits.of_plusAttempt {attempt : Bool × ContextEnvelope} (h : SpendFits (plusAttempt spend attempt)) :
    SpendFits spend := by
  unfold plusAttempt at h
  split_ifs at h
  · exact ⟨lt_of_le_of_lt (Nat.le_add_right _ _) h.workTokens,
      lt_of_le_of_lt (Nat.le_add_right _ _) h.workToolCalls,
      lt_of_le_of_lt (Nat.le_add_right _ _) h.workCost, h.wasteTokens, h.wasteCost⟩
  · exact ⟨h.workTokens, h.workToolCalls, h.workCost,
      lt_of_le_of_lt (Nat.le_add_right _ _) h.wasteTokens, lt_of_le_of_lt (Nat.le_add_right _ _) h.wasteCost⟩

def plusGroup (landed : List String) (spend : WorkCost × WasteCost) (attempts : Attempts) :
    WorkCost × WasteCost :=
  (markAttempts (landed.contains attempts.1) attempts.2).foldl plusAttempt
    (spend.1, countGroup (landed.contains attempts.1) attempts.2 spend.2)

theorem SpendFits.countGroup_iff {isLanded : Bool} {group : List ContextEnvelope} :
    SpendFits (spend.1, countGroup isLanded group spend.2) ↔ SpendFits spend :=
  ⟨fun h => ⟨h.1, h.2, h.3, h.4, h.5⟩, fun h => ⟨h.1, h.2, h.3, h.4, h.5⟩⟩

theorem checked_addGroup (landed : List String) (spend : WorkCost × WasteCost) (attempts : Attempts)
    (hs : SpendFits spend) :
    Checked IsOverflow (addGroup landed spend attempts) (SpendFits (plusGroup landed spend attempts))
      (plusGroup landed spend attempts) :=
  Checked.foldlM checked_addAttempt (fun _ _ => SpendFits.of_plusAttempt) _ (SpendFits.countGroup_iff.mpr hs)

theorem SpendFits.of_foldl {marked : List (Bool × ContextEnvelope)}
    (h : SpendFits (marked.foldl plusAttempt spend)) : SpendFits spend := by
  induction marked generalizing spend with
  | nil => exact h
  | cons attempt marked ih => exact (ih h).of_plusAttempt

theorem checked_spend (landed : List String) (attempts : List Attempts) (hs : SpendFits spend) :
    Checked IsOverflow (attempts.foldlM (addGroup landed) spend)
      (SpendFits (attempts.foldl (plusGroup landed) spend)) (attempts.foldl (plusGroup landed) spend) :=
  Checked.foldlM (checked_addGroup landed)
    (fun _ _ h => SpendFits.countGroup_iff.mp (SpendFits.of_foldl h)) attempts hs

/-- The attempt of every landed intent that counts as its work. -/
def workAttempts (landed : List String) (attempts : List Attempts) : List ContextEnvelope :=
  attempts.flatMap fun a => if landed.contains a.1 then (a.2[finalAttemptIdx a.2]?).toList else []

def wasteAttempts (landed : List String) (attempts : List Attempts) : List ContextEnvelope :=
  attempts.flatMap fun a => if landed.contains a.1 then a.2.eraseIdx (finalAttemptIdx a.2) else a.2

def totalOf (f : IntentMetrics → Nat) (envelopes : List ContextEnvelope) : Nat :=
  (envelopes.map fun e => f e.metrics).sum

theorem totalOf_append (f : IntentMetrics → Nat) (xs ys : List ContextEnvelope) :
    totalOf f (xs ++ ys) = totalOf f xs + totalOf f ys := by
  simp [totalOf]

theorem totalOf_perm (f : IntentMetrics → Nat) {xs ys : List ContextEnvelope} (h : xs.Perm ys) :
    totalOf f xs = totalOf f ys :=
  (h.map _).sum_eq

theorem foldl_plusAttempt (marked : List (Bool × ContextEnvelope)) (work : WorkCost) (waste : WasteCost) :
    marked.foldl plusAttempt (work, waste) =
      (⟨work.tokens + totalOf (·.tokensTotal) ((marked.filter Prod.fst).map Prod.snd),
          work.toolCalls + totalOf (·.toolCalls) ((marked.filter Prod.fst).map Prod.snd),
          work.costUsdMicros + totalOf (·.costUsdMicros) ((marked.filter Prod.fst).map Prod.snd)⟩,
        { waste with
          tokensNotLanded := waste.tokensNotLanded +
            totalOf (·.tokensTotal) ((marked.filter fun m => !m.1).map Prod.snd)
          costUsdMicros := waste.costUsdMicros +
            totalOf (·.costUsdMicros) ((marked.filter fun m => !m.1).map Prod.snd) }) := by
  induction marked generalizing work waste with
  | nil => simp [totalOf]
  | cons attempt marked ih =>
    obtain ⟨isLanded, env⟩ := attempt
    cases isLanded with
    | true =>
      rw [List.foldl_cons, plusAttempt, if_pos rfl, ih]
      simp [plusWork, totalOf, Nat.add_assoc]
    | false =>
      rw [List.foldl_cons, plusAttempt, if_neg (by simp), ih]
      simp [plusWaste, totalOf, Nat.add_assoc]

theorem zipIdx_filter_eq {α : Type} (xs : List α) (k n : Nat) :
    ((xs.zipIdx n).filter fun x => x.2 = n + k).map Prod.fst = (xs[k]?).toList := by
  induction xs generalizing k n with
  | nil => simp
  | cons x xs ih =>
    cases k with
    | zero =>
      have hnone : (xs.zipIdx (n + 1)).filter (fun y => decide (y.2 = n + 0)) = [] := by
        refine List.filter_eq_nil_iff.mpr fun y hy => ?_
        have hle := List.le_snd_of_mem_zipIdx hy
        simp
        omega
      rw [List.zipIdx_cons, List.filter_cons_of_pos (by simp), hnone]
      simp
    | succ k =>
      have hh := ih k (n + 1)
      rw [List.zipIdx_cons, List.filter_cons_of_neg (by simp), List.getElem?_cons_succ, ← hh]
      congr 2
      funext y
      rw [show n + (k + 1) = n + 1 + k by omega]

theorem zipIdx_filter_ne {α : Type} (xs : List α) (k n : Nat) :
    ((xs.zipIdx n).filter fun x => x.2 ≠ n + k).map Prod.fst = xs.eraseIdx k := by
  induction xs generalizing k n with
  | nil => simp
  | cons x xs ih =>
    cases k with
    | zero =>
      have hall : (xs.zipIdx (n + 1)).filter (fun y => decide (y.2 ≠ n + 0)) = xs.zipIdx (n + 1) := by
        refine List.filter_eq_self.mpr fun y hy => ?_
        have hle := List.le_snd_of_mem_zipIdx hy
        simp
        omega
      rw [List.zipIdx_cons, List.filter_cons_of_neg (by simp), hall]
      simp
    | succ k =>
      have hh := ih k (n + 1)
      rw [List.zipIdx_cons, List.filter_cons_of_pos (by simp), List.eraseIdx_cons_succ, ← hh, List.map_cons]
      congr 3
      funext y
      rw [show n + (k + 1) = n + 1 + k by omega]

theorem markAttempts_work (isLanded : Bool) (group : List ContextEnvelope) :
    ((markAttempts isLanded group).filter Prod.fst).map Prod.snd =
      if isLanded then (group[finalAttemptIdx group]?).toList else [] := by
  rw [markAttempts, List.filter_map, List.map_map]
  cases isLanded with
  | true =>
    have hh := zipIdx_filter_eq group (finalAttemptIdx group) 0
    rw [Nat.zero_add] at hh
    simpa [Function.comp_def] using hh
  | false => simp [Function.comp_def]

theorem markAttempts_waste (isLanded : Bool) (group : List ContextEnvelope) :
    ((markAttempts isLanded group).filter fun m => !m.1).map Prod.snd =
      if isLanded then group.eraseIdx (finalAttemptIdx group) else group := by
  rw [markAttempts, List.filter_map, List.map_map]
  cases isLanded with
  | true =>
    have hh := zipIdx_filter_ne group (finalAttemptIdx group) 0
    rw [Nat.zero_add] at hh
    simpa [Function.comp_def] using hh
  | false => simp [Function.comp_def]

def discardedIntents (landed : List String) (attempts : List Attempts) : Nat :=
  (attempts.filter fun a => !landed.contains a.1).length

def retriedAgents (attempts : List Attempts) : Nat :=
  (attempts.map fun a => a.2.length - 1).sum

theorem foldl_plusGroup (landed : List String) (attempts : List Attempts) (work : WorkCost)
    (waste : WasteCost) :
    attempts.foldl (plusGroup landed) (work, waste) =
      (⟨work.tokens + totalOf (·.tokensTotal) (workAttempts landed attempts),
          work.toolCalls + totalOf (·.toolCalls) (workAttempts landed attempts),
          work.costUsdMicros + totalOf (·.costUsdMicros) (workAttempts landed attempts)⟩,
        ⟨waste.discardedIntents + discardedIntents landed attempts, waste.retriedAgents + retriedAgents attempts,
          waste.tokensNotLanded + totalOf (·.tokensTotal) (wasteAttempts landed attempts),
          waste.costUsdMicros + totalOf (·.costUsdMicros) (wasteAttempts landed attempts)⟩) := by
  induction attempts generalizing work waste with
  | nil => simp [workAttempts, wasteAttempts, discardedIntents, retriedAgents, totalOf]
  | cons a attempts ih =>
    rw [List.foldl_cons, plusGroup, foldl_plusAttempt, ih, markAttempts_work, markAttempts_waste]
    simp only [workAttempts, wasteAttempts, List.flatMap_cons, totalOf_append, ← Nat.add_assoc]
    by_cases hl : a.1 ∈ landed
    · simp [countGroup, discardedIntents, retriedAgents, hl, Nat.add_assoc]
    · simp [countGroup, discardedIntents, retriedAgents, hl, Nat.add_assoc, Nat.add_comm 1]

theorem finalAttemptFrom_lt {group envs : List ContextEnvelope} {best i : Nat} (hb : best < group.length)
    (hi : i + envs.length ≤ group.length) : finalAttemptFrom group best i envs < group.length := by
  induction envs generalizing best i with
  | nil => exact hb
  | cons env envs ih =>
    rw [List.length_cons] at hi
    refine ih ?_ (by omega)
    split_ifs
    · omega
    · exact hb

theorem finalAttemptIdx_lt {group : List ContextEnvelope} (hne : group ≠ []) :
    finalAttemptIdx group < group.length :=
  finalAttemptFrom_lt (List.length_pos_iff.mpr hne) (by simp)

theorem pushAttempt_perm (env : ContextEnvelope) (groups : List Attempts) :
    ((pushAttempt env groups).flatMap Prod.snd).Perm (env :: groups.flatMap Prod.snd) := by
  induction groups with
  | nil => simp [pushAttempt]
  | cons a groups ih =>
    obtain ⟨id, group⟩ := a
    rw [pushAttempt]
    split_ifs
    · rw [List.flatMap_cons, List.flatMap_cons, List.append_assoc]
      exact List.perm_middle
    · rw [List.flatMap_cons, List.flatMap_cons]
      exact (ih.append_left group).trans List.perm_middle

theorem pushAttempt_ids (env : ContextEnvelope) (groups : List Attempts) :
    (pushAttempt env groups).map Prod.fst =
      if env.intentId ∈ groups.map Prod.fst then groups.map Prod.fst else groups.map Prod.fst ++ [env.intentId] := by
  induction groups with
  | nil => rfl
  | cons a groups ih =>
    obtain ⟨id, group⟩ := a
    rw [pushAttempt]
    by_cases hid : id = env.intentId
    · simp [hid]
    · rw [if_neg hid, List.map_cons, ih]
      by_cases hmem : env.intentId ∈ groups.map Prod.fst
      · simp [hmem]
      · simp [hmem, Ne.symm hid]

theorem pushAttempt_group {env : ContextEnvelope} {groups : List Attempts} {envelopes : List ContextEnvelope}
    (hnd : (groups.map Prod.fst).Nodup)
    (hgroup : ∀ a ∈ groups, a.2 = envelopes.filter fun e => e.intentId = a.1)
    (hnew : env.intentId ∉ groups.map Prod.fst → (envelopes.filter fun e => e.intentId = env.intentId) = []) :
    ∀ a ∈ pushAttempt env groups, a.2 = (envelopes ++ [env]).filter fun e => e.intentId = a.1 := by
  induction groups with
  | nil =>
    intro a ha
    obtain rfl := List.mem_singleton.mp ha
    simp [hnew (by simp)]
  | cons b groups ih =>
    obtain ⟨id, group⟩ := b
    obtain ⟨hid, hnd⟩ := List.nodup_cons.mp hnd
    have hhead : group = envelopes.filter fun e => e.intentId = id := hgroup (id, group) (by simp)
    rw [pushAttempt]
    split_ifs with heq
    · intro a ha
      rcases List.mem_cons.mp ha with rfl | ha
      · simp [hhead, heq]
      · have hne : env.intentId ≠ a.1 := fun he => hid (List.mem_map.mpr ⟨a, ha, (heq.trans he).symm⟩)
        simp [hgroup a (List.mem_cons_of_mem _ ha), hne]
    · intro a ha
      rcases List.mem_cons.mp ha with rfl | ha
      · simp [hhead, Ne.symm heq]
      · refine ih hnd (fun a ha => hgroup a (List.mem_cons_of_mem _ ha)) (fun hm => hnew ?_) a ha
        simpa [Ne.symm heq] using hm

theorem groupAttempts_group (envelopes : List ContextEnvelope) :
    ((groupAttempts envelopes).map Prod.fst).Nodup ∧
      (∀ id, id ∈ (groupAttempts envelopes).map Prod.fst ↔ ∃ e ∈ envelopes, e.intentId = id) ∧
      ∀ a ∈ groupAttempts envelopes, a.2 = envelopes.filter fun e => e.intentId = a.1 := by
  induction envelopes using List.reverseRecOn with
  | nil => simp [groupAttempts]
  | append_singleton envelopes env ih =>
    obtain ⟨hnd, hids, hgroup⟩ := ih
    have hpush : groupAttempts (envelopes ++ [env]) = pushAttempt env (groupAttempts envelopes) := by
      simp [groupAttempts]
    rw [hpush, pushAttempt_ids]
    refine ⟨?_, fun id => ?_, pushAttempt_group hnd hgroup fun hm => ?_⟩
    · split_ifs with hm
      · exact hnd
      · exact List.nodup_append.mpr ⟨hnd, List.nodup_singleton _, by simpa using fun a ha => ne_of_mem_of_not_mem ha hm⟩
    · by_cases hm : env.intentId ∈ (groupAttempts envelopes).map Prod.fst
      · rw [if_pos hm, hids]
        obtain ⟨e, he, heq⟩ := (hids _).mp hm
        constructor
        · rintro ⟨e, he, rfl⟩
          exact ⟨e, by simp [he], rfl⟩
        · rintro ⟨e', he', rfl⟩
          rcases List.mem_append.mp he' with he' | he'
          · exact ⟨e', he', rfl⟩
          · obtain rfl := List.mem_singleton.mp he'
            exact ⟨e, he, heq⟩
      · rw [if_neg hm, List.mem_append, hids, List.mem_singleton]
        simp [or_and_right, exists_or, eq_comm]
    · refine List.filter_eq_nil_iff.mpr fun e he heq => hm ((hids _).mpr ⟨e, he, by simpa using heq⟩)

theorem groupAttempts_ne_nil (envelopes : List ContextEnvelope) : ∀ a ∈ groupAttempts envelopes, a.2 ≠ [] := by
  intro a ha hnil
  obtain ⟨-, hids, hgroup⟩ := groupAttempts_group envelopes
  obtain ⟨e, he, hid⟩ := (hids a.1).mp (List.mem_map_of_mem ha)
  rw [hgroup a ha, List.filter_eq_nil_iff] at hnil
  exact hnil e he (decide_eq_true hid)

theorem groupAttempts_perm (envelopes : List ContextEnvelope) :
    ((groupAttempts envelopes).flatMap Prod.snd).Perm envelopes := by
  induction envelopes using List.reverseRecOn with
  | nil => exact .refl _
  | append_singleton envelopes env ih =>
    have hpush : groupAttempts (envelopes ++ [env]) = pushAttempt env (groupAttempts envelopes) := by
      simp [groupAttempts]
    rw [hpush]
    exact (pushAttempt_perm env _).trans ((ih.cons env).trans (List.perm_append_singleton env envelopes).symm)

theorem attempts_perm (landed : List String) (envelopes : List ContextEnvelope) :
    (workAttempts landed (groupAttempts envelopes) ++
      wasteAttempts landed (groupAttempts envelopes)).Perm envelopes := by
  refine List.Perm.trans ?_ (groupAttempts_perm envelopes)
  refine (List.flatMap_append_perm _ _ _).trans (List.Perm.flatMap_left _ fun a ha => ?_)
  split_ifs
  · have hlt := finalAttemptIdx_lt (groupAttempts_ne_nil envelopes a ha)
    rw [List.getElem?_eq_getElem hlt]
    exact List.getElem_cons_eraseIdx_perm hlt
  · exact List.Perm.refl _

end Hugit
