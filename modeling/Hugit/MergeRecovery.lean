import Hugit.MergeDriver

/-! Replaying the merges of a landed batch after a crash. The land log says which
entries were confirmed; the merge API applies each entry at most once. -/

namespace Hugit

def addOnce (ids : List String) (id : String) : List String :=
  if id ∈ ids then ids else ids ++ [id]

@[simp] theorem mem_addOnce {ids : List String} {id x : String} :
    x ∈ addOnce ids id ↔ x ∈ ids ∨ x = id := by
  unfold addOnce
  split_ifs with h
  · exact ⟨.inl, fun hx => hx.elim (fun hx => hx) fun he => he ▸ h⟩
  · simp

theorem foldl_addOnce_of_subset {ids l : List String} (h : ∀ x ∈ ids, x ∈ l) :
    ids.foldl addOnce l = l := by
  induction ids with
  | nil => rfl
  | cons id ids ih =>
    obtain ⟨hid, hids⟩ := List.forall_mem_cons.mp h
    rw [List.foldl_cons, addOnce, if_pos hid, ih hids]

theorem mem_foldl_addOnce (ids l : List String) {x : String} :
    x ∈ ids.foldl addOnce l ↔ x ∈ l ∨ x ∈ ids := by
  induction ids generalizing l with
  | nil => simp
  | cons id ids ih => simp [ih, or_assoc]

theorem foldl_addOnce_append (ids l : List String) :
    ∃ added, ids.foldl addOnce l = l ++ added ∧ added.Sublist ids ∧ added.Nodup ∧
      ∀ x ∈ added, x ∉ l := by
  induction ids generalizing l with
  | nil => exact ⟨[], by simp⟩
  | cons id ids ih =>
    rw [List.foldl_cons, addOnce]
    split_ifs with hid
    · obtain ⟨added, he, hs, hn, hnew⟩ := ih l
      exact ⟨added, he, hs.cons _, hn, hnew⟩
    · obtain ⟨added, he, hs, hn, hnew⟩ := ih (l ++ [id])
      refine ⟨id :: added, by rw [he]; simp, hs.cons_cons _, ?_, ?_⟩
      · exact List.nodup_cons.mpr ⟨fun hm => hnew id hm (by simp), hn⟩
      · simp only [List.forall_mem_cons]
        exact ⟨hid, fun x hx hl => hnew x hx (List.mem_append_left _ hl)⟩

structure LandLog where
  merged : List String
  deriving DecidableEq

def LandLog.isMerged (log : LandLog) (id : String) : Bool :=
  id ∈ log.merged

def LandLog.markMerged (log : LandLog) (id : String) : LandLog :=
  ⟨addOnce log.merged id⟩

structure RecoveryOutcome where
  alreadyMerged : List String
  newlyMerged : List String
  deriving DecidableEq

def RecoveryOutcome.allMerged (o : RecoveryOutcome) : List String :=
  (o.alreadyMerged ++ o.newlyMerged).dedup.insertionSort (· ≤ ·)

@[simp] theorem RecoveryOutcome.mem_allMerged {o : RecoveryOutcome} {id : String} :
    id ∈ o.allMerged ↔ id ∈ o.alreadyMerged ∨ id ∈ o.newlyMerged := by
  simp [allMerged]

namespace MergeSeam

section

variable {α : Type} (seam : MergeSeam α)

def replayEach : List String → LandLog → α → Except MergeError RecoveryOutcome × LandLog × α
  | [], log, a => (.ok ⟨[], []⟩, log, a)
  | id :: rest, log, a =>
    if log.isMerged id then
      let run := replayEach rest log a
      (run.1.map fun o => { o with alreadyMerged := id :: o.alreadyMerged }, run.2)
    else
      let answer := seam.merge (seam.record id) a
      match answer.1 with
      | .error e => (.error e, log, answer.2)
      | .ok _ =>
        let run := replayEach rest (log.markMerged id) answer.2
        (run.1.map fun o => { o with newlyMerged := id :: o.newlyMerged }, run.2)

def recoverAndReplay (batch : Batch) (outcomes : List (String × UnionOutcome)) (log : LandLog) (a : α) :
    Except MergeError RecoveryOutcome × Batch × LandLog × α :=
  let landing := landInOrder batch outcomes
  match landing.1 with
  | .error e => (.error (.engine e), landing.2, log, a)
  | .ok _ =>
    let run := seam.replayEach (landedInOrder landing.2) log a
    (run.1, landing.2, run.2)

/-- What the log and the world may be when the loop over the ids stops, for any
reason: the process dies before or after a merge or a mark, the API answers with
an error, or the loop ends. -/
inductive Interrupted : List String → LandLog × α → LandLog × α → Prop
  | stop (ids : List String) (s : LandLog × α) : Interrupted ids s s
  | skip {id : String} {rest : List String} {s s' : LandLog × α} (h : s.1.isMerged id = true)
    (tail : Interrupted rest s s') : Interrupted (id :: rest) s s'
  | merged {id : String} {rest : List String} {s : LandLog × α} (h : s.1.isMerged id = false) :
    Interrupted (id :: rest) s (s.1, (seam.merge (seam.record id) s.2).2)
  | marked {id : String} {rest : List String} {s s' : LandLog × α} (h : s.1.isMerged id = false)
    (hok : (seam.merge (seam.record id) s.2).1 = .ok ())
    (tail : Interrupted rest (s.1.markMerged id, (seam.merge (seam.record id) s.2).2) s') :
    Interrupted (id :: rest) s s'

/-- The merges that took effect are a set: a merge of an entry that is in it
changes nothing, a failed one may have taken effect or not. -/
structure Idempotent (effects : α → List String) : Prop where
  ok : ∀ r a, (seam.merge r a).1 = .ok () →
    effects (seam.merge r a).2 = addOnce (effects a) r.itemId
  error : ∀ r a e, (seam.merge r a).1 = .error e →
    effects (seam.merge r a).2 = effects a ∨ effects (seam.merge r a).2 = addOnce (effects a) r.itemId

end

section

variable {α : Type} {seam : MergeSeam α} {effects : α → List String} {landed base : List String}

theorem replayEach_interrupted (seam : MergeSeam α) (ids : List String) (log : LandLog) (a : α) :
    seam.Interrupted ids (log, a) (seam.replayEach ids log a).2 := by
  induction ids generalizing log a with
  | nil => exact .stop _ _
  | cons id rest ih =>
    simp only [replayEach]
    cases hlog : log.isMerged id with
    | true => exact .skip hlog (ih log a)
    | false =>
      cases hans : (seam.merge (seam.record id) a).1 with
      | error e => exact .merged hlog
      | ok _ => exact .marked hlog hans (ih _ _)

variable {log : LandLog} {o : RecoveryOutcome}

theorem replayEach_cons_ok {id : String} {rest : List String} {a : α}
    (h : (seam.replayEach (id :: rest) log a).1 = .ok o) :
    ∃ log' a' o', (seam.replayEach rest log' a').1 = .ok o' ∧ id ∈ log'.merged ∧
      (seam.replayEach (id :: rest) log a).2 = (seam.replayEach rest log' a').2 ∧
      ∀ x, (x ∈ o.alreadyMerged ∨ x ∈ o.newlyMerged) ↔ x = id ∨ x ∈ o'.alreadyMerged ∨ x ∈ o'.newlyMerged := by
  simp only [replayEach] at h ⊢
  split_ifs at h ⊢ with hlog
  · cases hrun : (seam.replayEach rest log a).1 with
    | error e => simp [hrun, Except.map] at h
    | ok o' =>
      simp only [hrun, Except.map, Except.ok.injEq] at h
      exact ⟨log, a, o', hrun, of_decide_eq_true hlog, rfl, fun x => by simp [← h, or_assoc]⟩
  · cases hans : (seam.merge (seam.record id) a).1 with
    | error e => simp [hans] at h
    | ok _ =>
      cases hrun : (seam.replayEach rest (log.markMerged id) (seam.merge (seam.record id) a).2).1 with
      | error e => simp [hans, hrun, Except.map] at h
      | ok o' =>
        simp only [hans, hrun, Except.map, Except.ok.injEq] at h
        exact ⟨_, _, o', hrun, mem_addOnce.mpr (.inr rfl), rfl, fun x => by simp [← h, or_left_comm]⟩

variable {ids : List String}

theorem replayEach_ok {a : α} (h : (seam.replayEach ids log a).1 = .ok o) (x : String) :
    (x ∈ o.alreadyMerged ∨ x ∈ o.newlyMerged) ↔ x ∈ ids := by
  induction ids generalizing log a o with
  | nil =>
    obtain ⟨rfl⟩ := h
    simp
  | cons id rest ih =>
    obtain ⟨log', a', o', hrun, -, -, hmem⟩ := replayEach_cons_ok h
    rw [hmem, ih hrun, List.mem_cons]

theorem replayEach_log (seam : MergeSeam α) (ids : List String) (log : LandLog) (a : α) {x : String}
    (h : x ∈ log.merged) : x ∈ (seam.replayEach ids log a).2.1.merged := by
  induction ids generalizing log a with
  | nil => exact h
  | cons id rest ih =>
    simp only [replayEach]
    split_ifs with hlog
    · exact ih log a h
    · cases hans : (seam.merge (seam.record id) a).1 with
      | error e => exact h
      | ok _ => exact ih _ _ (mem_addOnce.mpr (.inl h))

theorem replayEach_ok_log {a : α} (h : (seam.replayEach ids log a).1 = .ok o) :
    ∀ x ∈ ids, x ∈ (seam.replayEach ids log a).2.1.merged := by
  induction ids generalizing log a o with
  | nil => simp
  | cons id rest ih =>
    obtain ⟨log', a', o', hrun, hid, hlog, -⟩ := replayEach_cons_ok h
    rw [hlog]
    exact List.forall_mem_cons.mpr ⟨seam.replayEach_log rest log' a' hid, ih hrun⟩

/-- The effects are those of a first part of the landed ids, and the log names
no landed id that did not take effect. -/
structure Replaying (effects : α → List String) (landed base : List String) (s : LandLog × α) :
    Prop where
  order : ∃ k, effects s.2 = (landed.take k).foldl addOnce base
  confirmed : ∀ id ∈ landed, id ∈ s.1.merged → id ∈ effects s.2

theorem Replaying.addOnce {s : LandLog × α} {a' : α} {pre post : List String} {id : String}
    (h : Replaying effects landed base s) (hsplit : landed = pre ++ id :: post)
    (hpre : ∀ x ∈ pre, x ∈ effects s.2) (ha : effects a' = addOnce (effects s.2) id) :
    ∃ k, effects a' = (landed.take k).foldl Hugit.addOnce base := by
  obtain ⟨k, hk⟩ := h.order
  by_cases hid : id ∈ effects s.2
  · exact ⟨k, by rw [ha, Hugit.addOnce, if_pos hid, hk]⟩
  · have hle : k ≤ pre.length := by
      by_contra hlt
      apply hid
      rw [hk, mem_foldl_addOnce, hsplit]
      right
      rw [List.mem_take_iff_getElem]
      exact ⟨pre.length, by simp; omega, by simp⟩
    refine ⟨pre.length + 1, ?_⟩
    have htake : landed.take (pre.length + 1) = pre ++ [id] := by simp [hsplit, List.take_append]
    have hmid : pre.foldl Hugit.addOnce base = effects s.2 := by
      have hpart : pre = landed.take k ++ pre.drop k := by
        rw [hsplit, List.take_append_of_le_length hle, List.take_append_drop]
      rw [hpart, List.foldl_append, ← hk]
      exact foldl_addOnce_of_subset fun x hx => hpre x (List.mem_of_mem_drop hx)
    rw [htake, List.foldl_append, hmid, ha, List.foldl_cons, List.foldl_nil]

theorem Idempotent.cases (h : seam.Idempotent effects) (r : MergeRecord) (a : α) :
    effects (seam.merge r a).2 = effects a ∨
      effects (seam.merge r a).2 = Hugit.addOnce (effects a) r.itemId := by
  cases hans : (seam.merge r a).1 with
  | error e => exact h.error r a e hans
  | ok _ => exact .inr (h.ok r a hans)

theorem Interrupted.replaying (hid : seam.Idempotent effects) {s s' : LandLog × α} (h : seam.Interrupted ids s s')
    {pre : List String} (hsplit : landed = pre ++ ids) (hpre : ∀ x ∈ pre, x ∈ effects s.2)
    (hs : Replaying effects landed base s) : Replaying effects landed base s' := by
  induction h generalizing pre with
  | stop => exact hs
  | @skip id rest s s' hlog _ ih =>
    have hin : id ∈ effects s.2 := hs.confirmed id (by simp [hsplit]) (of_decide_eq_true hlog)
    have hsplit' : landed = (pre ++ [id]) ++ rest := by simp [hsplit]
    exact ih hsplit' (List.forall_mem_append.mpr ⟨hpre, by simpa using hin⟩) hs
  | @merged id rest s hlog =>
    rcases hid.cases (seam.record id) s.2 with heq | hadd
    · exact ⟨by rw [heq]; exact hs.order, by simpa only [heq] using hs.confirmed⟩
    · refine ⟨hs.addOnce hsplit hpre hadd, fun x hx hm => ?_⟩
      rw [hadd]
      exact mem_addOnce.mpr (.inl (hs.confirmed x hx hm))
  | @marked id rest s s' hlog hok _ ih =>
    have hadd := hid.ok _ _ hok
    have hsplit' : landed = (pre ++ [id]) ++ rest := by simp [hsplit]
    refine ih hsplit' ?_ ⟨hs.addOnce hsplit hpre hadd, fun x hx hm => ?_⟩
    · rw [hadd]
      refine List.forall_mem_append.mpr ⟨fun x hx => mem_addOnce.mpr (.inl (hpre x hx)), ?_⟩
      simp [record]
    · rw [hadd]
      rcases mem_addOnce.mp hm with hm | rfl
      · exact mem_addOnce.mpr (.inl (hs.confirmed x hx hm))
      · exact mem_addOnce.mpr (.inr rfl)

section

variable {batch : Batch} {outcomes : List (String × UnionOutcome)}

def engineLanded (batch : Batch) (outcomes : List (String × UnionOutcome)) : List String :=
  landedInOrder (landInOrder batch outcomes).2

def Resumes (batch : Batch) (outcomes : List (String × UnionOutcome)) (b : Batch) : Prop :=
  b = batch ∨ b = (landInOrder batch outcomes).2

/-- One attempt that may stop anywhere, or anything that happens in between and
merges nothing. -/
inductive Attempt (effects : α → List String) (batch : Batch)
    (outcomes : List (String × UnionOutcome)) : LandLog × α → LandLog × α → Prop
  | idle {log : LandLog} {a a' : α} (h : effects a' = effects a) :
    Attempt effects batch outcomes (log, a) (log, a')
  | replay {s s' : LandLog × α} {seam : MergeSeam α} {b : Batch} {steps : List LandingStep}
    (hid : seam.Idempotent effects) (hb : Resumes batch outcomes b)
    (hland : (landInOrder b outcomes).1 = .ok steps)
    (h : seam.Interrupted (landedInOrder (landInOrder b outcomes).2) s s') :
    Attempt effects batch outcomes s s'

variable {b : Batch}

theorem Resumes.landInOrder (h : Resumes batch outcomes b) :
    landInOrder b outcomes = landInOrder batch outcomes := by
  rcases h with rfl | rfl
  · rfl
  · exact landInOrder_repeat batch outcomes

theorem Attempt.replaying {s s' : LandLog × α} (h : Attempt effects batch outcomes s s')
    (hs : Replaying effects (engineLanded batch outcomes) base s) :
    Replaying effects (engineLanded batch outcomes) base s' := by
  cases h with
  | idle heq => exact ⟨by rw [heq]; exact hs.order, by simpa only [heq] using hs.confirmed⟩
  | replay hid hb _ h =>
    rw [hb.landInOrder] at h
    exact h.replaying hid (List.nil_append _).symm (by simp) hs

theorem attempts_replaying {s s' : LandLog × α}
    (h : Relation.ReflTransGen (Attempt effects batch outcomes) s s')
    (hs : Replaying effects (engineLanded batch outcomes) base s) :
    Replaying effects (engineLanded batch outcomes) base s' := by
  induction h with
  | refl => exact hs
  | tail _ hstep ih => exact hstep.replaying ih

theorem recoverAndReplay_attempt (hid : seam.Idempotent effects) (hb : Resumes batch outcomes b) {s : LandLog × α}
    {o : RecoveryOutcome} (h : (seam.recoverAndReplay b outcomes s.1 s.2).1 = .ok o) :
    Attempt effects batch outcomes s (seam.recoverAndReplay b outcomes s.1 s.2).2.2 := by
  simp only [recoverAndReplay] at h ⊢
  cases hland : (Hugit.landInOrder b outcomes).1 with
  | error e => simp [hland] at h
  | ok steps => exact .replay hid hb hland (seam.replayEach_interrupted _ s.1 s.2)

theorem recoverAndReplay_ok (hb : Resumes batch outcomes b) {s : LandLog × α} {o : RecoveryOutcome}
    (h : (seam.recoverAndReplay b outcomes s.1 s.2).1 = .ok o) :
    (∀ id ∈ engineLanded batch outcomes,
      id ∈ (seam.recoverAndReplay b outcomes s.1 s.2).2.2.1.merged) ∧
      ∀ id, id ∈ o.allMerged ↔ id ∈ engineLanded batch outcomes := by
  simp only [recoverAndReplay, hb.landInOrder] at h ⊢
  cases hland : (Hugit.landInOrder batch outcomes).1 with
  | error e => simp [hland] at h
  | ok steps =>
    simp only [hland] at h
    exact ⟨replayEach_ok_log h, fun id => RecoveryOutcome.mem_allMerged.trans (replayEach_ok h id)⟩

theorem Replaying.effects_all {s : LandLog × α} (h : Replaying effects landed base s)
    (hall : ∀ id ∈ landed, id ∈ s.1.merged) : effects s.2 = landed.foldl Hugit.addOnce base := by
  obtain ⟨k, hk⟩ := h.order
  rw [← List.take_append_drop k landed, List.foldl_append, ← hk]
  exact (foldl_addOnce_of_subset fun id hid =>
    h.confirmed id (List.mem_of_mem_drop hid) (hall id (List.mem_of_mem_drop hid))).symm

/-- After any interrupted attempts the merges that took effect are landed
entries, in queue order, each once; a completed attempt brings in the rest and
reports exactly the landed entries. -/
theorem crash_safe_replay {s s' : LandLog × α}
    (hstart : ∀ id ∈ engineLanded batch outcomes, id ∈ s.1.merged →
      id ∈ effects s.2)
    (hruns : Relation.ReflTransGen (Attempt effects batch outcomes) s s') :
    ∃ done, effects s'.2 = effects s.2 ++ done ∧
      done.Sublist (engineLanded batch outcomes) ∧ done.Nodup ∧
      (∀ id ∈ done, id ∉ effects s.2) ∧
      ∀ (seam : MergeSeam α) (b : Batch) (o : RecoveryOutcome), seam.Idempotent effects →
        Resumes batch outcomes b → (seam.recoverAndReplay b outcomes s'.1 s'.2).1 = .ok o →
        ∃ rest, effects (seam.recoverAndReplay b outcomes s'.1 s'.2).2.2.2 =
            effects s.2 ++ (done ++ rest) ∧
          (done ++ rest).Sublist (engineLanded batch outcomes) ∧
          (done ++ rest).Nodup ∧ (∀ id ∈ done ++ rest, id ∉ effects s.2) ∧
          (∀ id ∈ engineLanded batch outcomes,
            id ∈ effects s.2 ∨ id ∈ done ++ rest) ∧
          ∀ id, id ∈ o.allMerged ↔ id ∈ engineLanded batch outcomes := by
  have hs := attempts_replaying hruns ⟨⟨0, rfl⟩, hstart⟩
  obtain ⟨k, hk⟩ := hs.order
  obtain ⟨done, hdone, hsub, hnodup, hnew⟩ :=
    foldl_addOnce_append ((engineLanded batch outcomes).take k) (effects s.2)
  refine ⟨done, hk.trans hdone, hsub.trans (List.take_sublist _ _), hnodup, hnew, ?_⟩
  intro seam b o hid hb hok
  have hfinal := (recoverAndReplay_attempt hid hb hok).replaying hs
  obtain ⟨hlog, hreport⟩ := recoverAndReplay_ok hb hok
  have hall := hfinal.effects_all hlog
  -- the merges of the completed attempt come after those of the interrupted ones
  obtain ⟨rest, hrest, _⟩ := foldl_addOnce_append ((engineLanded batch outcomes).drop k)
    (effects s.2 ++ done)
  obtain ⟨added, hadded, hsub', hnodup', hnew'⟩ :=
    foldl_addOnce_append (engineLanded batch outcomes) (effects s.2)
  have hsplit : added = done ++ rest := by
    have hboth : effects s.2 ++ added = effects s.2 ++ (done ++ rest) := by
      rw [← hadded, ← List.append_assoc, ← hrest, ← hdone, ← List.foldl_append,
        List.take_append_drop]
    exact List.append_cancel_left hboth
  subst hsplit
  refine ⟨rest, hall.trans hadded, hsub', hnodup', hnew', fun id hid => ?_, hreport⟩
  rw [← List.mem_append, ← hadded, mem_foldl_addOnce]
  exact .inr hid

end

end

end MergeSeam

def acceptingSeam : MergeSeam (List String) where
  methodFor _ := .merge
  headFor id := id
  liveHeadFor id _ := id
  merge r a := (.ok (), addOnce a r.itemId)

theorem acceptingSeam_idempotent : acceptingSeam.Idempotent fun a => a :=
  ⟨fun _ _ _ => rfl, nofun⟩

def pairBatch : Batch :=
  ⟨"batch", [.new ⟨"a", "intent-a", "t1", 1⟩ [], .new ⟨"b", "intent-b", "t2", 2⟩ []]⟩

/-- The process dies after the merge of "a" and before its mark; the next attempt
merges "a" again, to no effect, and then "b". -/
theorem pairBatch_replayed :
    acceptingSeam.recoverAndReplay pairBatch [("a", .green), ("b", .green)] ⟨[]⟩ ["a"] =
      (.ok ⟨[], ["a", "b"]⟩, pairBatch.settle [("a", .green), ("b", .green)], ⟨["a", "b"]⟩,
        ["a", "b"]) ∧
    ∀ id, id ∈ RecoveryOutcome.allMerged ⟨[], ["a", "b"]⟩ ↔
      id ∈ MergeSeam.engineLanded pairBatch [("a", .green), ("b", .green)] := by
  have hdies : acceptingSeam.Interrupted ["a", "b"] (⟨[]⟩, []) (⟨[]⟩, ["a"]) := .merged rfl
  have hattempt : MergeSeam.Attempt (fun a => a) pairBatch [("a", .green), ("b", .green)]
      (⟨[]⟩, []) (⟨[]⟩, ["a"]) := .replay acceptingSeam_idempotent (.inl rfl) rfl hdies
  have hrun : acceptingSeam.recoverAndReplay pairBatch [("a", .green), ("b", .green)] ⟨[]⟩ ["a"] =
      (.ok ⟨[], ["a", "b"]⟩, pairBatch.settle [("a", .green), ("b", .green)], ⟨["a", "b"]⟩,
        ["a", "b"]) := by decide +kernel
  obtain ⟨_, _, _, _, _, hfinal⟩ := MergeSeam.crash_safe_replay (by simp) (.single hattempt)
  obtain ⟨_, _, _, _, _, _, hreport⟩ := hfinal acceptingSeam pairBatch _ acceptingSeam_idempotent
    (.inl rfl) (congrArg Prod.fst hrun)
  exact ⟨hrun, hreport⟩

end Hugit
