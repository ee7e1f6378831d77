import Hugit.PrBoard

/-! The landing queue keeps arrival order as long as no entry of a higher index
is left behind by a landing. The next index is the number of active entries. -/

namespace Hugit

section Batches

theorem orderedInsert_concat {a last : BatchEntry} (h : a.orderIndex ≤ last.orderIndex) (entries : List BatchEntry) :
    (entries ++ [last]).orderedInsert (fun a b => a.orderIndex ≤ b.orderIndex) a =
      entries.orderedInsert (fun a b => a.orderIndex ≤ b.orderIndex) a ++ [last] := by
  induction entries with
  | nil => simp [h]
  | cons b rest ih =>
    by_cases hab : a.orderIndex ≤ b.orderIndex
    · simp [hab]
    · simp [hab, ih]

theorem insertionSort_concat {last : BatchEntry} {entries : List BatchEntry}
    (h : ∀ a ∈ entries, a.orderIndex ≤ last.orderIndex) :
    (entries ++ [last]).insertionSort (fun a b => a.orderIndex ≤ b.orderIndex) =
      entries.insertionSort (fun a b => a.orderIndex ≤ b.orderIndex) ++ [last] := by
  induction entries with
  | nil => rfl
  | cons a rest ih =>
    obtain ⟨ha, hrest⟩ := List.forall_mem_cons.mp h
    rw [List.cons_append, List.insertionSort_cons, ih hrest, orderedInsert_concat ha, List.insertionSort_cons]

theorem orderIndex_lt_last {entries : List BatchEntry} {n : Nat} {last e : BatchEntry}
    (hsorted : (entries.map BatchEntry.orderIndex).Pairwise (· < ·)) (hn : entries.length = n + 1)
    (hlast : entries[n]? = some last) (he : e ∈ entries) (hne : e ≠ last) : e.orderIndex < last.orderIndex := by
  obtain ⟨k, hk, rfl⟩ := List.mem_iff_getElem.mp he
  obtain ⟨hlt, rfl⟩ := List.getElem?_eq_some_iff.mp hlast
  have hkn : k < n := by
    have hkne : k ≠ n := by
      rintro rfl
      exact hne rfl
    omega
  have hh := List.pairwise_iff_getElem.mp hsorted k n (by simpa using hk) (by simpa using hlt) hkn
  simpa using hh

end Batches

section ItemIds

theorem hash_notMem_decimal (n : Nat) : '#' ∉ (decimal n).toList :=
  fun h => absurd (isDigit_of_mem_decimal h) (by decide)

theorem queueItemId_inj {prId prId' : String} {i j : Nat} (h : queueItemId prId i = queueItemId prId' j) :
    prId = prId' := by
  have hlists : prId.toList ++ '#' :: (decimal i).toList = prId'.toList ++ '#' :: (decimal j).toList := by
    simpa [queueItemId] using congrArg String.toList h
  exact String.toList_inj.mp (append_separator_inj (hash_notMem_decimal i) (hash_notMem_decimal j) hlists).1

theorem queueItemId_ne_marker (prId : String) (i : Nat) : queueItemId prId i ≠ redactedMarker := by
  intro h
  have hmem : '#' ∈ redactedMarker.toList := by
    rw [← h]
    simp [queueItemId]
  exact absurd hmem (by decide +kernel)

theorem itemId_ne {s : Scrubber} {log : EventLog} (hlog : s.PrLog log) {q : QueuedPr} {prId : String}
    (hq : q ∈ allPrQueued s.crates log) (hne : q.prId ≠ prId) (i : Nat) : q.itemId ≠ queueItemId prId i := by
  rw [allPrQueued_eq] at hq
  rw [hlog.items q (List.mem_filter.mp hq).1]
  rcases redactText_cases s.measures (queueItemId q.prId q.orderIndex) with h | h
  · rw [h]
    exact fun he => hne (queueItemId_inj he)
  · rw [h]
    exact (queueItemId_ne_marker prId i).symm

end ItemIds

/-- An opened PR with content that nothing has happened to. -/
structure Waiting (s : Scrubber) (log : EventLog) (prId : String) : Prop where
  opened : ∃ o, findPrOpened s.crates log prId = some o ∧ (o.intentIds ≠ [] ∨ o.commitIds ≠ [])
  notLanded : prIsLanded s.crates log prId = false
  notAbandoned : findPrAbandonedReason s.crates log prId = none
  notQueued : findPrQueued s.crates log prId = none

def LandsLast (s : Scrubber) (log : EventLog) (args : LandArgs) : Prop :=
  (s.landPr log args).1 = .ok (queuedJson (structuralSecretScrub s.measures args.prId) false
      (allPrQueued s.crates log).length) ∧
    allPrQueued s.crates (s.landPr log args).2 = allPrQueued s.crates log ++ [nextEntry s log args]

def BelowNext (s : Scrubber) (log : EventLog) : Prop :=
  ∀ q ∈ allPrQueued s.crates log, q.orderIndex < nextOrderIndex (allPrQueued s.crates log)

section Land

variable {s : Scrubber} {log : EventLog} {args : LandArgs}

def landBatch (s : Scrubber) (log : EventLog) (args : LandArgs) : Except BatchError Batch :=
  Batch.tryFromEntries ("land-" ++ structuralSecretScrub s.measures args.prId)
    (queueEntries (allPrQueued s.crates log) (structuralSecretScrub s.measures args.prId)
      (queueItemId (structuralSecretScrub s.measures args.prId) (nextOrderIndex (allPrQueued s.crates log)))
      (nextOrderIndex (allPrQueued s.crates log)))

def landItemId (s : Scrubber) (log : EventLog) (args : LandArgs) : String :=
  queueItemId (structuralSecretScrub s.measures args.prId) (nextOrderIndex (allPrQueued s.crates log))

theorem landPr_waiting (h : Waiting s log (structuralSecretScrub s.measures args.prId)) :
    (∃ batch position, landBatch s log args = .ok batch ∧
      batch.ids.findIdx? (· = landItemId s log args) = some position ∧
      (s.landPr log args).1 = .ok (queuedJson (structuralSecretScrub s.measures args.prId) false position) ∧
      (s.landPr log args).2 ≠ log) ∨
    ((∀ answer, (s.landPr log args).1 ≠ .ok answer) ∧ ∀ batch position, landBatch s log args = .ok batch →
      batch.ids.findIdx? (· = landItemId s log args) ≠ some position) := by
  obtain ⟨o, ho, hcontent⟩ := h.opened
  have hne : (o.intentIds.isEmpty && o.commitIds.isEmpty) = false := by
    simp only [Bool.and_eq_false_iff, List.isEmpty_eq_false_iff]
    exact hcontent
  unfold Scrubber.landPr
  simp only [ho, h.notLanded, hne, h.notQueued, Scrubber.appendAsAuthor_eq]
  cases hbatch : landBatch s log args with
  | error e =>
    rw [landBatch] at hbatch
    simp [hbatch]
  | ok batch =>
    cases hplace : batch.ids.findIdx? (· = landItemId s log args) with
    | none =>
      refine .inr ⟨?_, fun b position hb => ?_⟩
      · rw [landItemId] at hplace
        rw [landBatch] at hbatch
        simp [hbatch, hplace]
      · obtain rfl := Except.ok.inj hb
        rw [hplace]
        simp
    | some position =>
      refine .inl ⟨batch, position, rfl, hplace, ?_⟩
      rw [landItemId] at hplace
      rw [landBatch] at hbatch
      simp only [hbatch, hplace, Bool.false_eq_true, if_false, true_and]
      intro he
      have hlength := congrArg (·.records.length) he
      simp at hlength

def QueuedPr.batchEntry (q : QueuedPr) : BatchEntry :=
  .new ⟨q.itemId, q.prId, "", q.orderIndex⟩ []

def landEntry (s : Scrubber) (log : EventLog) (args : LandArgs) : BatchEntry :=
  .new ⟨landItemId s log args, structuralSecretScrub s.measures args.prId, "",
    nextOrderIndex (allPrQueued s.crates log)⟩ []

def placedEntries (s : Scrubber) (log : EventLog) (args : LandArgs) : List BatchEntry :=
  ((allPrQueued s.crates log).map (·.batchEntry) ++ [landEntry s log args]).insertionSort
    fun a b => a.orderIndex ≤ b.orderIndex

theorem mem_placedEntries {e : BatchEntry} : e ∈ placedEntries s log args ↔
    e ∈ (allPrQueued s.crates log).map (·.batchEntry) ∨ e = landEntry s log args := by
  rw [placedEntries, (List.perm_insertionSort _ _).mem_iff, List.mem_append, List.mem_singleton]

theorem length_placedEntries : (placedEntries s log args).length = (allPrQueued s.crates log).length + 1 := by
  rw [placedEntries, List.length_insertionSort]
  simp

theorem landBatch_eq_ok {batch : Batch} : landBatch s log args = .ok batch ↔
    (((allPrQueued s.crates log).map (·.orderIndex)) ++ [nextOrderIndex (allPrQueued s.crates log)]).Nodup ∧
      batch = ⟨"land-" ++ structuralSecretScrub s.measures args.prId, placedEntries s log args⟩ := by
  have hindices : (queueEntries (allPrQueued s.crates log) (structuralSecretScrub s.measures args.prId)
      (landItemId s log args) (nextOrderIndex (allPrQueued s.crates log))).map (fun e => e.1.orderIndex) =
      (allPrQueued s.crates log).map (·.orderIndex) ++ [nextOrderIndex (allPrQueued s.crates log)] := by
    simp [queueEntries, Function.comp_def]
  have hentries : (queueEntries (allPrQueued s.crates log) (structuralSecretScrub s.measures args.prId)
      (landItemId s log args) (nextOrderIndex (allPrQueued s.crates log))).map (fun e => BatchEntry.new e.1 e.2) =
      (allPrQueued s.crates log).map (·.batchEntry) ++ [landEntry s log args] := by
    simp [queueEntries, Function.comp_def, QueuedPr.batchEntry, landEntry]
  rw [landBatch, Batch.tryFromEntries_eq_ok, ← landItemId, hindices, hentries]
  rfl

theorem batchEntry_itemId_ne (hlog : s.PrLog log) (h : Waiting s log (structuralSecretScrub s.measures args.prId))
    {e : BatchEntry} (he : e ∈ (allPrQueued s.crates log).map (·.batchEntry)) : e.itemId ≠ landItemId s log args := by
  obtain ⟨q, hq, rfl⟩ := List.mem_map.mp he
  exact itemId_ne hlog hq (findPrQueued_eq_none.mp h.notQueued q hq) _

theorem placed_last (hlog : s.PrLog log) (h : Waiting s log (structuralSecretScrub s.measures args.prId))
    (hbelow : BelowNext s log) :
    ((placedEntries s log args).map BatchEntry.itemId).findIdx? (· = landItemId s log args) =
      some (allPrQueued s.crates log).length := by
  have hle : ∀ e ∈ (allPrQueued s.crates log).map (·.batchEntry), e.orderIndex ≤ (landEntry s log args).orderIndex := by
    intro e he
    obtain ⟨q, hq, rfl⟩ := List.mem_map.mp he
    exact (hbelow q hq).le
  have hold : ((((allPrQueued s.crates log).map (·.batchEntry)).insertionSort
      fun a b => a.orderIndex ≤ b.orderIndex).map BatchEntry.itemId).findIdx? (· = landItemId s log args) = none := by
    rw [List.findIdx?_eq_none_iff]
    intro id hid
    obtain ⟨e, he, rfl⟩ := List.mem_map.mp hid
    exact decide_eq_false (batchEntry_itemId_ne hlog h ((List.perm_insertionSort _ _).mem_iff.mp he))
  rw [placedEntries, insertionSort_concat hle, List.map_append, List.findIdx?_append, hold]
  simp [landEntry, BatchEntry.itemId, BatchEntry.new]

theorem landsLast_of_below (hc : s.crates.Json) (hlog : s.PrLog log)
    (h : Waiting s log (structuralSecretScrub s.measures args.prId))
    (hnodup : ((allPrQueued s.crates log).map (·.orderIndex)).Nodup) (hbelow : BelowNext s log) :
    LandsLast s log args := by
  have hfresh : (((allPrQueued s.crates log).map (·.orderIndex)) ++
      [nextOrderIndex (allPrQueued s.crates log)]).Nodup := by
    rw [List.nodup_append]
    refine ⟨hnodup, List.nodup_singleton _, fun i hi j hj => ?_⟩
    obtain ⟨q, hq, rfl⟩ := List.mem_map.mp hi
    rw [List.mem_singleton.mp hj]
    exact (hbelow q hq).ne
  have hbatch := (@landBatch_eq_ok s log args _).mpr ⟨hfresh, rfl⟩
  have hplace := placed_last hlog h hbelow
  rcases landPr_waiting h with ⟨batch, position, hb, hp, hok, hchanged⟩ | ⟨-, hno⟩
  · rw [hbatch] at hb
    obtain rfl := Except.ok.inj hb
    obtain rfl := Option.some.inj (hplace.symm.trans hp)
    refine ⟨hok, ?_⟩
    rcases Scrubber.landPr_effect hc log args with hsame | ⟨r, hr, happend⟩
    · exact absurd hsame hchanged
    · have hunlanded : (nextEntry s log args).prId ∉ (board s.crates log).landed := by
        have hl := h.notLanded
        rw [← Bool.not_eq_true, prIsLanded_iff] at hl
        exact hl
      rw [happend, ← active_board, board_queued hr, ← active_board]
      exact PrBoard.active_enqueue hunlanded
  · exact absurd hplace (hno _ _ hbatch)

theorem below_of_placed_last (hlog : s.PrLog log) (h : Waiting s log (structuralSecretScrub s.measures args.prId))
    (hsorted : ((placedEntries s log args).map BatchEntry.orderIndex).Pairwise (· < ·))
    (hplace : ((placedEntries s log args).map BatchEntry.itemId).findIdx? (· = landItemId s log args) =
      some (allPrQueued s.crates log).length) : BelowNext s log := by
  obtain ⟨hlt, hid, -⟩ := List.findIdx?_eq_some_iff_getElem.mp hplace
  have hlast : (placedEntries s log args)[(allPrQueued s.crates log).length]? = some (landEntry s log args) := by
    rw [List.length_map] at hlt
    rw [List.getElem?_eq_getElem hlt]
    rw [List.getElem_map, decide_eq_true_eq] at hid
    -- The entry found is the new one, since no other has its item id.
    rcases mem_placedEntries.mp (List.getElem_mem hlt) with hold | hnew
    · exact absurd hid (batchEntry_itemId_ne hlog h hold)
    · rw [hnew]
  intro q hq
  have hmem : q.batchEntry ∈ (allPrQueued s.crates log).map (·.batchEntry) := List.mem_map_of_mem hq
  refine orderIndex_lt_last hsorted length_placedEntries hlast (mem_placedEntries.mpr (.inl hmem)) fun he => ?_
  refine batchEntry_itemId_ne hlog h hmem ?_
  rw [he]
  rfl

theorem landsLast_iff (hc : s.crates.Json) (hlog : s.PrLog log)
    (h : Waiting s log (structuralSecretScrub s.measures args.prId))
    (hnodup : ((allPrQueued s.crates log).map (·.orderIndex)).Nodup) :
    LandsLast s log args ↔ BelowNext s log := by
  refine ⟨fun hlast => ?_, landsLast_of_below hc hlog h hnodup⟩
  rcases landPr_waiting h with ⟨batch, position, hb, hp, hok, -⟩ | ⟨hno, -⟩
  · have hposition : position = (allPrQueued s.crates log).length := by
      have hanswer := Except.ok.inj (hok.symm.trans hlast.1)
      simpa [queuedJson] using hanswer
    subst hposition
    have hsorted := Batch.isQueueOrdered_iff.mp (Batch.tryFromEntries_ok hb).2
    obtain ⟨-, rfl⟩ := landBatch_eq_ok.mp hb
    exact below_of_placed_last hlog h hsorted hp
  · exact absurd hlast.1 (hno _)

end Land

section Runs

def PrBoard.Rules.inOrder : PrBoard.Rules where
  mayQueue b q := ∀ p ∈ b.active, p.orderIndex < q.orderIndex
  mayAbandon _ _ := True

namespace PrBoard

variable {rules : Rules} {b b' : PrBoard}

theorem Step.nodup_indices (h : Step rules b b') (hb : (b.active.map (·.orderIndex)).Nodup) :
    (b'.active.map (·.orderIndex)).Nodup := by
  rcases h.active_cases with hsub | ⟨q, hq, -, hfresh, -⟩
  · exact hb.sublist (hsub.map _)
  · rw [hq, List.map_append, List.nodup_append]
    refine ⟨hb, List.nodup_singleton _, fun i hi j hj => ?_⟩
    obtain ⟨p, hp, rfl⟩ := List.mem_map.mp hi
    rw [List.mem_singleton.mp hj]
    exact hfresh p hp

theorem Step.increasing (h : Step .inOrder b b') (hb : b.active.Pairwise fun p q => p.orderIndex < q.orderIndex) :
    b'.active.Pairwise fun p q => p.orderIndex < q.orderIndex := by
  rcases h.active_cases with hsub | ⟨q, hq, -, -, hlast⟩
  · exact hb.sublist hsub
  · rw [hq, List.pairwise_append]
    refine ⟨hb, List.pairwise_singleton _ _, fun p hp x hx => ?_⟩
    rw [List.mem_singleton.mp hx]
    exact hlast p hp

end PrBoard

/-- A PR that is not queued is landed when every active index is below the next. -/
def ArrivesLast {ω : Type} (s : Scrubber) (log : EventLog) : PrCall ω → Prop
  | .landPr args => findPrQueued s.crates log (structuralSecretScrub s.measures args.prId) = none → BelowNext s log
  | _ => True

theorem ArrivesLast.allowed {ω : Type} {s : Scrubber} {log : EventLog} {call : PrCall ω} (h : ArrivesLast s log call) :
    call.Allowed .inOrder s log := by
  cases call with
  | landPr args =>
    intro hq
    show ∀ p ∈ (board s.crates log).active, _
    rw [active_board]
    exact h hq
  | _ => trivial

variable {s : Scrubber} {ω : Type} {host : LandHost ω} {log : EventLog}

theorem nodup_orderIndices (hc : s.crates.Json) (hfree : PrFree log) (calls : List (PrCall ω)) :
    ((allPrQueued s.crates (runPrCalls s host calls log)).map (·.orderIndex)).Nodup := by
  have hsteps := (runPrCalls_board hc calls hfree.prLog (everyCall_anyCaller s host calls log)).2.2
  rw [hfree.board] at hsteps
  rw [← active_board]
  exact PrBoard.run_keeps (fun _ _ hstep => hstep.nodup_indices) hsteps List.nodup_nil

theorem increasing_orderIndices (hc : s.crates.Json) (hfree : PrFree log) {calls : List (PrCall ω)}
    (h : EveryCall s host (ArrivesLast s) calls log) :
    (allPrQueued s.crates (runPrCalls s host calls log)).Pairwise fun p q => p.orderIndex < q.orderIndex := by
  have hallowed := h.imp hc (Q := fun log call => call.Allowed .inOrder s log) (fun _ _ _ h => h.allowed) hfree.prLog
  have hsteps := (runPrCalls_board hc calls hfree.prLog hallowed).2.2
  rw [hfree.board] at hsteps
  rw [← active_board]
  exact PrBoard.run_keeps (fun _ _ hstep => hstep.increasing) hsteps List.Pairwise.nil

/-- The active entries always have distinct indices. They stand in the order of
arrival when no PR was queued behind a higher index, and a waiting PR is put
last exactly when every active index is below the next. -/
theorem queue_keeps_arrival_order (hc : s.crates.Json) (hfree : PrFree log) (calls : List (PrCall ω)) :
    ((allPrQueued s.crates (runPrCalls s host calls log)).map (·.orderIndex)).Nodup ∧
    (EveryCall s host (ArrivesLast s) calls log →
      (allPrQueued s.crates (runPrCalls s host calls log)).Pairwise fun p q => p.orderIndex < q.orderIndex) ∧
    ∀ args : LandArgs, Waiting s (runPrCalls s host calls log) (structuralSecretScrub s.measures args.prId) →
      (LandsLast s (runPrCalls s host calls log) args ↔ BelowNext s (runPrCalls s host calls log)) := by
  have hnodup := @nodup_orderIndices s ω host log hc hfree calls
  have hlog := (runPrCalls_board hc calls hfree.prLog (everyCall_anyCaller s host calls log)).1
  exact ⟨hnodup, increasing_orderIndices hc hfree, fun args hwait => landsLast_iff hc hlog hwait hnodup⟩

end Runs

section Scenarios

variable {s : Scrubber} {log : EventLog} {b : PrBoard}

structure ReadsAs (s : Scrubber) (log : EventLog) (b : PrBoard) : Prop where
  prLog : s.PrLog log
  board : board s.crates log = b

namespace ReadsAs

theorem active (h : ReadsAs s log b) : allPrQueued s.crates log = b.active := by
  rw [← active_board, h.board]

theorem opened (h : ReadsAs s log b) : openedPrs s.crates log = b.opened :=
  congrArg PrBoard.opened h.board

theorem landed (h : ReadsAs s log b) : log.prIds s.crates prLandedKind = b.landed :=
  congrArg PrBoard.landed h.board

theorem abandoned (h : ReadsAs s log b) : log.prIds s.crates prAbandonedKind = b.abandoned :=
  congrArg PrBoard.abandoned h.board

theorem findPrOpened (h : ReadsAs s log b) (id : String) :
    findPrOpened s.crates log id = b.opened.reverse.find? (·.prId = id) := by
  rw [← h.board]
  rfl

theorem prIsLanded (h : ReadsAs s log b) {id : String} (hid : id ∉ b.landed) : prIsLanded s.crates log id = false := by
  rw [← Bool.not_eq_true, prIsLanded_iff]
  rw [← h.board] at hid
  exact hid

theorem notAbandoned (h : ReadsAs s log b) {id : String} (hid : id ∉ b.abandoned) :
    findPrAbandonedReason s.crates log id = none := by
  rw [findPrAbandonedReason_eq_none h.prLog]
  rw [← h.board] at hid
  exact hid

theorem findPrQueued (h : ReadsAs s log b) (id : String) :
    findPrQueued s.crates log id = b.active.find? (·.prId = id) := by
  rw [Hugit.findPrQueued, h.active]

theorem waiting (h : ReadsAs s log b) {id : String} {o : OpenedPr}
    (hopened : b.opened.reverse.find? (·.prId = id) = some o) (hcontent : o.intentIds ≠ []) (hlanded : id ∉ b.landed)
    (habandoned : id ∉ b.abandoned) (hqueued : b.active.find? (·.prId = id) = none) : Waiting s log id :=
  ⟨⟨o, (h.findPrOpened id).trans hopened, .inl hcontent⟩, h.prIsLanded hlanded, h.notAbandoned habandoned,
    (h.findPrQueued id).trans hqueued⟩

theorem land (h : ReadsAs s log b) (hc : s.crates.Json) {args : LandArgs}
    (hwait : Waiting s log (structuralSecretScrub s.measures args.prId)) (hn : (b.active.map (·.orderIndex)).Nodup)
    (hbelow : ∀ q ∈ b.active, q.orderIndex < nextOrderIndex b.active) :
    ∃ item, ReadsAs s (s.landPr log args).2 { b with
      queued := b.queued ++ [⟨structuralSecretScrub s.measures args.prId, item, nextOrderIndex b.active⟩] } := by
  have hlast := landsLast_of_below hc h.prLog hwait (by rw [h.active]; exact hn) (by rw [BelowNext, h.active]; exact hbelow)
  rcases Scrubber.landPr_effect hc log args with hsame | ⟨r, hr, happend⟩
  · have hqueue := hlast.2
    rw [hsame] at hqueue
    simp at hqueue
  · rw [happend]
    refine ⟨(nextEntry s log args).itemId, h.prLog.append hr.prLog, ?_⟩
    rw [board_queued hr, ← h.active, ← h.board]
    simp only [nextEntry, Hugit.board]

theorem settle (h : ReadsAs s log b) (hc : s.crates.Json) {args : SettleArgs} {o : OpenedPr}
    (hopened : b.opened.reverse.find? (·.prId = structuralSecretScrub s.measures args.prId) = some o)
    (hlanded : structuralSecretScrub s.measures args.prId ∉ b.landed)
    (hqueued : (b.active.find? (·.prId = structuralSecretScrub s.measures args.prId)).isSome = true) :
    ReadsAs s (s.settlePr log args).2
      { b with landed := b.landed ++ [structuralSecretScrub s.measures args.prId] } := by
  rcases Scrubber.settlePr_effect hc log args with ⟨-, hno⟩ | ⟨rs, ⟨hrs, hids⟩, happend⟩
  · rw [h.findPrOpened, hopened, h.prIsLanded hlanded, h.findPrQueued] at hno
    simp only [reduceCtorEq, Bool.false_eq_true, false_or] at hno
    rw [hno] at hqueued
    cases hqueued
  · rw [happend]
    refine ⟨h.prLog.append (.of_kinds fun r hr => (hrs.kinds r hr).2), ?_⟩
    rw [board_landed hrs, hids, ← h.board]
    rfl

theorem abandon (h : ReadsAs s log b) (hc : s.crates.Json) {args : AbandonArgs} {o : OpenedPr}
    (hopened : b.opened.reverse.find? (·.prId = structuralSecretScrub s.measures args.prId) = some o)
    (hlanded : structuralSecretScrub s.measures args.prId ∉ b.landed)
    (habandoned : structuralSecretScrub s.measures args.prId ∉ b.abandoned) :
    ReadsAs s (s.abandonPr log args).2
      { b with abandoned := b.abandoned ++ [structuralSecretScrub s.measures args.prId] } := by
  rcases Scrubber.abandonPr_effect hc log args with ⟨-, hno⟩ | ⟨r, hr, happend⟩
  · rw [h.findPrOpened, hopened, h.prIsLanded hlanded, h.notAbandoned habandoned] at hno
    simp at hno
  · rw [happend]
    refine ⟨h.prLog.append hr.prLog, ?_⟩
    rw [board_abandoned hr, ← h.board]
    rfl

end ReadsAs

structure OpeningsOnly (s : Scrubber) (log : EventLog) (opened : List OpenedPr) : Prop where
  kinds : ∀ r ∈ log.records, r.kind = prOpenedKind
  reads : ReadsAs s log ⟨opened, [], [], []⟩

theorem OpeningsOnly.nil (s : Scrubber) : OpeningsOnly s ⟨[]⟩ [] :=
  ⟨nofun, .of_kinds nofun, rfl⟩

def humanOpens (id : String) : OpenArgs where
  prId := id
  campaign := "c"
  authorKind := .human
  runId := none
  principal := some "ada"
  intentIds := ["i"]
  commitIds := []
  recordedAt := 0

theorem validateOpen_humanOpens (h : ∀ r ∈ log.records, r.kind = prOpenedKind) (id : String) :
    validateOpen s.crates log (s.scrubOpenArgs (humanOpens id)) = .ok () := by
  have hkind (kind : String) (hne : prOpenedKind ≠ kind) : log.hasKind kind = false := by
    rw [EventLog.hasKind, List.any_eq_false]
    intro r hr
    rw [h r hr]
    simpa using hne
  have hbound : validateAuthorBinding (s.scrubOpenArgs (humanOpens id)).authorKind
      (s.scrubOpenArgs (humanOpens id)).runId (s.scrubOpenArgs (humanOpens id)).principal = .ok () := by
    rcases structuralSecretScrub_cases s.measures "ada" with he | he
    · simp [validateAuthorBinding, Scrubber.scrubOpenArgs, humanOpens, he]
    · simp [validateAuthorBinding, Scrubber.scrubOpenArgs, humanOpens, he, redactedMarker]
  rw [validateOpen, hbound, validateCampaign, hkind campaignOpenedKind (by decide), validateIntents,
    hkind intentLandedKind (by decide)]
  rfl

theorem OpeningsOnly.open {opened : List OpenedPr} (h : OpeningsOnly s log opened) (hc : s.crates.Json) {id : String}
    (hid : structuralSecretScrub s.measures id = id) (hnew : ∀ o ∈ opened, o.prId ≠ id) :
    ∃ seq, OpeningsOnly s (s.openPr log (humanOpens id)).2
      (opened ++ [(humanOpens id).opened s.measures seq]) := by
  have hnone : findPrOpened s.crates log (structuralSecretScrub s.measures (humanOpens id).prId) = none := by
    rw [h.reads.findPrOpened, List.find?_eq_none]
    intro o ho
    have hne := hnew o (List.mem_reverse.mp ho)
    rw [show structuralSecretScrub s.measures (humanOpens id).prId = id from hid]
    simpa using hne
  rcases Scrubber.openPr_effect hc log (humanOpens id) with ⟨-, hno⟩ | ⟨r, hr, happend⟩
  · rcases hno with hno | hno
    · exact absurd hnone hno
    · exact absurd (validateOpen_humanOpens h.kinds id) hno
  · rw [happend]
    have hkinds : ∀ x ∈ log.records ++ [r], x.kind = prOpenedKind := by
      intro x hx
      rcases List.mem_append.mp hx with hx | hx
      · exact h.kinds x hx
      · rw [List.mem_singleton.mp hx, hr.kind]
    refine ⟨r.seq, hkinds, .of_kinds fun x hx => ?_, ?_⟩
    · rw [hkinds x hx]
      decide
    · rw [board_opened hr, h.reads.board, h.reads.opened]

def plainScrubber : Scrubber :=
  ⟨reference, ⟨fun _ => 0⟩, fun _ => false⟩

theorem plainScrubber_json : plainScrubber.crates.Json :=
  reference_json

theorem plainScrubber_letters : ∀ id ∈ ["a", "b", "c"], structuralSecretScrub plainScrubber.measures id = id := by
  decide +kernel

def quietLandHost : LandHost Unit where
  now _ := (0, ())
  runMemoized _ _ _ := (.error (.run ""), ())

def noEnvelopes : Envelopes :=
  ⟨fun _ _ _ => none, fun _ _ => none⟩

/-- The first of two queued PRs lands, and the second is left with index one. -/
def settledBehind : List (PrCall Unit) :=
  [.openPr (humanOpens "a"), .openPr (humanOpens "b"), .openPr (humanOpens "c"), .landPr ⟨"a", 0⟩, .landPr ⟨"b", 0⟩,
    .settlePr ⟨"a", 0, noEnvelopes⟩]

theorem settledBehind_reads (hj : s.crates.Json) (ha : structuralSecretScrub s.measures "a" = "a")
    (hb : structuralSecretScrub s.measures "b" = "b") (hc : structuralSecretScrub s.measures "c" = "c") :
    ∃ o₁ o₂ o₃ : Nat, ∃ item₁ item₂ : String, ReadsAs s (runPrCalls s quietLandHost settledBehind ⟨[]⟩)
      ⟨[(humanOpens "a").opened s.measures o₁, (humanOpens "b").opened s.measures o₂,
        (humanOpens "c").opened s.measures o₃], [⟨"a", item₁, 0⟩, ⟨"b", item₂, 1⟩], ["a"], []⟩ := by
  have hpr (id : String) (seq : Nat) : ((humanOpens id).opened s.measures seq).prId =
      structuralSecretScrub s.measures id := rfl
  have hcontent (id : String) (seq : Nat) : ((humanOpens id).opened s.measures seq).intentIds ≠ [] := by
    simp [OpenArgs.opened, humanOpens]
  obtain ⟨o₁, h₁⟩ := (OpeningsOnly.nil s).open hj ha (by simp)
  obtain ⟨o₂, h₂⟩ := h₁.open hj hb (by simp [hpr, ha])
  obtain ⟨o₃, h₃⟩ := h₂.open hj hc (by simp [hpr, ha, hb])
  have hwait : Waiting s _ (structuralSecretScrub s.measures (LandArgs.mk "a" 0).prId) :=
    h₃.reads.waiting (o := (humanOpens "a").opened s.measures o₁) (by simp [hpr, ha, hb, hc])
      (hcontent "a" o₁) (by simp) (by simp) rfl
  obtain ⟨item₁, h₄⟩ := h₃.reads.land hj hwait (by simp [PrBoard.active]) (by simp [PrBoard.active])
  have hwait' : Waiting s _ (structuralSecretScrub s.measures (LandArgs.mk "b" 0).prId) :=
    h₄.waiting (o := (humanOpens "b").opened s.measures o₂) (by simp [hpr, hb, hc])
      (hcontent "b" o₂) (by simp) (by simp) (by simp [PrBoard.active, ha, hb])
  obtain ⟨item₂, h₅⟩ := h₄.land hj hwait' (by simp [PrBoard.active]) (by simp [PrBoard.active, nextOrderIndex])
  have h₆ := @ReadsAs.settle _ _ _ h₅ hj ⟨"a", 0, noEnvelopes⟩ ((humanOpens "a").opened s.measures o₁)
    (by simp [hpr, ha, hb, hc]) (by simp) (by simp [PrBoard.active, ha, hb])
  refine ⟨o₁, o₂, o₃, item₁, item₂, ?_⟩
  simpa [settledBehind, runPrCalls, PrCall.run, PrBoard.active, nextOrderIndex, ha, hb] using h₆

theorem landPr_refused_behind (hj : s.crates.Json) (ha : structuralSecretScrub s.measures "a" = "a")
    (hb : structuralSecretScrub s.measures "b" = "b") (hc : structuralSecretScrub s.measures "c" = "c") :
    Waiting s (runPrCalls s quietLandHost settledBehind ⟨[]⟩) "c" ∧
      ∀ answer, (s.landPr (runPrCalls s quietLandHost settledBehind ⟨[]⟩) ⟨"c", 0⟩).1 ≠ .ok answer := by
  obtain ⟨o₁, o₂, o₃, item₁, item₂, hreads⟩ := settledBehind_reads hj ha hb hc
  have hopened : ((humanOpens "c").opened s.measures o₃).prId = "c" := hc
  have hwait : Waiting s (runPrCalls s quietLandHost settledBehind ⟨[]⟩) "c" :=
    hreads.waiting (o := (humanOpens "c").opened s.measures o₃) (by simp [hopened])
      (by simp [OpenArgs.opened, humanOpens]) (by simp) (by simp) (by simp [PrBoard.active])
  refine ⟨hwait, fun answer hok => ?_⟩
  have hwait' : Waiting s (runPrCalls s quietLandHost settledBehind ⟨[]⟩)
      (structuralSecretScrub s.measures (LandArgs.mk "c" 0).prId) := by
    rw [show (LandArgs.mk "c" 0).prId = "c" from rfl, hc]
    exact hwait
  rcases landPr_waiting hwait' with ⟨batch, position, hbatch, -⟩ | ⟨hno, -⟩
  · obtain ⟨hnd, -⟩ := landBatch_eq_ok.mp hbatch
    rw [hreads.active] at hnd
    simp [PrBoard.active, nextOrderIndex] at hnd
  · exact hno answer hok

/-- The next PR would get the index that is still in use, and is refused. -/
theorem land_refused_behind_settled :
    PrFree ⟨[]⟩ ∧
    Waiting plainScrubber (runPrCalls plainScrubber quietLandHost settledBehind ⟨[]⟩) "c" ∧
    ∀ answer, (plainScrubber.landPr (runPrCalls plainScrubber quietLandHost settledBehind ⟨[]⟩) ⟨"c", 0⟩).1 ≠
      .ok answer :=
  ⟨nofun, landPr_refused_behind plainScrubber_json (plainScrubber_letters "a" (by simp))
    (plainScrubber_letters "b" (by simp)) (plainScrubber_letters "c" (by simp))⟩

theorem humanOpens_waiting (hj : s.crates.Json) (ha : structuralSecretScrub s.measures "a" = "a") :
    Waiting s (runPrCalls s quietLandHost [.openPr (humanOpens "a")] ⟨[]⟩)
        (structuralSecretScrub s.measures (LandArgs.mk "a" 0).prId) ∧
      BelowNext s (runPrCalls s quietLandHost [.openPr (humanOpens "a")] ⟨[]⟩) := by
  obtain ⟨seq, hopened⟩ := (OpeningsOnly.nil s).open hj ha (by simp)
  have hreads : ReadsAs s (runPrCalls s quietLandHost [.openPr (humanOpens "a")] ⟨[]⟩) _ := hopened.reads
  refine ⟨?_, ?_⟩
  · exact hreads.waiting (o := (humanOpens "a").opened s.measures seq) (by simp [OpenArgs.opened, humanOpens])
      (by simp [OpenArgs.opened, humanOpens]) (by simp) (by simp) rfl
  · rw [BelowNext, hreads.active]
    simp [PrBoard.active]

theorem first_pr_lands_last :
    Waiting plainScrubber (runPrCalls plainScrubber quietLandHost [.openPr (humanOpens "a")] ⟨[]⟩)
        (structuralSecretScrub plainScrubber.measures (LandArgs.mk "a" 0).prId) ∧
      LandsLast plainScrubber (runPrCalls plainScrubber quietLandHost [.openPr (humanOpens "a")] ⟨[]⟩) ⟨"a", 0⟩ := by
  obtain ⟨hwait, hbelow⟩ := humanOpens_waiting plainScrubber_json (plainScrubber_letters "a" (by simp))
  have hfree : PrFree ⟨[]⟩ := nofun
  exact ⟨hwait, ((queue_keeps_arrival_order plainScrubber_json hfree _).2.2 _ hwait).mpr hbelow⟩

end Scenarios

end Hugit
