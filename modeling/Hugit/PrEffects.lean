import Hugit.BatchLand

/-! What the verbs on pull requests can append. Each call either leaves the log as
it is or appends one lifecycle record, or landings of PRs in the active queue. -/

namespace Hugit

def EventLog.prIds (c : Crates) (log : EventLog) (kind : String) : List String :=
  (log.payloads c kind).filterMap (·.fieldStr "pr_id")

def queuedPrs (c : Crates) (log : EventLog) : List QueuedPr :=
  (log.records.filter (·.kind = prQueuedKind)).filterMap (parseQueued c)

def openedPrs (c : Crates) (log : EventLog) : List OpenedPr :=
  (log.records.filter (·.kind = prOpenedKind)).filterMap (parseOpened c)

section Append

variable {c : Crates} {log : EventLog} {rs : List EventRecord}

theorem prIds_append (kind : String) :
    EventLog.prIds c ⟨log.records ++ rs⟩ kind = log.prIds c kind ++ EventLog.prIds c ⟨rs⟩ kind := by
  simp [EventLog.prIds, payloads_append]

theorem queuedPrs_append :
    queuedPrs c ⟨log.records ++ rs⟩ = queuedPrs c log ++ queuedPrs c ⟨rs⟩ := by
  simp [queuedPrs]

theorem openedPrs_append :
    openedPrs c ⟨log.records ++ rs⟩ = openedPrs c log ++ openedPrs c ⟨rs⟩ := by
  simp [openedPrs]

theorem prIds_eq_nil {kind : String} (h : ∀ r ∈ rs, r.kind ≠ kind) : EventLog.prIds c ⟨rs⟩ kind = [] := by
  rw [EventLog.prIds, payloads_eq_nil h]
  rfl

theorem queuedPrs_eq_nil (h : ∀ r ∈ rs, r.kind ≠ prQueuedKind) : queuedPrs c ⟨rs⟩ = [] := by
  have hnil : rs.filter (·.kind = prQueuedKind) = [] := by simpa using h
  rw [queuedPrs, hnil]
  rfl

theorem prIds_concat {r : EventRecord} {kind : String} (h : r.kind ≠ kind) :
    EventLog.prIds c ⟨log.records ++ [r]⟩ kind = log.prIds c kind := by
  rw [prIds_append, @prIds_eq_nil c [r] kind (by simpa using h), List.append_nil]

theorem openedPrs_eq_nil (h : ∀ r ∈ rs, r.kind ≠ prOpenedKind) : openedPrs c ⟨rs⟩ = [] := by
  have hnil : rs.filter (·.kind = prOpenedKind) = [] := by simpa using h
  rw [openedPrs, hnil]
  rfl

variable {prId : String}

theorem findPrOpened_eq_none : findPrOpened c log prId = none ↔ ∀ o ∈ openedPrs c log, o.prId ≠ prId := by
  simp [findPrOpened, openedPrs]

theorem mem_openedPrs_of_findPrOpened {o : OpenedPr} (h : findPrOpened c log prId = some o) :
    o ∈ openedPrs c log ∧ o.prId = prId :=
  ⟨List.mem_reverse.mp (List.mem_of_find?_eq_some h), by simpa using List.find?_some h⟩

theorem prIsLanded_iff : prIsLanded c log prId = true ↔ prId ∈ log.prIds c prLandedKind := by
  simp [prIsLanded, EventLog.prIds]

theorem allPrQueued_eq : allPrQueued c log =
    (queuedPrs c log).filter fun q => q.prId ∉ log.prIds c prLandedKind := by
  rw [allPrQueued, queuedPrs]
  refine List.filter_congr fun q _ => ?_
  rw [Bool.eq_iff_iff]
  simp [← prIsLanded_iff]

theorem findPrQueued_eq_none : findPrQueued c log prId = none ↔ ∀ q ∈ allPrQueued c log, q.prId ≠ prId := by
  simp [findPrQueued]

end Append

theorem textItems_printable {depth : Nat} (texts : List String) :
    (Value.array (texts.map .string)).Printable (depth + 1) := by
  refine .array fun v hv => ?_
  obtain ⟨text, -, rfl⟩ := List.mem_map.mp hv
  exact .string text

theorem strings_texts (texts : List String) : Value.strings (.array (texts.map .string)) = some texts := by
  simp [Value.strings, Function.comp_def]

theorem redactText_authorKind (m : Measures) (kind : AuthorKind) : redactText m kind.asStr = kind.asStr := by
  cases kind
  · exact redactText_eq_self_iff.mpr (isSecret_of_short m (by decide +kernel) (by decide +kernel))
  · exact redactText_eq_self_iff.mpr (isSecret_of_short m (by decide +kernel) (by decide +kernel))

theorem parse_asStr (kind : AuthorKind) : AuthorKind.parse kind.asStr = some kind := by
  cases kind <;> decide

namespace Scrubber

variable {s : Scrubber}

theorem appendAsAuthor_eq (log : EventLog) (author : AuthorKind) (kind : String) (principalChain : List String)
    (payload : String) (recordedAt : Nat) :
    s.appendAsAuthor log author kind principalChain payload recordedAt =
      (.ok (EventLog.nextRecord s.crates log.records kind principalChain payload recordedAt),
        ⟨log.records ++ [EventLog.nextRecord s.crates log.records kind principalChain payload recordedAt]⟩) := by
  cases author <;> rfl

theorem openPayload_printable (args : OpenArgs) : (s.openPayload args).Printable 127 := by
  have hcommits : (Value.array (args.commitIds.map fun oid => .string (structuralSecretScrub s.measures oid))).Printable
      126 := by
    have hmap : args.commitIds.map (fun oid => Value.string (structuralSecretScrub s.measures oid)) =
        (args.commitIds.map (structuralSecretScrub s.measures)).map .string := by simp
    rw [hmap]
    exact textItems_printable _
  refine .object (by simp) fun f hf => ?_
  simp only [List.mem_cons, List.not_mem_nil, or_false] at hf
  rcases hf with rfl | rfl | rfl | rfl | rfl | rfl | rfl
  · exact .string _
  · exact .string _
  · exact hcommits
  · exact textItems_printable _
  · exact .string _
  · exact optText_printable _
  · exact optText_printable _

theorem parseOpened_canonicalOpenPayload (hc : s.crates.Json) (args : OpenArgs) {r : EventRecord}
    (hr : r.payload = s.canonicalOpenPayload (s.scrubOpenArgs args)) :
    parseOpened s.crates r = some ⟨structuralSecretScrub s.measures args.prId,
      structuralSecretScrub s.measures args.campaign, args.authorKind, args.intentIds.map (redactText s.measures),
      args.commitIds.map (structuralSecretScrub s.measures), r.seq⟩ := by
  have hp : (s.openPayload (s.scrubOpenArgs args)).Printable 127 := openPayload_printable _
  have hread := fromStr_scrubToCanonical hc hp
  have hid : (s.stored (s.openPayload (s.scrubOpenArgs args))).fieldStr "pr_id" =
      some (structuralSecretScrub s.measures args.prId) := by
    rw [fieldStr_stored_address hp (by decide) (by decide)]
    exact congrArg some (structuralSecretScrub_idem _ _)
  have hcampaign : (s.stored (s.openPayload (s.scrubOpenArgs args))).fieldStr "campaign" =
      some (structuralSecretScrub s.measures args.campaign) := by
    rw [fieldStr_stored_address hp (by decide) (by decide)]
    exact congrArg some (structuralSecretScrub_idem _ _)
  have hauthor : (s.stored (s.openPayload (s.scrubOpenArgs args))).fieldStr "author_kind" =
      some args.authorKind.asStr := by
    rw [fieldStr_stored_freeText hp (by decide) (by decide) (by decide)]
    exact congrArg some (redactText_authorKind _ _)
  have hintents : ((s.stored (s.openPayload (s.scrubOpenArgs args))).get "intent_ids").bind Value.strings =
      some (args.intentIds.map (redactText s.measures)) := by
    have hitem : s.storedItem "intent_ids" = redactText s.measures := funext fun _ => if_neg (by decide)
    rw [strings_stored hp, hitem]
    show (Value.strings (.array ((args.intentIds.map (redactText s.measures)).map .string))).map _ = _
    rw [strings_texts, Option.map_some, List.map_map]
    simp [Function.comp_def]
  have hcommits : ((s.stored (s.openPayload (s.scrubOpenArgs args))).get "commit_ids").bind Value.strings =
      some (args.commitIds.map (structuralSecretScrub s.measures)) := by
    have hitem : s.storedItem "commit_ids" = structuralSecretScrub s.measures := funext fun _ => if_pos (by decide)
    rw [strings_stored hp, hitem]
    show (Value.strings (.array ((args.commitIds.map (structuralSecretScrub s.measures)).map fun oid =>
      .string (structuralSecretScrub s.measures oid)))).map _ = _
    simp [Value.strings, Function.comp_def]
  rw [parseOpened, hr, canonicalOpenPayload, hread]
  simp only [Option.bind_eq_bind, Option.bind_some, hid, hcampaign, hauthor, hintents, hcommits, parse_asStr]
  rfl

theorem prQueuedPayload_printable (prId itemId : String) {orderIndex : Nat} (h : orderIndex < 2 ^ 64) :
    (prQueuedPayload prId itemId orderIndex).Printable 127 := by
  have hflat : (prQueuedPayload prId itemId orderIndex).Flat := by
    simpa [prQueuedPayload, Value.Flat, Value.IsLeaf] using h
  exact hflat.printable 126

theorem parseQueued_stored (hc : s.crates.Json) {prId itemId : String} {orderIndex : Nat} (h : orderIndex < 2 ^ 64)
    {r : EventRecord} (hr : r.payload = s.scrubToCanonical (prQueuedPayload prId itemId orderIndex)) :
    parseQueued s.crates r =
      some ⟨structuralSecretScrub s.measures prId, redactText s.measures itemId, orderIndex⟩ := by
  have hp := prQueuedPayload_printable prId itemId h
  have hread := fromStr_scrubToCanonical hc hp
  have hid : (s.stored (prQueuedPayload prId itemId orderIndex)).fieldStr "pr_id" =
      some (structuralSecretScrub s.measures prId) := by
    rw [fieldStr_stored_address hp (by decide) (by decide)]
    rfl
  have hitem : (s.stored (prQueuedPayload prId itemId orderIndex)).fieldStr "item_id" =
      some (redactText s.measures itemId) := by
    rw [fieldStr_stored_freeText hp (by decide) (by decide) (by decide)]
    rfl
  have hindex : ((s.stored (prQueuedPayload prId itemId orderIndex)).get "order_index").bind Value.asU64 =
      some orderIndex := by
    rw [u64_stored hp]
    rfl
  rw [parseQueued, hr, hread]
  simp only [Option.bind_eq_bind, Option.bind_some, hid, hitem, hindex]
  rfl

theorem prLandedPayload_printable (opened : OpenedPr) (prId : String) :
    (prLandedPayload opened prId).Printable 127 := by
  have hflat : (prLandedPayload opened prId).Flat := by simp [prLandedPayload, Value.Flat, Value.IsLeaf]
  exact hflat.printable 126

theorem prAbandonedPayload_printable (prId reason : String) : (prAbandonedPayload prId reason).Printable 127 := by
  have hflat : (prAbandonedPayload prId reason).Flat := by simp [prAbandonedPayload, Value.Flat, Value.IsLeaf]
  exact hflat.printable 126

end Scrubber

inductive PrCall (ω : Type) where
  | openPr (args : OpenArgs)
  | landPr (args : LandArgs)
  | settlePr (args : SettleArgs)
  | abandonPr (args : AbandonArgs)
  | batchLand (args : BatchLandArgs) (w : ω)

def PrCall.run {ω : Type} (s : Scrubber) (host : LandHost ω) (log : EventLog) : PrCall ω → EventLog
  | openPr args => (s.openPr log args).2
  | landPr args => (s.landPr log args).2
  | settlePr args => (s.settlePr log args).2
  | abandonPr args => (s.abandonPr log args).2
  | batchLand args w => (s.batchLandInContext host log args w).2.1

def runPrCalls {ω : Type} (s : Scrubber) (host : LandHost ω) (calls : List (PrCall ω)) (log : EventLog) : EventLog :=
  calls.foldl (fun log call => call.run s host log) log

def OpenArgs.opened (args : OpenArgs) (m : Measures) (seq : Nat) : OpenedPr where
  prId := structuralSecretScrub m args.prId
  campaign := structuralSecretScrub m args.campaign
  authorKind := args.authorKind
  intentIds := args.intentIds.map (redactText m)
  commitIds := args.commitIds.map (structuralSecretScrub m)
  seq := seq

structure Opening (s : Scrubber) (log : EventLog) (args : OpenArgs) (r : EventRecord) : Prop where
  kind : r.kind = prOpenedKind
  unopened : findPrOpened s.crates log (structuralSecretScrub s.measures args.prId) = none
  parsed : parseOpened s.crates r = some (args.opened s.measures r.seq)

structure Queueing (s : Scrubber) (log : EventLog) (args : LandArgs) (r : EventRecord) : Prop where
  kind : r.kind = prQueuedKind
  opened : ∃ o, findPrOpened s.crates log (structuralSecretScrub s.measures args.prId) = some o ∧
    (o.intentIds ≠ [] ∨ o.commitIds ≠ [])
  notLanded : prIsLanded s.crates log (structuralSecretScrub s.measures args.prId) = false
  notQueued : findPrQueued s.crates log (structuralSecretScrub s.measures args.prId) = none
  fresh : ∀ q ∈ allPrQueued s.crates log, q.orderIndex ≠ nextOrderIndex (allPrQueued s.crates log)
  parsed : parseQueued s.crates r = some ⟨structuralSecretScrub s.measures args.prId,
    redactText s.measures (queueItemId (structuralSecretScrub s.measures args.prId)
      (nextOrderIndex (allPrQueued s.crates log))), nextOrderIndex (allPrQueued s.crates log)⟩
  unscoped : ∃ v, s.crates.fromStr r.payload = some v ∧ v.fieldStr "campaign" = none

structure Abandoning (s : Scrubber) (log : EventLog) (args : AbandonArgs) (r : EventRecord) : Prop where
  kind : r.kind = prAbandonedKind
  opened : ∃ o, findPrOpened s.crates log (structuralSecretScrub s.measures args.prId) = some o
  notLanded : prIsLanded s.crates log (structuralSecretScrub s.measures args.prId) = false
  notAbandoned : findPrAbandonedReason s.crates log (structuralSecretScrub s.measures args.prId) = none
  parsed : ∃ v, s.crates.fromStr r.payload = some v ∧
    v.fieldStr "pr_id" = some (structuralSecretScrub s.measures args.prId) ∧
    v.fieldStr "reason" = some (redactText s.measures args.reason)

/-- Records that land distinct PRs of the active queue, among others that are no
part of a PR's life. -/
structure Landings (s : Scrubber) (log : EventLog) (rs : List EventRecord) : Prop where
  kinds : ∀ r ∈ rs, r.kind ≠ prOpenedKind ∧ r.kind ≠ prQueuedKind ∧ r.kind ≠ prAbandonedKind
  nodup : (EventLog.prIds s.crates ⟨rs⟩ prLandedKind).Nodup
  active : ∀ id ∈ EventLog.prIds s.crates ⟨rs⟩ prLandedKind, ∃ q ∈ allPrQueued s.crates log, q.prId = id

namespace Landings

variable {s : Scrubber} {log : EventLog} {rs : List EventRecord} {r : EventRecord}

theorem nil : Landings s log [] :=
  ⟨nofun, List.nodup_nil, nofun⟩

theorem append_other (h : Landings s log rs) {others : List EventRecord}
    (hk : ∀ r ∈ others, (r.kind ≠ prOpenedKind ∧ r.kind ≠ prQueuedKind ∧ r.kind ≠ prAbandonedKind) ∧
      r.kind ≠ prLandedKind) : Landings s log (rs ++ others) := by
  have hids : EventLog.prIds s.crates ⟨rs ++ others⟩ prLandedKind = EventLog.prIds s.crates ⟨rs⟩ prLandedKind := by
    rw [@prIds_append _ ⟨rs⟩, prIds_eq_nil fun r hr => (hk r hr).2, List.append_nil]
  refine ⟨?_, hids ▸ h.nodup, hids ▸ h.active⟩
  intro x hx
  rcases List.mem_append.mp hx with hx | hx
  · exact h.kinds x hx
  · exact (hk x hx).1

theorem concat_landed (h : Landings s log rs) (hk : r.kind = prLandedKind) {id : String}
    (hid : EventLog.prIds s.crates ⟨[r]⟩ prLandedKind = [id])
    (hfresh : id ∉ EventLog.prIds s.crates ⟨rs⟩ prLandedKind) (hactive : ∃ q ∈ allPrQueued s.crates log, q.prId = id) :
    Landings s log (rs ++ [r]) := by
  have hids : EventLog.prIds s.crates ⟨rs ++ [r]⟩ prLandedKind = EventLog.prIds s.crates ⟨rs⟩ prLandedKind ++ [id] := by
    rw [@prIds_append _ ⟨rs⟩, hid]
  refine ⟨?_, ?_, ?_⟩
  · intro x hx
    rcases List.mem_append.mp hx with hx | hx
    · exact h.kinds x hx
    · rw [List.mem_singleton.mp hx, hk]
      decide
  · rw [hids, List.nodup_append]
    refine ⟨h.nodup, List.nodup_singleton _, fun a ha b hb => ?_⟩
    rw [List.mem_singleton.mp hb]
    exact fun he => hfresh (he ▸ ha)
  · intro x hx
    rw [hids] at hx
    rcases List.mem_append.mp hx with hx | hx
    · exact h.active x hx
    · rw [List.mem_singleton.mp hx]
      exact hactive

end Landings

inductive PrCall.Effect {ω : Type} (s : Scrubber) (log : EventLog) : PrCall ω → List EventRecord → Prop
  | nothing (call : PrCall ω) : Effect s log call []
  | opened {args : OpenArgs} {r : EventRecord} (h : Opening s log args r) : Effect s log (.openPr args) [r]
  | queued {args : LandArgs} {r : EventRecord} (h : Queueing s log args r) : Effect s log (.landPr args) [r]
  | abandoned {args : AbandonArgs} {r : EventRecord} (h : Abandoning s log args r) :
      Effect s log (.abandonPr args) [r]
  | settled {args : SettleArgs} {rs : List EventRecord} (h : Landings s log rs)
      (hid : EventLog.prIds s.crates ⟨rs⟩ prLandedKind = [structuralSecretScrub s.measures args.prId]) :
      Effect s log (.settlePr args) rs
  | batched {args : BatchLandArgs} {w : ω} {rs : List EventRecord} (h : Landings s log rs) :
      Effect s log (.batchLand args w) rs

namespace Scrubber

variable {s : Scrubber} {log : EventLog}

theorem openPr_effect (hc : s.crates.Json) (log : EventLog) (args : OpenArgs) :
    ((s.openPr log args).2 = log ∧
      (findPrOpened s.crates log (structuralSecretScrub s.measures args.prId) ≠ none ∨
        validateOpen s.crates log (s.scrubOpenArgs args) ≠ .ok ())) ∨
    ∃ r, Opening s log args r ∧ (s.openPr log args).2 = ⟨log.records ++ [r]⟩ := by
  unfold openPr
  dsimp only
  split
  next existing hsome =>
    have hopened : findPrOpened s.crates log (structuralSecretScrub s.measures args.prId) ≠ none := by
      intro hnone
      rw [show findPrOpened s.crates log (s.scrubOpenArgs args).prId = none from hnone] at hsome
      cases hsome
    split_ifs
    · exact .inl ⟨rfl, .inl hopened⟩
    · exact .inl ⟨rfl, .inl hopened⟩
  next hnone =>
  split
  next e hinvalid => exact .inl ⟨rfl, .inr (by rw [hinvalid]; nofun)⟩
  · rw [appendAsAuthor_eq]
    have hparse := @parseOpened_canonicalOpenPayload s hc args (EventLog.nextRecord s.crates log.records prOpenedKind
      (authorPrincipalChain (s.scrubOpenArgs args).authorKind (s.scrubOpenArgs args).runId
        (s.scrubOpenArgs args).principal) _ (s.scrubOpenArgs args).recordedAt) rfl
    refine .inr ⟨_, ⟨rfl, hnone, hparse⟩, ?_⟩
    dsimp only
    split <;> rfl

theorem landPr_effect (hc : s.crates.Json) (log : EventLog) (args : LandArgs) : (s.landPr log args).2 = log ∨
    ∃ r, Queueing s log args r ∧ (s.landPr log args).2 = ⟨log.records ++ [r]⟩ := by
  unfold landPr
  dsimp only
  split
  · exact .inl rfl
  next opened hopened =>
  split_ifs with hl he
  · exact .inl rfl
  · exact .inl rfl
  split
  · exact .inl rfl
  next hq =>
  split
  · exact .inl rfl
  next batch hbatch =>
  split
  · exact .inl rfl
  rw [appendAsAuthor_eq]
  obtain ⟨hnd, -⟩ := Batch.tryFromEntries_eq_ok.mp hbatch
  have hlt : nextOrderIndex (allPrQueued s.crates log) < 2 ^ 64 := Nat.mod_lt _ (by decide)
  refine .inr ⟨_, ⟨rfl, ⟨opened, hopened, ?_⟩, by simpa using hl, hq, ?_, ?_, ?_⟩, rfl⟩
  · by_contra hempty
    simp only [not_or, ne_eq, not_not] at hempty
    exact he (by simp [hempty])
  · intro q hq' he'
    rw [queueEntries, List.map_append, List.nodup_append] at hnd
    refine hnd.2.2 q.orderIndex ?_ _ (List.mem_singleton_self _) he'
    exact List.mem_map.mpr ⟨_, List.mem_map_of_mem hq', rfl⟩
  · rw [parseQueued_stored hc hlt rfl, structuralSecretScrub_idem]
  · have hp := prQueuedPayload_printable (structuralSecretScrub s.measures args.prId)
      (queueItemId (structuralSecretScrub s.measures args.prId) (nextOrderIndex (allPrQueued s.crates log))) hlt
    refine ⟨_, fromStr_scrubToCanonical hc hp, ?_⟩
    rw [fieldStr_stored_address hp (by decide) (by decide)]
    rfl

theorem abandonPr_effect (hc : s.crates.Json) (log : EventLog) (args : AbandonArgs) :
    ((s.abandonPr log args).2 = log ∧
      (findPrOpened s.crates log (structuralSecretScrub s.measures args.prId) = none ∨
        prIsLanded s.crates log (structuralSecretScrub s.measures args.prId) = true ∨
        findPrAbandonedReason s.crates log (structuralSecretScrub s.measures args.prId) ≠ none)) ∨
    ∃ r, Abandoning s log args r ∧ (s.abandonPr log args).2 = ⟨log.records ++ [r]⟩ := by
  unfold abandonPr
  dsimp only
  split
  next hnone => exact .inl ⟨rfl, .inl hnone⟩
  next opened hopened =>
  split_ifs with hl
  · exact .inl ⟨rfl, .inr (.inl hl)⟩
  split
  next hsome => exact .inl ⟨rfl, .inr (.inr (by rw [hsome]; nofun))⟩
  next hnone =>
  rw [appendAsAuthor_eq]
  have hp := prAbandonedPayload_printable (structuralSecretScrub s.measures args.prId)
    (redactText s.measures args.reason)
  refine .inr ⟨_, ⟨rfl, ⟨opened, hopened⟩, by simpa using hl, hnone, ?_⟩, rfl⟩
  refine ⟨_, fromStr_scrubToCanonical hc hp, ?_, ?_⟩
  · rw [fieldStr_stored_address hp (by decide) (by decide)]
    exact congrArg some (structuralSecretScrub_idem _ _)
  · rw [fieldStr_stored_freeText hp (by decide) (by decide) (by decide)]
    exact congrArg some (redactText_redactText _ _)

theorem prIds_landed (hc : s.crates.Json) {opened : OpenedPr} {prId : String}
    (hid : structuralSecretScrub s.measures prId = prId) {r : EventRecord} (hk : r.kind = prLandedKind)
    (hr : r.payload = s.scrubToCanonical (prLandedPayload opened prId)) :
    EventLog.prIds s.crates ⟨[r]⟩ prLandedKind = [prId] := by
  have hp := prLandedPayload_printable opened prId
  have hread : s.crates.fromStr r.payload = some (s.stored (prLandedPayload opened prId)) := by
    rw [hr]
    exact fromStr_scrubToCanonical hc hp
  have hfield : (s.stored (prLandedPayload opened prId)).fieldStr "pr_id" = some prId := by
    rw [fieldStr_stored_address hp (by decide) (by decide)]
    exact congrArg some hid
  simp [EventLog.prIds, EventLog.payloads, hk, hread, hfield]

def Lands (s : Scrubber) (log : EventLog) (ids : List String) (rs : List EventRecord) : Prop :=
  Landings s log rs ∧ EventLog.prIds s.crates ⟨rs⟩ prLandedKind = ids

def Captured (rs : List EventRecord) : Prop :=
  ∀ r ∈ rs, r.kind = intentEnvelopeKind ∨ r.kind = prEnvelopeKind

variable {recordedAt : Nat} {rs : List EventRecord}

theorem captureEnvelope_appends {author : AuthorKind} {kind : String}
    (hk : kind = intentEnvelopeKind ∨ kind = prEnvelopeKind) {envelope : EventLog → Option String}
    {captured : Nat × EventLog} (h : Captured rs) (hlog : captured.2 = ⟨log.records ++ rs⟩) :
    ∃ rs, Captured rs ∧ (s.captureEnvelope author kind recordedAt envelope captured).2 = ⟨log.records ++ rs⟩ := by
  unfold captureEnvelope
  split
  · exact ⟨rs, h, hlog⟩
  · rw [appendAsAuthor_eq]
    refine ⟨rs ++ [_], fun r hr => ?_, by rw [hlog, ← List.append_assoc]⟩
    rcases List.mem_append.mp hr with hr | hr
    · exact h r hr
    · rw [List.mem_singleton.mp hr]
      exact hk

theorem captureOnLand_appends (log : EventLog) (opened : OpenedPr) (envelopes : Envelopes) (recordedAt : Nat) :
    ∃ rs, Captured rs ∧ (s.captureOnLand log opened envelopes recordedAt).2 = ⟨log.records ++ rs⟩ := by
  have hfold : ∀ (intentIds : List String) (captured : Nat × EventLog),
      (∃ rs, Captured rs ∧ captured.2 = ⟨log.records ++ rs⟩) →
      ∃ rs, Captured rs ∧ (intentIds.foldl (fun captured id => s.captureEnvelope opened.authorKind
        intentEnvelopeKind recordedAt (fun log => envelopes.intentEnvelope log opened id) captured) captured).2 =
          ⟨log.records ++ rs⟩ := by
    intro intentIds
    induction intentIds with
    | nil => exact fun _ hcaptured => hcaptured
    | cons id intentIds ih =>
      rintro captured ⟨rs, hrs, hlog⟩
      exact ih _ (captureEnvelope_appends (.inl rfl) hrs hlog)
  obtain ⟨rs, hrs, hlog⟩ := hfold opened.intentIds (0, log) ⟨[], nofun, by rw [List.append_nil]⟩
  exact captureEnvelope_appends (.inr rfl) hrs hlog

theorem captureOnLand_lands (opened : OpenedPr) (envelopes : Envelopes) (recordedAt : Nat) {ids : List String}
    (h : Lands s log ids rs) :
    ∃ rs', Lands s log ids rs' ∧
      (s.captureOnLand ⟨log.records ++ rs⟩ opened envelopes recordedAt).2 = ⟨log.records ++ rs'⟩ := by
  obtain ⟨captured, hcaptured, hlog⟩ := captureOnLand_appends (s := s) ⟨log.records ++ rs⟩ opened envelopes recordedAt
  have hother : ∀ r ∈ captured, (r.kind ≠ prOpenedKind ∧ r.kind ≠ prQueuedKind ∧ r.kind ≠ prAbandonedKind) ∧
      r.kind ≠ prLandedKind := by
    intro r hr
    rcases hcaptured r hr with hk | hk <;> rw [hk] <;> decide
  refine ⟨rs ++ captured, ⟨h.1.append_other hother, ?_⟩, by rw [hlog, List.append_assoc]⟩
  rw [@prIds_append _ ⟨rs⟩, prIds_eq_nil fun r hr => (hother r hr).2, List.append_nil, h.2]

theorem settlePr_effect (hc : s.crates.Json) (log : EventLog) (args : SettleArgs) :
    ((s.settlePr log args).2 = log ∧
      (findPrOpened s.crates log (structuralSecretScrub s.measures args.prId) = none ∨
        prIsLanded s.crates log (structuralSecretScrub s.measures args.prId) = true ∨
        findPrQueued s.crates log (structuralSecretScrub s.measures args.prId) = none)) ∨
    ∃ rs, Lands s log [structuralSecretScrub s.measures args.prId] rs ∧
      (s.settlePr log args).2 = ⟨log.records ++ rs⟩ := by
  unfold settlePr
  dsimp only
  split
  next hnone => exact .inl ⟨rfl, .inl hnone⟩
  next opened hopened =>
  split_ifs with hl hq
  · exact .inl ⟨rfl, .inr (.inl hl)⟩
  · exact .inl ⟨rfl, .inr (.inr (Option.isNone_iff_eq_none.mp hq))⟩
  rw [appendAsAuthor_eq]
  have hactive : ∃ q ∈ allPrQueued s.crates log, q.prId = structuralSecretScrub s.measures args.prId := by
    rw [Option.isNone_iff_eq_none, findPrQueued_eq_none] at hq
    simpa using hq
  have hids := @prIds_landed s hc opened _ (structuralSecretScrub_idem s.measures args.prId)
    (EventLog.nextRecord s.crates log.records prLandedKind [] (s.scrubToCanonical (prLandedPayload opened
      (structuralSecretScrub s.measures args.prId))) args.recordedAt) rfl rfl
  have hland := Landings.nil.concat_landed rfl hids List.not_mem_nil hactive
  exact .inr (captureOnLand_lands opened args.envelopes args.recordedAt ⟨hland, hids⟩)

structure PrLog (s : Scrubber) (log : EventLog) : Prop where
  addresses : ∀ q ∈ queuedPrs s.crates log, structuralSecretScrub s.measures q.prId = q.prId
  items : ∀ q ∈ queuedPrs s.crates log, q.itemId = redactText s.measures (queueItemId q.prId q.orderIndex)
  named : log.prIds s.crates prQueuedKind = (queuedPrs s.crates log).map (·.prId)
  reasoned : ∀ v ∈ log.payloads s.crates prAbandonedKind, (v.fieldStr "reason").isSome = true

variable {staged : EventLog}

theorem landOne_landings (hc : s.crates.Json) {opened : OpenedPr} (h : Landings s log rs)
    (hid : structuralSecretScrub s.measures opened.prId = opened.prId)
    (hactive : ∃ q ∈ allPrQueued s.crates log, q.prId = opened.prId)
    (hland : s.landOne ⟨log.records ++ rs⟩ opened recordedAt = .ok staged) :
    ∃ rs', Landings s log rs' ∧ staged = ⟨log.records ++ rs'⟩ := by
  rw [landOne] at hland
  split_ifs at hland with hl
  · obtain rfl := Except.ok.inj hland
    exact ⟨rs, h, rfl⟩
  · rw [appendAsAuthor_eq] at hland
    obtain rfl := Except.ok.inj hland
    refine ⟨rs ++ [_], h.concat_landed rfl (prIds_landed hc hid rfl rfl) (fun hmem => hl ?_) hactive,
      by rw [← List.append_assoc]⟩
    rw [prIsLanded_iff, prIds_append]
    exact List.mem_append_right _ hmem

theorem mem_batchMembers {c : Crates} {campaign : Option String} {m : BatchMember}
    (h : m ∈ batchMembers c log campaign) :
    m.1 ∈ allPrQueued c log ∧ findPrOpened c log m.1.prId = some m.2 ∧ campaign.all (m.2.campaign = ·) = true := by
  obtain ⟨hm, hcampaign⟩ := List.mem_filter.mp h
  obtain ⟨q, hq, hopened⟩ := List.mem_filterMap.mp hm
  obtain ⟨o, ho, rfl⟩ := Option.map_eq_some_iff.mp hopened
  exact ⟨(List.perm_insertionSort _ _).mem_iff.mp hq, ho, hcampaign⟩

theorem landProceeding_keeps {P : List EventRecord → Prop} (hnil : P []) {members : List BatchMember}
    (hstep : ∀ m ∈ members, ∀ rs staged, P rs → s.landOne ⟨log.records ++ rs⟩ m.2 recordedAt = .ok staged →
      ∃ rs', P rs' ∧ staged = ⟨log.records ++ rs'⟩) {proceeding : List String}
    (h : s.landProceeding log members proceeding recordedAt = .ok staged) :
    ∃ rs, P rs ∧ staged = ⟨log.records ++ rs⟩ := by
  have hkept := foldlM_keeps (P := fun (rest : List BatchMember) (staged : EventLog) =>
    (∀ m ∈ rest, m ∈ members) ∧ ∃ rs, P rs ∧ staged = ⟨log.records ++ rs⟩) ?_
      ⟨fun m hm => hm, [], hnil, by rw [List.append_nil]⟩ h
  · exact hkept.2
  · rintro m rest _ staged' ⟨hrest, rs, hrs, rfl⟩ hland
    refine ⟨fun m hm => hrest m (List.mem_cons_of_mem _ hm), ?_⟩
    split_ifs at hland with hp
    · exact hstep m (hrest m List.mem_cons_self) rs staged' hrs hland
    · obtain rfl := Except.ok.inj hland
      exact ⟨rs, hrs, rfl⟩

theorem stageBatch_appends {members : List BatchMember} {campaign : Option String} {ev : UnionEvaluation}
    {proceeding excluded : List String}
    (h : s.stageBatch log members campaign ev proceeding excluded recordedAt = .ok staged) :
    ∃ landed fails, s.landProceeding log members proceeding recordedAt = .ok landed ∧
      staged = ⟨landed.records ++ fails⟩ ∧ (∀ r ∈ fails, r.kind = queueUnionFailKind) ∧
      fails.length = if ev.verdict = .red ∧ ev.failure.isSome = true then 1 else 0 := by
  obtain ⟨landed, hland, hrest⟩ := bind_eq_ok.mp h
  dsimp only at hrest
  split at hrest
  next locus hred hfailure =>
    obtain rfl := Except.ok.inj hrest
    refine ⟨landed, [_], hland, rfl, fun r hr => ?_, by rw [if_pos ⟨hred, by rw [hfailure]; rfl⟩]; rfl⟩
    rw [List.mem_singleton.mp hr]
    rfl
  next hother =>
    obtain rfl := Except.ok.inj hrest
    refine ⟨landed, [], hland, by rw [List.append_nil], nofun, (if_neg ?_).symm⟩
    rintro ⟨hred, hsome⟩
    obtain ⟨locus, hlocus⟩ := Option.isSome_iff_exists.mp hsome
    exact hother locus hred hlocus

theorem stageBatch_landings (hc : s.crates.Json) (hlog : PrLog s log) {campaign scope : Option String}
    {ev : UnionEvaluation} {proceeding excluded : List String}
    (h : s.stageBatch log (batchMembers s.crates log scope) campaign ev proceeding excluded recordedAt = .ok staged) :
    ∃ rs, Landings s log rs ∧ staged = ⟨log.records ++ rs⟩ := by
  obtain ⟨landed, fails, hland, rfl, hfails, -⟩ := stageBatch_appends h
  have hstep : ∀ m ∈ batchMembers s.crates log scope, ∀ rs staged, Landings s log rs →
      s.landOne ⟨log.records ++ rs⟩ m.2 recordedAt = .ok staged →
        ∃ rs', Landings s log rs' ∧ staged = ⟨log.records ++ rs'⟩ := by
    intro m hm rs staged hrs hland
    obtain ⟨hq, hopened, -⟩ := mem_batchMembers hm
    have hsame := (mem_openedPrs_of_findPrOpened hopened).2
    refine landOne_landings hc hrs ?_ ⟨m.1, hq, hsame.symm⟩ hland
    rw [allPrQueued_eq] at hq
    rw [hsame]
    exact hlog.addresses _ (List.mem_filter.mp hq).1
  obtain ⟨rs, hrs, rfl⟩ := landProceeding_keeps .nil hstep hland
  refine ⟨rs ++ fails, hrs.append_other fun r hr => ?_, congrArg EventLog.mk (List.append_assoc _ _ _)⟩
  rw [hfails r hr]
  decide

/-- A batch that lands: the members were evaluated to the end, what they may proceed
with was authorized and staged. -/
structure BatchLanding {ω : Type} (s : Scrubber) (host : LandHost ω) (log : EventLog) (args : BatchLandArgs) (w : ω)
    (ev : UnionEvaluation) (proceeding excluded : List String) : Prop where
  evaluated : ∃ batch, Batch.tryFromEntries "land-queue" ((batchMembers s.crates log args.campaign).map memberEntry) =
      .ok batch ∧
    ev = (evaluateUnionInContext (logMemoOracle host (batchContent (batchMembers s.crates log args.campaign))
      (conflictPairs (batchContent (batchMembers s.crates log args.campaign)))) batch args.limits args.context w).1 ∧
    ∃ now later, ev.authorizeFor batch args.context now later = some (proceeding, excluded)
  ended : ev.stopReason = none
  staged : s.stageBatch log (batchMembers s.crates log args.campaign) args.campaign ev proceeding excluded
    args.recordedAt = .ok (s.batchLandInContext host log args w).2.1
  reported : (s.batchLandInContext host log args w).1 =
    .ok (landedSummary ev args.campaign ((batchMembers s.crates log args.campaign).map (·.1.prId))
      (((batchMembers s.crates log args.campaign).map (·.1.prId)).filter (· ∈ proceeding)) excluded)

variable {ω : Type}

theorem landEvaluated_cases (host : LandHost ω) (log : EventLog) (members : List BatchMember)
    (args : BatchLandArgs) (batch : Batch) (ev : UnionEvaluation) (w : ω) :
    ((s.landEvaluated host log members args batch ev w).2.1 = log ∧
      ∀ report, (s.landEvaluated host log members args batch ev w).1 = .ok report →
        report.stopReason ≠ none ∧ report.landed = []) ∨
    ev.stopReason = none ∧ ∃ proceeding excluded,
      (∃ now later, ev.authorizeFor batch args.context now later = some (proceeding, excluded)) ∧
      s.stageBatch log members args.campaign ev proceeding excluded args.recordedAt =
        .ok (s.landEvaluated host log members args batch ev w).2.1 ∧
      (s.landEvaluated host log members args batch ev w).1 =
        .ok (landedSummary ev args.campaign (members.map (·.1.prId))
          ((members.map (·.1.prId)).filter (· ∈ proceeding)) excluded) := by
  have hheld : ∀ reason report, (Except.ok (heldSummary ev args.campaign (members.map (·.1.prId)) reason) :
      Except BatchLandError BatchReport) = .ok report → report.stopReason ≠ none ∧ report.landed = [] := by
    rintro reason _ ⟨⟩
    exact ⟨nofun, rfl⟩
  unfold landEvaluated
  dsimp only
  split
  · exact .inl ⟨rfl, hheld _⟩
  next hstop =>
  split_ifs
  · exact .inl ⟨rfl, hheld _⟩
  split
  · exact .inl ⟨rfl, hheld _⟩
  next proceeding excluded w' hauth =>
  split
  · exact .inl ⟨rfl, fun _ h => by cases h⟩
  next staged hstaged =>
  split_ifs
  · exact .inl ⟨rfl, hheld _⟩
  split
  · exact .inl ⟨rfl, hheld _⟩
  · exact .inr ⟨hstop, proceeding, excluded, ⟨_, _, congrArg Prod.fst hauth⟩, hstaged, rfl⟩

theorem batchLand_cases (host : LandHost ω) (log : EventLog) (args : BatchLandArgs) (w : ω) :
    ((s.batchLandInContext host log args w).2.1 = log ∧
      ∀ report, (s.batchLandInContext host log args w).1 = .ok report →
        report.stopReason ≠ none ∧ report.landed = [] ∨ report = emptySummary args.campaign) ∨
    ∃ ev proceeding excluded, BatchLanding s host log args w ev proceeding excluded := by
  by_cases hempty : (batchMembers s.crates log args.campaign).isEmpty = true
  · have hres : s.batchLandInContext host log args w = (.ok (emptySummary args.campaign), log, w) := by
      rw [batchLandInContext, if_pos hempty]
    rw [hres]
    exact .inl ⟨rfl, fun report h => .inr (Except.ok.inj h).symm⟩
  cases hbatch : Batch.tryFromEntries "land-queue" ((batchMembers s.crates log args.campaign).map memberEntry) with
  | error e =>
    have hres : s.batchLandInContext host log args w = (.error .panicked, log, w) := by
      rw [batchLandInContext, if_neg hempty, hbatch]
    rw [hres]
    exact .inl ⟨rfl, fun _ h => by cases h⟩
  | ok batch =>
    generalize hev : evaluateUnionInContext (logMemoOracle host (batchContent (batchMembers s.crates log args.campaign))
      (conflictPairs (batchContent (batchMembers s.crates log args.campaign)))) batch args.limits args.context w = run
    have hres : s.batchLandInContext host log args w =
        s.landEvaluated host log (batchMembers s.crates log args.campaign) args batch run.1 run.2 := by
      rw [batchLandInContext, if_neg hempty, hbatch]
      dsimp only
      rw [hev]
    rcases landEvaluated_cases (s := s) host log (batchMembers s.crates log args.campaign) args batch run.1 run.2 with
      ⟨hsame, hheld⟩ | ⟨hstop, proceeding, excluded, hauth, hstaged, hreport⟩
    · rw [hres]
      exact .inl ⟨hsame, fun report h => .inl (hheld report h)⟩
    · rw [← hres] at hstaged hreport
      exact .inr ⟨run.1, proceeding, excluded, ⟨batch, hbatch, by rw [hev], hauth⟩, hstop, hstaged, hreport⟩

theorem batchLand_effect (hc : s.crates.Json) (hlog : PrLog s log) (host : LandHost ω) (args : BatchLandArgs)
    (w : ω) :
    ∃ rs, Landings s log rs ∧ (s.batchLandInContext host log args w).2.1 = ⟨log.records ++ rs⟩ := by
  rcases batchLand_cases host log args w with ⟨hsame, -⟩ | ⟨ev, proceeding, excluded, h⟩
  · exact ⟨[], .nil, by rw [hsame, List.append_nil]⟩
  · exact stageBatch_landings hc hlog h.staged

section Filed

/-- What a settlement or a batch appends: landings under the address and the campaign
of an opened PR, and records that are no part of a PR's life. -/
def Filed (s : Scrubber) (log : EventLog) (r : EventRecord) : Prop :=
  r.kind ∈ [intentEnvelopeKind, prEnvelopeKind, queueUnionFailKind] ∨
    r.kind = prLandedKind ∧ ∃ o ∈ openedPrs s.crates log, r.payload = s.scrubToCanonical (prLandedPayload o o.prId)

theorem settlePr_filed (log : EventLog) (args : SettleArgs) :
    ∃ rs, (∀ r ∈ rs, Filed s log r) ∧ (s.settlePr log args).2 = ⟨log.records ++ rs⟩ := by
  have hnothing : ∃ rs, (∀ r ∈ rs, Filed s log r) ∧ log = ⟨log.records ++ rs⟩ := ⟨[], nofun, by rw [List.append_nil]⟩
  unfold settlePr
  dsimp only
  split
  · exact hnothing
  next opened hopened =>
  split_ifs
  · exact hnothing
  · exact hnothing
  rw [appendAsAuthor_eq]
  obtain ⟨ho, hid⟩ := mem_openedPrs_of_findPrOpened hopened
  obtain ⟨rs, hrs, hlog⟩ := captureOnLand_appends (s := s)
    ⟨log.records ++ [EventLog.nextRecord s.crates log.records prLandedKind []
      (s.scrubToCanonical (prLandedPayload opened (structuralSecretScrub s.measures args.prId))) args.recordedAt]⟩
    opened args.envelopes args.recordedAt
  refine ⟨_ :: rs, fun r hr => ?_, hlog.trans (by rw [List.append_assoc, List.singleton_append])⟩
  rcases List.mem_cons.mp hr with rfl | hr
  · exact .inr ⟨rfl, opened, ho, by rw [hid]; rfl⟩
  · rcases hrs r hr with hk | hk <;> exact .inl (by simp [hk])

theorem landOne_filed {o : OpenedPr} (ho : o ∈ openedPrs s.crates log) {recordedAt : Nat} {rs : List EventRecord}
    (hrs : ∀ r ∈ rs, Filed s log r) {staged : EventLog}
    (h : s.landOne ⟨log.records ++ rs⟩ o recordedAt = .ok staged) :
    ∃ rs', (∀ r ∈ rs', Filed s log r) ∧ staged = ⟨log.records ++ rs'⟩ := by
  rw [landOne] at h
  split_ifs at h
  · obtain rfl := Except.ok.inj h
    exact ⟨rs, hrs, rfl⟩
  · rw [appendAsAuthor_eq] at h
    obtain rfl := Except.ok.inj h
    refine ⟨rs ++ [_], fun r hr => ?_, by rw [← List.append_assoc]⟩
    rcases List.mem_append.mp hr with hr | hr
    · exact hrs r hr
    · rw [List.mem_singleton.mp hr]
      exact .inr ⟨rfl, o, ho, rfl⟩

theorem batchLand_filed {ω : Type} (host : LandHost ω) (log : EventLog) (args : BatchLandArgs) (w : ω) :
    ∃ rs, (∀ r ∈ rs, Filed s log r) ∧ (s.batchLandInContext host log args w).2.1 = ⟨log.records ++ rs⟩ := by
  rcases batchLand_cases host log args w with ⟨hsame, -⟩ | ⟨ev, proceeding, excluded, h⟩
  · exact ⟨[], nofun, by rw [hsame, List.append_nil]⟩
  obtain ⟨landed, fails, hland, hstaged, hfails, -⟩ := stageBatch_appends h.staged
  obtain ⟨rs, hrs, rfl⟩ := landProceeding_keeps (P := fun rs => ∀ r ∈ rs, Filed s log r) nofun
    (fun m hm rs staged hrs hland =>
      landOne_filed (mem_openedPrs_of_findPrOpened (mem_batchMembers hm).2.1).1 hrs hland) hland
  refine ⟨rs ++ fails, fun r hr => ?_, by rw [hstaged, List.append_assoc]⟩
  rcases List.mem_append.mp hr with hr | hr
  · exact hrs r hr
  · exact .inl (by rw [hfails r hr]; decide)

end Filed

end Scrubber

theorem PrCall.effect {s : Scrubber} (hc : s.crates.Json) {log : EventLog} (hlog : s.PrLog log) {ω : Type}
    (host : LandHost ω) (call : PrCall ω) :
    ∃ rs, call.Effect s log rs ∧ call.run s host log = ⟨log.records ++ rs⟩ := by
  have hsame : log = ⟨log.records ++ []⟩ := by rw [List.append_nil]
  cases call with
  | openPr args =>
    rcases Scrubber.openPr_effect hc log args with ⟨h, -⟩ | ⟨r, hr, h⟩
    · exact ⟨[], .nothing _, h.trans hsame⟩
    · exact ⟨[r], .opened hr, h⟩
  | landPr args =>
    rcases Scrubber.landPr_effect hc log args with h | ⟨r, hr, h⟩
    · exact ⟨[], .nothing _, h.trans hsame⟩
    · exact ⟨[r], .queued hr, h⟩
  | abandonPr args =>
    rcases Scrubber.abandonPr_effect hc log args with ⟨h, -⟩ | ⟨r, hr, h⟩
    · exact ⟨[], .nothing _, h.trans hsame⟩
    · exact ⟨[r], .abandoned hr, h⟩
  | settlePr args =>
    rcases Scrubber.settlePr_effect hc log args with ⟨h, -⟩ | ⟨rs, hrs, h⟩
    · exact ⟨[], .nothing _, h.trans hsame⟩
    · exact ⟨rs, .settled hrs.1 hrs.2, h⟩
  | batchLand args w =>
    obtain ⟨rs, hrs, h⟩ := Scrubber.batchLand_effect hc hlog host args w
    exact ⟨rs, .batched hrs, h⟩

end Hugit
