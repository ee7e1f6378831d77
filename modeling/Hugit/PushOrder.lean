import Hugit.Interleaving
import Hugit.ReceiveRuns

/-! Pushes by many clients through a single writer. Each push reads the refs from
the log, compares and appends under one lock, so the log is a total order of the
accepted pushes and the refs are what the last of them wrote. -/

namespace Hugit

structure SerializedWriter.RefUpdate where
  refName : String
  expected : Option String
  target : String
  principalChain : List String
  recordedAt : Nat
  deriving DecidableEq

structure StaleRef where
  refName : String
  expected : Option String
  actual : Option String
  deriving DecidableEq

inductive PushReject where
  | missingAttribution
  deriving DecidableEq

inductive PushOutcome where
  | landed (record : EventRecord) (attribution : Attribution) (seq : Nat)
  | stale (stale : StaleRef)
  | rejected (reject : PushReject)
  deriving DecidableEq

/-- A push under the writer lock. It panics on a log that does not replay. -/
def SerializedWriter.push (c : Crates) (update : SerializedWriter.RefUpdate) (log : EventLog) :
    Option PushOutcome × EventLog :=
  if update.principalChain = [] then (some (.rejected .missingAttribution), log)
  else
    match replay c log with
    | .error _ => (none, log)
    | .ok state =>
      let actual := state.get update.refName
      if actual ≠ update.expected then
        (some (.stale ⟨update.refName, update.expected, actual⟩), log)
      else
        let recorded := recordExternalChange c log (.update update.refName update.target)
          update.principalChain update.recordedAt
        match recorded.1 with
        | .error .missingAttribution => (some (.rejected .missingAttribution), recorded.2)
        | .ok r => (some (.landed r.1 r.2 r.1.seq), recorded.2)

structure SerializedReceiver where
  gate : FlagGate
  limits : RecvLimits
  debug : ReplayError → String

def SerializedReceiver.receive (g : GitCodec) (p : PackCodec) (c : Crates) (receiver : SerializedReceiver)
    (req : ReceiveRequest) (s : Repository) : Except ReceiveError Receipt × Repository :=
  match replay c s.log with
  | .error e => (.error (.io ("replay derived view: " ++ receiver.debug e)), s)
  | .ok state =>
    let r := receivePack g p c receiver.gate req s.cas s.log state.get receiver.limits
    (r.1, ⟨r.2.1, r.2.2⟩)

/-- The calls a client can make. A writer has a log only; it is a repository
whose store is never used. -/
inductive PushCall where
  | push (update : SerializedWriter.RefUpdate)
  | receive (req : ReceiveRequest)

inductive PushAnswer where
  | pushed (outcome : PushOutcome)
  | received (result : Except ReceiveError Receipt)
  | panicked

def PushAnswer.record : PushAnswer → Option EventRecord
  | pushed (.landed record _ _) => some record
  | received (.ok receipt) => some receipt.event
  | _ => none

def PushAnswer.seq : PushAnswer → Option Nat
  | pushed (.landed _ _ seq) => some seq
  | received (.ok receipt) => some receipt.event.seq
  | _ => none

namespace PushCall

def refName : PushCall → String
  | push update => update.refName
  | receive req => req.update.refName

def expected : PushCall → Option String
  | push update => update.expected
  | receive req => req.update.expected

def target : PushCall → String
  | push update => update.target
  | receive req => req.update.newOid

def run (g : GitCodec) (p : PackCodec) (c : Crates) (receiver : SerializedReceiver) (call : PushCall)
    (s : Repository) : PushAnswer × Repository :=
  match call with
  | push update =>
    let r := SerializedWriter.push c update s.log
    match r.1 with
    | some outcome => (.pushed outcome, ⟨s.cas, r.2⟩)
    | none => (.panicked, ⟨s.cas, r.2⟩)
  | receive req =>
    let r := receiver.receive g p c req s
    (.received r.1, r.2)

end PushCall

section

variable {g : GitCodec} {p : PackCodec} {c : Crates} {receiver : SerializedReceiver}

/-- What a call leaves behind on a log that replays: an answer without a record
and the repository as it was, or one record more, for a ref that was where the
client expected it. -/
inductive PushCall.Effect (c : Crates) (call : PushCall) (s : Repository) (state : RefState) :
    PushAnswer × Repository → Prop
  | refused {answer : PushAnswer} (hn : answer ≠ .panicked) (hr : answer.record = none)
      (hq : answer.seq = none) : Effect c call s state (answer, s)
  | recorded {answer : PushAnswer} {cas : InMemoryCas} {principalChain : List String} {recordedAt : Nat}
      (hn : answer ≠ .panicked) (he : state.get call.refName = call.expected)
      (hr : answer.record =
        some (recordRefUpdate c s.log principalChain call.refName call.target recordedAt).1)
      (hq : answer.seq = some s.log.len) :
      Effect c call s state
        (answer, ⟨cas, (recordRefUpdate c s.log principalChain call.refName call.target recordedAt).2⟩)

theorem PushCall.run_effect (g : GitCodec) (p : PackCodec) (receiver : SerializedReceiver) {s : Repository}
    {state : RefState} (h : replay c s.log = .ok state) (call : PushCall) :
    call.Effect c s state (call.run g p c receiver s) := by
  cases call with
  | push update =>
    simp only [run, SerializedWriter.push, h]
    by_cases hchain : update.principalChain = []
    · simp only [hchain, if_true]
      exact .refused (by simp) rfl rfl
    by_cases hstale : state.get update.refName = update.expected
    · simp only [hchain, hstale, ne_eq, not_true_eq_false, if_false, recordExternalChange]
      exact .recorded (by simp) hstale rfl rfl
    · simp only [hchain, hstale, ne_eq, not_false_eq_true, if_false, if_true]
      exact .refused (by simp) rfl rfl
  | receive req =>
    simp only [run, SerializedReceiver.receive, h, receivePack]
    cases hadm : admitPush g p receiver.gate req s.cas state.get receiver.limits with
    | error e => exact .refused (by simp) rfl rfl
    | ok u =>
      obtain ⟨-, -, -, -, -, -, -, hexpected⟩ := admitPush_eq_ok.mp hadm
      exact .recorded (by simp) hexpected rfl rfl

inductive Client where
  | pending (call : PushCall)
  | returned (call : PushCall) (answer : PushAnswer)

inductive ClientStep (g : GitCodec) (p : PackCodec) (c : Crates) (receiver : SerializedReceiver) :
    Nat → Repository → Client → Repository → Client → Prop
  | locked (i : Nat) (s : Repository) (call : PushCall) :
      ClientStep g p c receiver i s (.pending call) (call.run g p c receiver s).2
        (.returned call (call.run g p c receiver s).1)

def IsPending (client : Client) : Prop :=
  ∃ call, client = .pending call

/-- Any number of clients arrive at any time; nothing else touches the log. -/
def PushReachable (g : GitCodec) (p : PackCodec) (c : Crates) (receiver : SerializedReceiver)
    (start : Repository) (s : System Repository Client) : Prop :=
  System.Reachable IsPending (fun _ _ => False) (ClientStep g p c receiver) ⟨start, []⟩ s

def Ordered (c : Crates) (start : EventLog) (view : RefState) (log : EventLog) : Prop :=
  ∃ state new pushes, Replayable c log state ∧ log.records = start.records ++ new ∧
    new.map EventRecord.payload = pushes.map (fun w => rawPushPayload w.1 w.2) ∧
      ∀ name, state.get name = (lastWrite name pushes).or (view.get name)

theorem Ordered.recordRefUpdate (hc : c.ReadsJson) {start log : EventLog} {view : RefState}
    (h : Ordered c start view log) (principalChain : List String) (refName target : String)
    (recordedAt : Nat) :
    Ordered c start view (Hugit.recordRefUpdate c log principalChain refName target recordedAt).2 := by
  obtain ⟨state, new, pushes, hreplay, hlog, hnew, hview⟩ := h
  refine ⟨_, new ++ [(Hugit.recordRefUpdate c log principalChain refName target recordedAt).1],
    pushes ++ [(refName, target)],
    hreplay.recordRefUpdate hc principalChain refName target recordedAt, ?_, ?_, fun name => ?_⟩
  · rw [recordRefUpdate_records, hlog, List.append_assoc]
  · rw [List.map_append, List.map_append, hnew]
    rfl
  · rw [RefState.get_apply_some, lastWrite_concat, hview]
    split_ifs <;> simp

/-- A returned client either was refused, or its record stands where it was told,
right after the log at which its ref had the expected value. -/
def Client.Settled (c : Crates) (log : EventLog) : Client → Prop
  | .pending _ => True
  | .returned call answer => answer ≠ .panicked ∧ ∀ record, answer.record = some record →
      answer.seq = some record.seq ∧ log.records[record.seq]? = some record ∧
        record.payload = rawPushPayload call.refName call.target ∧
          ∃ state, replay c ⟨log.records.take record.seq⟩ = .ok state ∧
            state.get call.refName = call.expected

theorem Client.Settled.append {log log' : EventLog} {client : Client} (h : client.Settled c log)
    {new : List EventRecord} (hl : log'.records = log.records ++ new) : client.Settled c log' := by
  cases client with
  | pending call => trivial
  | returned call answer =>
    refine ⟨h.1, fun record hr => ?_⟩
    obtain ⟨hq, hget, hpay, state, hreplay, hstate⟩ := h.2 record hr
    have hlt := (List.getElem?_eq_some_iff.mp hget).1
    refine ⟨hq, ?_, hpay, state, ?_, hstate⟩
    · rwa [hl, List.getElem?_append_left hlt]
    · rwa [hl, List.take_append_of_le_length hlt.le]

theorem ClientStep.settled {i : Nat} {s s' : Repository} {t t' : Client}
    (h : ClientStep g p c receiver i s t s' t') {state : RefState} (hs : replay c s.log = .ok state) :
    t'.Settled c s'.log ∧ ∃ new, s'.log.records = s.log.records ++ new := by
  cases h with
  | locked call =>
    have heffect := call.run_effect g p receiver hs
    generalize call.run g p c receiver s = r at heffect ⊢
    cases heffect with
    | refused hn hr hq => exact ⟨⟨hn, by simp [hr]⟩, [], by simp⟩
    | recorded hn he hr hq =>
      refine ⟨⟨hn, fun record hrec => ?_⟩, [_], rfl⟩
      rw [hr] at hrec
      obtain rfl := Option.some.inj hrec
      refine ⟨hq, ?_, rfl, state, ?_, he⟩
      · simp [Hugit.recordRefUpdate, EventLog.appendExternalChange, EventLog.nextRecord]
      · simpa [Hugit.recordRefUpdate, EventLog.appendExternalChange, EventLog.nextRecord] using hs

theorem pushReachable_settled (hc : c.ReadsJson) {start : Repository} {view : RefState}
    (hstart : Replayable c start.log view) {s : System Repository Client}
    (hs : PushReachable g p c receiver start s) :
    Ordered c start.log view s.shared.log ∧
      ∀ (i : Nat) (client : Client), s.threads[i]? = some client → client.Settled c s.shared.log := by
  refine System.Reachable.holds (G := fun _ s => Ordered c start.log view s.log)
    (P := fun _ s client => client.Settled c s.log) ?_ (by simp) ?_ hs ⟨?_, by simp⟩
  · rintro n s t hg ⟨call, rfl⟩
    exact ⟨hg, trivial⟩
  · intro n i s t s' t' hg _ _ hstep
    have ⟨state, _, _, hreplay, _⟩ := hg
    obtain ⟨hown, new, hnew⟩ := hstep.settled hreplay.replays
    refine ⟨?_, hown, fun j u _ hu => hu.append hnew⟩
    cases hstep with
    | locked call =>
      have heffect := call.run_effect g p receiver hreplay.replays
      generalize call.run g p c receiver s = r at heffect ⊢
      cases heffect with
      | refused hn hr hq => exact hg
      | recorded hn he hr hq => exact hg.recordRefUpdate hc _ _ _ _
  · exact ⟨view, [], [], hstart, by simp, rfl, by simp⟩

theorem push_no_lost_update (hc : c.ReadsJson) {start : Repository} {view : RefState}
    (hstart : replay c start.log = .ok view)
    (hmarkers : ∀ r ∈ start.log.records, ∀ w, marker c r = some w → w.1 < start.log.len)
    {s : System Repository Client} (hs : PushReachable g p c receiver start s) :
    GapFree s.shared.log.records ∧
      (∃ state new pushes, replay c s.shared.log = .ok state ∧
        s.shared.log.records = start.log.records ++ new ∧
          new.map EventRecord.payload = pushes.map (fun w => rawPushPayload w.1 w.2) ∧
            ∀ name, state.get name = (lastWrite name pushes).or (view.get name)) ∧
      (∀ (i : Nat) (client : Client), s.threads[i]? = some client → client.Settled c s.shared.log) ∧
      ∀ call : PushCall, let r := call.run g p c receiver s.shared
        r.1 ≠ .panicked ∧ (r.1.record = none → r.2 = s.shared) ∧
          ∀ record, r.1.record = some record →
            (∃ state, replay c s.shared.log = .ok state ∧ state.get call.refName = call.expected) ∧
              record.seq = s.shared.log.len ∧ r.2.log.records = s.shared.log.records ++ [record] := by
  obtain ⟨⟨state, new, pushes, hreplay, hlog, hnew, hview⟩, hclients⟩ := pushReachable_settled hc ⟨hstart, hmarkers⟩ hs
  refine ⟨hreplay.gapFree, ⟨state, new, pushes, hreplay.replays, hlog, hnew, hview⟩, hclients, ?_⟩
  intro call
  have heffect := call.run_effect g p receiver hreplay.replays
  dsimp only
  generalize call.run g p c receiver s.shared = r at heffect ⊢
  cases heffect with
  | refused hn hr hq => exact ⟨hn, fun _ => rfl, by simp [hr]⟩
  | recorded hn he hr hq =>
    refine ⟨hn, by simp [hr], fun record hrec => ?_⟩
    obtain rfl := Option.some.inj (hr.symm.trans hrec)
    exact ⟨⟨state, hreplay.replays, he⟩, rfl, rfl⟩

end

def unhashed : Crates := ⟨fun _ => [], readJson, printJson⟩

def openReceiver : SerializedReceiver := ⟨⟨true⟩, .default, fun _ => ""⟩

def creation (target : String) : PushCall :=
  .push ⟨"refs/heads/\"new\"\n", none, target, ["user:a"], 0⟩

def racedRepository : Repository :=
  ((creation "bb").run .plain .plain unhashed openReceiver
    ((creation "aa").run .plain .plain unhashed openReceiver .empty).2).2

def racedClients : List Client :=
  let first := (creation "aa").run .plain .plain unhashed openReceiver .empty
  [.returned (creation "aa") first.1,
    .returned (creation "bb") ((creation "bb").run .plain .plain unhashed openReceiver first.2).1]

theorem raced_reachable :
    PushReachable .plain .plain unhashed openReceiver .empty ⟨racedRepository, racedClients⟩ := by
  have h1 : System.Step IsPending (fun _ _ => False) (ClientStep .plain .plain unhashed openReceiver)
      ⟨.empty, []⟩ ⟨.empty, [.pending (creation "aa")]⟩ := .spawn ⟨_, rfl⟩
  have h2 : System.Step IsPending (fun _ _ => False) (ClientStep .plain .plain unhashed openReceiver)
      ⟨.empty, [.pending (creation "aa")]⟩ ⟨.empty, [.pending (creation "aa"), .pending (creation "bb")]⟩ :=
    .spawn ⟨_, rfl⟩
  exact (((Relation.ReflTransGen.single h1).tail h2).tail (.act (i := 0) rfl (.locked 0 _ _))).tail
    (.act (i := 1) rfl (.locked 1 _ _))

theorem raced_ordered :
    GapFree racedRepository.log.records ∧
      ∃ state, replay unhashed racedRepository.log = .ok state ∧
        state.get "refs/heads/\"new\"\n" = some "aa" := by
  obtain ⟨hgap, ⟨state, new, pushes, hreplay, hlog, hnew, hview⟩, -⟩ :=
    push_no_lost_update (fun _ _ _ h => h) (replayable_empty unhashed).replays
      (replayable_empty unhashed).earlier raced_reachable
  dsimp only at hgap hreplay hlog
  have hone : racedRepository.log.records.map EventRecord.payload =
      [rawPushPayload "refs/heads/\"new\"\n" "aa"] := by
    decide +kernel
  simp only [Repository.empty, EventLog.empty, List.nil_append] at hlog
  rw [hlog, hnew] at hone
  obtain ⟨w, rfl, hw⟩ := List.map_eq_singleton_iff.mp hone
  obtain ⟨hname, htarget⟩ := rawPushPayload_injective hw
  refine ⟨hgap, state, hreplay, ?_⟩
  simp [hview, lastWrite, hname, htarget]

end Hugit
