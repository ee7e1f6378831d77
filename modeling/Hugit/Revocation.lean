import Hugit.Tamper

/-! The app's installations: a token store in memory, a directory of tombstones on disk, and
the set of installations whose events are refused. A restart keeps only the directory. -/

namespace Hugit

open Std

structure SignedEventEnvelope where
  deliveryId : String
  eventType : String
  signature : String
  payload : String
  receivedAt : Nat
  deriving DecidableEq

inductive RevocationError where
  | unsafeId
  | io (reason : String)
  deriving DecidableEq

def isSafeId (id : String) : Bool :=
  id != "" && id != "." && id != ".." && id.toList.all fun c => c.isAlphanum || c == '_' || c == '-'

def insertId (ids : List String) (id : String) : List String :=
  if id ∈ ids then ids else ids ++ [id]

/-- How the write of a tombstone ends; a failed one may leave the file behind. -/
inductive TombstoneWrite where
  | written
  | failed (created : Bool) (reason : String)
  deriving DecidableEq

structure RevocationLedger where
  index : List String
  deriving DecidableEq

namespace RevocationLedger

def openDir (dir : List String) : RevocationLedger :=
  ⟨dir.foldl (fun index name => if isSafeId name then insertId index name else index) []⟩

/-- The tombstone comes first, the index after it. -/
def revoke (ledger : RevocationLedger) (dir : List String) (installationId : String) (write : TombstoneWrite) :
    Except RevocationError Bool × RevocationLedger × List String :=
  if ¬ isSafeId installationId then (.error .unsafeId, ledger, dir)
  else match write with
    | .failed created reason =>
      (.error (.io reason), ledger, if created then insertId dir installationId else dir)
    | .written =>
      (.ok (decide (installationId ∉ ledger.index)), ⟨insertId ledger.index installationId⟩,
        insertId dir installationId)

def revokedIds (ledger : RevocationLedger) : List String :=
  ledger.index.mergeSort fun a b => a ≤ b

end RevocationLedger

structure RevokeOutcome where
  installationId : String
  tokenRevoked : Bool
  processingHalted : Bool
  durablyRevoked : Bool
  deriving DecidableEq

def buildInstallationRevokedRecord (c : Crates) (installationId prevHash : String) (seq recordedAt : Nat) :
    EventRecord :=
  let kind := "installation.revoked"
  let principalChain := ["github"]
  let rawPayload := "\x7b\"installation_id\":\"" ++ installationId ++ "\"\x7d"
  let payload := (canonicalJson c rawPayload).getD rawPayload
  { seq, prevHash, thisHash := computeThisHash c prevHash kind principalChain payload seq, kind, principalChain,
    payload, recordedAt }

structure WebhookProcessor where
  tokenStore : ExtTreeMap String (Option String)
  revocations : Option RevocationLedger

namespace WebhookProcessor

def withRevocationLedger (ledger : RevocationLedger) : WebhookProcessor :=
  ⟨∅, some ledger⟩

def storeToken (p : WebhookProcessor) (installationId token : String) : WebhookProcessor :=
  { p with tokenStore := p.tokenStore.insert installationId (some token) }

def getToken (p : WebhookProcessor) (installationId : String) : Option String :=
  p.tokenStore[installationId]?.join

def zeroToken (store : ExtTreeMap String (Option String)) (installationId : String) :
    Bool × ExtTreeMap String (Option String) :=
  match store[installationId]? with
  | some (some _) => (true, (store.erase installationId).insert installationId none)
  | some none => (false, (store.erase installationId).insert installationId none)
  | none => (false, store.erase installationId)

def handleUninstall (c : Crates) (p : WebhookProcessor) (dir : List String) (installationId prevHash : String)
    (seq recordedAt : Nat) (write : TombstoneWrite) :
    (RevokeOutcome × EventRecord) × WebhookProcessor × List String :=
  let record := buildInstallationRevokedRecord c installationId prevHash seq recordedAt
  let (tokenRevoked, tokenStore) := zeroToken p.tokenStore installationId
  match p.revocations with
  | none => ((⟨installationId, tokenRevoked, true, false⟩, record), { p with tokenStore }, dir)
  | some ledger =>
    let (result, ledger, dir) := ledger.revoke dir installationId write
    ((⟨installationId, tokenRevoked, true, result.toOption.isSome⟩, record), ⟨tokenStore, some ledger⟩, dir)

end WebhookProcessor

inductive PersistenceError where
  | installationHalted (installationId : String)
  deriving DecidableEq

structure PersistResult where
  casKey : String
  enqueued : Bool
  deriving DecidableEq

structure PersistenceAdapter where
  store : ExtTreeMap String String
  halted : List String

namespace PersistenceAdapter

def newLocalWithRevocations (ledger : RevocationLedger) : PersistenceAdapter :=
  ⟨∅, ledger.revokedIds⟩

def envelopeJson (c : Crates) (envelope : SignedEventEnvelope) : String :=
  c.print (.object [("delivery_id", .string envelope.deliveryId), ("event_type", .string envelope.eventType),
    ("signature", .string envelope.signature), ("payload", .string envelope.payload),
    ("received_at", .number (.posInt envelope.receivedAt))])

def persistEvent (c : Crates) (adapter : PersistenceAdapter) (envelope : SignedEventEnvelope)
    (installationId : Option String) : Except PersistenceError PersistResult × PersistenceAdapter :=
  let accepted :=
    let casKey := "webhook/" ++ envelope.deliveryId
    (.ok ⟨casKey, true⟩, { adapter with store := adapter.store.insert casKey (envelopeJson c envelope) })
  match installationId with
  | some iid => if iid ∈ adapter.halted then (.error (.installationHalted iid), adapter) else accepted
  | none => accepted

def haltInstallation (adapter : PersistenceAdapter) (installationId : String) : PersistenceAdapter :=
  { adapter with halted := insertId adapter.halted installationId }

end PersistenceAdapter

structure App where
  dir : List String
  processor : WebhookProcessor
  adapter : PersistenceAdapter

def App.boot (dir : List String) : App :=
  let ledger := RevocationLedger.openDir dir
  ⟨dir, .withRevocationLedger ledger, .newLocalWithRevocations ledger⟩

inductive AppCall where
  | storeToken (installationId token : String)
  | getToken (installationId : String)
  | handleUninstall (installationId prevHash : String) (seq recordedAt : Nat) (write : TombstoneWrite)
  | persistEvent (envelope : SignedEventEnvelope) (installationId : Option String)
  | restart

inductive AppAnswer where
  | stored
  | token (token : Option String)
  | uninstalled (outcome : RevokeOutcome) (record : EventRecord)
  | persisted (result : Except PersistenceError PersistResult)
  | restarted

namespace App

/-- The caller of an uninstall halts the adapter with it. -/
def call (c : Crates) (app : App) : AppCall → AppAnswer × App
  | .storeToken installationId token =>
    (.stored, { app with processor := app.processor.storeToken installationId token })
  | .getToken installationId => (.token (app.processor.getToken installationId), app)
  | .handleUninstall installationId prevHash seq recordedAt write =>
    let ((outcome, record), processor, dir) :=
      app.processor.handleUninstall c app.dir installationId prevHash seq recordedAt write
    (.uninstalled outcome record, ⟨dir, processor, app.adapter.haltInstallation installationId⟩)
  | .persistEvent envelope installationId =>
    let (result, adapter) := app.adapter.persistEvent c envelope installationId
    (.persisted result, { app with adapter })
  | .restart => (.restarted, boot app.dir)

def run (c : Crates) (app : App) (calls : List AppCall) : App :=
  calls.foldl (fun app call => (app.call c call).2) app

end App

section Sets

variable {ids dir : List String} {id name : String}

theorem mem_insertId : name ∈ insertId ids id ↔ name ∈ ids ∨ name = id := by
  unfold insertId
  split_ifs with h
  · constructor
    · exact .inl
    · rintro (h' | rfl)
      · exact h'
      · exact h
  · simp

theorem mem_openDir : id ∈ (RevocationLedger.openDir dir).index ↔ id ∈ dir ∧ isSafeId id = true := by
  have hfold (names index : List String) :
      id ∈ names.foldl (fun index name => if isSafeId name then insertId index name else index) index ↔
        id ∈ index ∨ id ∈ names ∧ isSafeId id = true := by
    induction names generalizing index with
    | nil => simp
    | cons name names ih =>
      rw [List.foldl_cons, ih, List.mem_cons]
      by_cases hs : isSafeId name = true
      · rw [if_pos hs, mem_insertId]
        constructor
        · rintro ((h | rfl) | ⟨h, hid⟩)
          · exact .inl h
          · exact .inr ⟨.inl rfl, hs⟩
          · exact .inr ⟨.inr h, hid⟩
        · rintro (h | ⟨rfl | h, hid⟩)
          · exact .inl (.inl h)
          · exact .inl (.inr rfl)
          · exact .inr ⟨h, hid⟩
      · rw [if_neg hs]
        constructor
        · rintro (h | ⟨h, hid⟩)
          · exact .inl h
          · exact .inr ⟨.inr h, hid⟩
        · rintro (h | ⟨rfl | h, hid⟩)
          · exact .inl h
          · exact absurd hid hs
          · exact .inr ⟨h, hid⟩
  rw [RevocationLedger.openDir, hfold]
  simp

theorem mem_boot_halted : id ∈ (App.boot dir).adapter.halted ↔ id ∈ dir ∧ isSafeId id = true := by
  have hh : id ∈ (App.boot dir).adapter.halted ↔ id ∈ (RevocationLedger.openDir dir).index :=
    List.mem_mergeSort
  rw [hh, mem_openDir]

end Sets

section Effects

variable {c : Crates} {app : App} {id : String}

theorem handleUninstall_durable {p p' : WebhookProcessor} {dir dir' : List String} {prevHash : String}
    {seq recordedAt : Nat} {write : TombstoneWrite} {outcome : RevokeOutcome} {record : EventRecord}
    (h : p.handleUninstall c dir id prevHash seq recordedAt write = ((outcome, record), p', dir'))
    (hd : outcome.durablyRevoked = true) : id ∈ dir' ∧ isSafeId id = true := by
  unfold WebhookProcessor.handleUninstall at h
  cases hr : p.revocations with
  | none =>
    simp only [hr, Prod.mk.injEq] at h
    obtain ⟨⟨rfl, -⟩, -⟩ := h
    cases hd
  | some ledger =>
    simp only [hr, RevocationLedger.revoke] at h
    by_cases hs : isSafeId id = true
    · cases write with
      | failed created reason =>
        simp only [hs, not_true_eq_false, if_false, Prod.mk.injEq] at h
        obtain ⟨⟨rfl, -⟩, -⟩ := h
        cases hd
      | written =>
        simp only [hs, not_true_eq_false, if_false, Prod.mk.injEq] at h
        obtain ⟨-, -, rfl⟩ := h
        exact ⟨mem_insertId.mpr (.inr rfl), hs⟩
    · simp only [hs, Prod.mk.injEq] at h
      obtain ⟨⟨rfl, -⟩, -⟩ := h
      cases hd

theorem revoke_dir (ledger : RevocationLedger) {dir : List String} {name : String} (h : name ∈ dir)
    (write : TombstoneWrite) : name ∈ (ledger.revoke dir id write).2.2 := by
  unfold RevocationLedger.revoke
  by_cases hs : isSafeId id = true
  · simp only [hs, not_true_eq_false, if_false]
    cases write with
    | written => exact mem_insertId.mpr (.inl h)
    | failed created reason =>
      cases created with
      | true => exact mem_insertId.mpr (.inl h)
      | false => exact h
  · rw [if_pos hs]
    exact h

theorem handleUninstall_dir (p : WebhookProcessor) {dir : List String} {name : String} (h : name ∈ dir)
    (prevHash : String) (seq recordedAt : Nat) (write : TombstoneWrite) :
    name ∈ (p.handleUninstall c dir id prevHash seq recordedAt write).2.2 := by
  unfold WebhookProcessor.handleUninstall
  cases p.revocations with
  | none => exact h
  | some ledger => exact revoke_dir ledger h write

structure App.Revoked (app : App) (id : String) : Prop where
  safe : isSafeId id = true
  onDisk : id ∈ app.dir
  halted : id ∈ app.adapter.halted

theorem App.Revoked.call (h : app.Revoked id) (call : AppCall) : (app.call c call).2.Revoked id := by
  cases call with
  | storeToken installationId token => exact ⟨h.safe, h.onDisk, h.halted⟩
  | getToken installationId => exact h
  | handleUninstall installationId prevHash seq recordedAt write =>
    exact ⟨h.safe, handleUninstall_dir app.processor h.onDisk prevHash seq recordedAt write,
      mem_insertId.mpr (.inl h.halted)⟩
  | persistEvent envelope installationId =>
    refine ⟨h.safe, h.onDisk, ?_⟩
    simp only [App.call, PersistenceAdapter.persistEvent]
    cases installationId with
    | none => exact h.halted
    | some iid =>
      dsimp only
      split_ifs
      · exact h.halted
      · exact h.halted
  | restart => exact ⟨h.safe, h.onDisk, mem_boot_halted.mpr ⟨h.onDisk, h.safe⟩⟩

theorem App.Revoked.run (h : app.Revoked id) (calls : List AppCall) : (app.run c calls).Revoked id := by
  induction calls generalizing app with
  | nil => exact h
  | cons call calls ih => exact ih (h.call call)

def AppCall.holds (id : String) (held : Bool) : AppCall → Bool
  | .storeToken installationId _ => held || installationId == id
  | .handleUninstall installationId _ _ _ _ => held && installationId != id
  | .restart => false
  | .getToken _ => held
  | .persistEvent _ _ => held

/-- A token of the installation was stored after the last restart and the last uninstall. -/
def tokenHeld (id : String) (calls : List AppCall) : Bool :=
  calls.foldl (AppCall.holds id) false

theorem zeroToken_getElem? (store : ExtTreeMap String (Option String)) (installationId id : String) :
    (WebhookProcessor.zeroToken store installationId).2[id]?.join =
      if installationId = id then none else store[id]?.join := by
  unfold WebhookProcessor.zeroToken
  split <;> by_cases hid : installationId = id <;>
    simp [ExtTreeMap.getElem?_insert, ExtTreeMap.getElem?_erase, hid]

theorem handleUninstall_getToken (p : WebhookProcessor) (dir : List String) (installationId prevHash : String)
    (seq recordedAt : Nat) (write : TombstoneWrite) (id : String) :
    (p.handleUninstall c dir installationId prevHash seq recordedAt write).2.1.getToken id =
      if installationId = id then none else p.getToken id := by
  rw [WebhookProcessor.getToken, WebhookProcessor.getToken, ← zeroToken_getElem?]
  unfold WebhookProcessor.handleUninstall
  cases p.revocations <;> rfl

theorem App.call_getToken (app : App) (call : AppCall) (id : String) :
    ((app.call c call).2.processor.getToken id).isSome =
      AppCall.holds id (app.processor.getToken id).isSome call := by
  cases call with
  | storeToken installationId token =>
    simp only [App.call, WebhookProcessor.getToken, WebhookProcessor.storeToken, AppCall.holds,
      ExtTreeMap.getElem?_insert, LawfulEqCmp.compare_eq_iff_eq]
    by_cases hid : installationId = id <;> simp [hid]
  | getToken installationId => rfl
  | handleUninstall installationId prevHash seq recordedAt write =>
    have hh := handleUninstall_getToken (c := c) app.processor app.dir installationId prevHash seq recordedAt
      write id
    simp only [App.call, AppCall.holds, hh]
    by_cases hid : installationId = id <;> simp [hid]
  | persistEvent envelope installationId => rfl
  | restart =>
    simp [App.call, App.boot, WebhookProcessor.withRevocationLedger, WebhookProcessor.getToken, AppCall.holds]

theorem App.run_getToken (app : App) (calls : List AppCall) (id : String) :
    ((app.run c calls).processor.getToken id).isSome =
      calls.foldl (AppCall.holds id) (app.processor.getToken id).isSome := by
  induction calls generalizing app with
  | nil => rfl
  | cons call calls ih =>
    rw [List.foldl_cons, ← App.call_getToken (c := c)]
    exact ih _

end Effects

/-- After an uninstall that reports itself durable, the events of the installation are refused
for ever, and it has no token at a later point exactly when none was stored since its last
uninstall and the last restart. -/
theorem revocation_final_iff {c : Crates} {dir : List String} {before after : List AppCall} {id prevHash : String}
    {seq recordedAt : Nat} {write : TombstoneWrite} {outcome : RevokeOutcome} {record : EventRecord} {app : App}
    (h : ((App.boot dir).run c before).call c (.handleUninstall id prevHash seq recordedAt write) =
      (.uninstalled outcome record, app)) (hd : outcome.durablyRevoked = true) :
    ((app.run c after).processor.getToken id = none ↔ tokenHeld id after = false) ∧
      ∀ envelope, ((app.run c after).adapter.persistEvent c envelope (some id)).1 =
        .error (.installationHalted id) := by
  generalize (App.boot dir).run c before = app₀ at h
  have happ : app = (app₀.call c (.handleUninstall id prevHash seq recordedAt write)).2 := by rw [h]
  have hrevoked : app.Revoked id := by
    have hanswer : app₀.processor.handleUninstall c app₀.dir id prevHash seq recordedAt write =
        ((outcome, record), app.processor, app.dir) := by
      obtain ⟨hans, rfl⟩ := Prod.mk.inj h
      obtain ⟨ho, hr⟩ := AppAnswer.uninstalled.inj hans
      exact Prod.ext (Prod.ext ho hr) rfl
    obtain ⟨hdisk, hsafe⟩ := handleUninstall_durable hanswer hd
    refine ⟨hsafe, hdisk, ?_⟩
    rw [happ]
    exact mem_insertId.mpr (.inr rfl)
  constructor
  · have htoken : app.processor.getToken id = none := by
      have hh := handleUninstall_getToken (c := c) app₀.processor app₀.dir id prevHash seq recordedAt write id
      rw [if_pos rfl] at hh
      rw [happ]
      exact hh
    rw [← Option.isNone_iff_eq_none, ← Option.isSome_eq_false_iff, App.run_getToken, htoken]
    rfl
  · intro envelope
    have hhalted := (hrevoked.run (c := c) after).halted
    simp only [PersistenceAdapter.persistEvent, if_pos hhalted]

def uninstalledOnce (c : Crates) : App :=
  ((App.boot []).call c (.handleUninstall "1" genesisPrevHash 0 7 .written)).2

theorem uninstalledOnce_answer (c : Crates) :
    ((App.boot []).run c []).call c (.handleUninstall "1" genesisPrevHash 0 7 .written) =
      (.uninstalled ⟨"1", false, true, true⟩ (buildInstallationRevokedRecord c "1" genesisPrevHash 0 7),
        uninstalledOnce c) := by
  have hsafe : isSafeId "1" = true := by decide
  simp [uninstalledOnce, App.call, App.run, App.boot, WebhookProcessor.handleUninstall,
    WebhookProcessor.withRevocationLedger, WebhookProcessor.zeroToken, RevocationLedger.revoke, hsafe, Except.toOption]

/-- Restarted after the uninstall, the app holds no token and refuses the events. -/
theorem uninstalledOnce_restarted :
    ((uninstalledOnce reference).run reference [.restart]).processor.getToken "1" = none ∧
      ∀ envelope, (((uninstalledOnce reference).run reference [.restart]).adapter.persistEvent reference envelope
        (some "1")).1 = .error (.installationHalted "1") := by
  have hh := @revocation_final_iff reference [] [] [.restart] "1" genesisPrevHash 0 7 .written _ _ _
    (uninstalledOnce_answer reference) rfl
  exact ⟨hh.1.mpr rfl, hh.2⟩

/-- A token stored after a durable uninstall is handed out, also after a restart. -/
theorem stored_after_uninstall :
    ∃ outcome record app, ((App.boot []).run reference []).call reference
        (.handleUninstall "1" genesisPrevHash 0 7 .written) = (.uninstalled outcome record, app) ∧
      outcome.durablyRevoked = true ∧
      (app.run reference [.restart, .storeToken "1" "token"]).processor.getToken "1" = some "token" := by
  refine ⟨_, _, _, uninstalledOnce_answer reference, rfl, ?_⟩
  simp [App.run, App.call, WebhookProcessor.storeToken, WebhookProcessor.getToken]

end Hugit
