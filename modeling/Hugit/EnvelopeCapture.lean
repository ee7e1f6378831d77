import Hugit.ColdStores
import Hugit.TextRedaction

/-! The close of a context envelope at a capture level. What the level hides is kept
out of the envelope and the store, except for references that come ready-made. -/

namespace Hugit.Capture

open Cold (ColdStoreError)

inductive CaptureLevel where
  | off
  | metrics
  | task
  | full
  deriving DecidableEq

namespace CaptureLevel

def rank : CaptureLevel → Nat
  | off => 0
  | metrics => 1
  | task => 2
  | full => 3

instance : LinearOrder CaptureLevel :=
  LinearOrder.lift' rank (by rintro (_ | _ | _ | _) (_ | _ | _ | _) <;> decide)

end CaptureLevel

inductive Altitude where
  | intent
  | pr
  | campaign
  | session
  deriving DecidableEq

inductive EnvelopeError where
  | store (e : ColdStoreError)
  | twoTranscriptViolation (altitude : Altitude) (missing : String)
  | serialize (message : String)
  deriving DecidableEq

structure Spawn where
  runId : String
  parentRunId : Option String
  bornAt : UInt64
  diedAt : UInt64
  deriving DecidableEq

structure Authorship where
  model : String
  modelDigest : String
  agentType : String
  spawn : Spawn
  operator : String
  deriving DecidableEq

structure TokenCounts where
  input : UInt64
  output : UInt64
  cacheRead : UInt64
  cacheWrite : UInt64
  total : UInt64
  deriving DecidableEq

structure IntentMetrics where
  tokens : TokenCounts
  wallMs : UInt64
  activeMs : UInt64
  toolCalls : UInt64
  toolBreakdown : List (String × UInt64)
  modelTurns : UInt64
  costUsdMicros : UInt64
  deriving DecidableEq

structure FileRead where
  path : String
  hash : String
  deriving DecidableEq

structure EnvelopeDraft where
  altitude : Altitude
  unitId : String
  commit : String
  treeHash : String
  authorship : Authorship
  charter : String
  campaign : Option String
  constraints : List String
  acceptance : List String
  parentIntents : List String
  rawTranscript : List String
  rawTranscriptRef : Option String
  taskTranscript : List String
  taskTranscriptRef : Option String
  summary : String
  journalRef : Option String
  filesRead : List FileRead
  prompt : Option String
  envManifest : String
  metrics : IntentMetrics
  verdictsRef : Option String
  deriving DecidableEq

structure Trajectory where
  rawTranscriptRef : Option String
  taskTranscriptRef : Option String
  summary : Option String
  journalRef : Option String
  redactionPolicy : String
  deriving DecidableEq

structure Snapshot where
  filesRead : List FileRead
  promptRef : Option String
  envManifest : String
  deriving DecidableEq

structure ContextEnvelope where
  schemaVersion : String
  altitude : Altitude
  intentId : String
  commit : String
  treeHash : String
  authorship : Authorship
  charter : String
  campaign : Option String
  constraints : List String
  acceptance : List String
  parentIntents : List String
  trajectory : Trajectory
  snapshot : Snapshot
  metrics : IntentMetrics
  verdictsRef : Option String
  deriving DecidableEq

structure ClosedEnvelope where
  envelope : ContextEnvelope
  contextRef : String
  deriving DecidableEq

/-- Any store for blobs, as its `put`. -/
structure ColdBlobStore (σ : Type) where
  put : σ → Bytes → Except ColdStoreError String × σ

def noMetrics : IntentMetrics :=
  ⟨⟨0, 0, 0, 0, 0⟩, 0, 0, 0, [], 0, 0⟩

section Close

variable {σ : Type} (m : Measures) (store : ColdBlobStore σ) (level : CaptureLevel) (draft : EnvelopeDraft)

def redactTranscript (lines : List String) : String :=
  "\n".intercalate (lines.map (redactText m))

def putText (text : String) (s : σ) : Except EnvelopeError (Option String) × σ :=
  match store.put s (utf8 text) with
  | (.error e, s) => (.error (.store e), s)
  | (.ok blobRef, s) => (.ok (some blobRef), s)

/-- A reference given by the caller is taken over at every level. -/
def transcriptRef (given : Option String) (atLevel : CaptureLevel) (lines : List String) (s : σ) :
    Except EnvelopeError (Option String) × σ :=
  match given with
  | some r => (.ok (some r), s)
  | none =>
    if atLevel ≤ level ∧ lines ≠ [] then putText store (redactTranscript m lines) s else (.ok none, s)

def promptRef (s : σ) : Except EnvelopeError (Option String) × σ :=
  if .full ≤ level then
    match draft.prompt with
    | some p => putText store (redactText m p) s
    | none => (.ok none, s)
  else (.ok none, s)

def missingRefs (raw task : Option String) : Option String :=
  match raw, task with
  | none, none => some "raw_transcript_ref and task_transcript_ref"
  | none, some _ => some "raw_transcript_ref"
  | some _, none => some "task_transcript_ref"
  | some _, some _ => none

def buildEnvelope (raw task prompt : Option String) : ContextEnvelope where
  schemaVersion := "1.2.0"
  altitude := draft.altitude
  intentId := draft.unitId
  commit := draft.commit
  treeHash := draft.treeHash
  authorship := { draft.authorship with operator := redactText m draft.authorship.operator }
  charter := redactText m draft.charter
  campaign := draft.campaign.map (redactText m)
  constraints := draft.constraints.map (redactText m)
  acceptance := draft.acceptance.map (redactText m)
  parentIntents := draft.parentIntents.map (redactText m)
  trajectory :=
    { rawTranscriptRef := raw
      taskTranscriptRef := task
      summary := if .task ≤ level then some (redactText m draft.summary) else none
      journalRef := draft.journalRef
      redactionPolicy := "default-v1" }
  snapshot :=
    { filesRead := draft.filesRead.map fun f => ⟨redactText m f.path, f.hash⟩
      promptRef := prompt
      envManifest := redactText m draft.envManifest }
  metrics := if .metrics ≤ level then draft.metrics else noMetrics
  verdictsRef := draft.verdictsRef

variable (toVec : ContextEnvelope → Except String Bytes)

def storeEnvelope (envelope : ContextEnvelope) (s : σ) : Except EnvelopeError ClosedEnvelope × σ :=
  match toVec envelope with
  | .error message => (.error (.serialize message), s)
  | .ok bytes =>
    match store.put s bytes with
    | (.error e, s) => (.error (.store e), s)
    | (.ok contextRef, s) => (.ok ⟨envelope, contextRef⟩, s)

def closeEnvelope (s : σ) : Except EnvelopeError ClosedEnvelope × σ :=
  match transcriptRef m store level draft.rawTranscriptRef .full draft.rawTranscript s with
  | (.error e, s) => (.error e, s)
  | (.ok raw, s) =>
    match transcriptRef m store level draft.taskTranscriptRef .task draft.taskTranscript s with
    | (.error e, s) => (.error e, s)
    | (.ok task, s) =>
      match promptRef m store level draft s with
      | (.error e, s) => (.error e, s)
      | (.ok prompt, s) =>
        match if .full ≤ level then missingRefs raw task else none with
        | some missing => (.error (.twoTranscriptViolation draft.altitude missing), s)
        | none => storeEnvelope store toVec (buildEnvelope m level draft raw task prompt) s

end Close

/-- The draft without what the level hides. -/
def EnvelopeDraft.visible (level : CaptureLevel) (draft : EnvelopeDraft) : EnvelopeDraft :=
  { draft with
    rawTranscript := if level < .full then [] else draft.rawTranscript
    rawTranscriptRef := if level < .full then none else draft.rawTranscriptRef
    prompt := if level < .full then none else draft.prompt
    taskTranscript := if level < .task then [] else draft.taskTranscript
    taskTranscriptRef := if level < .task then none else draft.taskTranscriptRef
    summary := if level < .task then "" else draft.summary
    metrics := if level < .metrics then noMetrics else draft.metrics }

/-- No reference that the level hides comes ready-made. -/
def EnvelopeDraft.Unreferenced (level : CaptureLevel) (draft : EnvelopeDraft) : Prop :=
  (level < .full → draft.rawTranscriptRef = none) ∧ (level < .task → draft.taskTranscriptRef = none)

/-- The references and the summary that the level hides are null. -/
def ContextEnvelope.Hides (level : CaptureLevel) (envelope : ContextEnvelope) : Prop :=
  (level < .full → envelope.trajectory.rawTranscriptRef = none ∧ envelope.snapshot.promptRef = none) ∧
    (level < .task → envelope.trajectory.taskTranscriptRef = none ∧ envelope.trajectory.summary = none)

section Hidden

variable {σ : Type} {m : Measures} {store : ColdBlobStore σ} {level : CaptureLevel} {draft : EnvelopeDraft}
  {toVec : ContextEnvelope → Except String Bytes}

theorem transcriptRef_hidden {atLevel : CaptureLevel} (h : level < atLevel) (lines : List String) (s : σ) :
    transcriptRef m store level none atLevel lines s = (.ok none, s) :=
  if_neg fun hh => absurd hh.1 (not_le.mpr h)

theorem promptRef_hidden (h : level < .full) (s : σ) : promptRef m store level draft s = (.ok none, s) :=
  if_neg (not_le.mpr h)

theorem buildEnvelope_visible (raw task prompt : Option String) :
    buildEnvelope m level (draft.visible level) raw task prompt = buildEnvelope m level draft raw task prompt := by
  cases level <;> rfl

theorem closeEnvelope_visible (h : draft.Unreferenced level) (s : σ) :
    closeEnvelope m store level (draft.visible level) toVec s = closeEnvelope m store level draft toVec s := by
  have hraw : transcriptRef m store level (draft.visible level).rawTranscriptRef .full
      (draft.visible level).rawTranscript = transcriptRef m store level draft.rawTranscriptRef .full
      draft.rawTranscript := by
    funext s
    by_cases hl : level < .full
    · simp only [EnvelopeDraft.visible, if_pos hl, h.1 hl, transcriptRef_hidden hl]
    · simp only [EnvelopeDraft.visible, if_neg hl]
  have htask : transcriptRef m store level (draft.visible level).taskTranscriptRef .task
      (draft.visible level).taskTranscript = transcriptRef m store level draft.taskTranscriptRef .task
      draft.taskTranscript := by
    funext s
    by_cases hl : level < .task
    · simp only [EnvelopeDraft.visible, if_pos hl, h.2 hl, transcriptRef_hidden hl]
    · simp only [EnvelopeDraft.visible, if_neg hl]
  have hprompt : promptRef m store level (draft.visible level) = promptRef m store level draft := by
    funext s
    by_cases hl : level < .full
    · rw [promptRef_hidden hl, promptRef_hidden hl]
    · simp only [promptRef, EnvelopeDraft.visible, if_neg hl]
  simp only [closeEnvelope, hraw, htask, hprompt, buildEnvelope_visible]
  rfl

theorem storeEnvelope_eq_ok {envelope : ContextEnvelope} {s s' : σ} {closed : ClosedEnvelope}
    (h : storeEnvelope store toVec envelope s = (.ok closed, s')) : closed.envelope = envelope := by
  rw [storeEnvelope] at h
  split at h
  · cases h
  split at h
  · cases h
  · obtain ⟨hclosed, -⟩ := Prod.mk.inj h
    rw [← Except.ok.inj hclosed]

theorem closeEnvelope_eq_ok {s s' : σ} {closed : ClosedEnvelope}
    (h : closeEnvelope m store level draft toVec s = (.ok closed, s')) :
    ∃ raw task prompt s₁ s₂ s₃,
      transcriptRef m store level draft.rawTranscriptRef .full draft.rawTranscript s = (.ok raw, s₁) ∧
      transcriptRef m store level draft.taskTranscriptRef .task draft.taskTranscript s₁ = (.ok task, s₂) ∧
      promptRef m store level draft s₂ = (.ok prompt, s₃) ∧
      closed.envelope = buildEnvelope m level draft raw task prompt := by
  rw [closeEnvelope] at h
  split at h
  · cases h
  next raw s₁ hraw =>
  split at h
  · cases h
  next task s₂ htask =>
  split at h
  · cases h
  next prompt s₃ hprompt =>
  split at h
  · cases h
  · exact ⟨raw, task, prompt, s₁, s₂, s₃, hraw, htask, hprompt, storeEnvelope_eq_ok h⟩

theorem hides_of_close (hd : draft.Unreferenced level) {s s' : σ} {closed : ClosedEnvelope}
    (h : closeEnvelope m store level draft toVec s = (.ok closed, s')) : closed.envelope.Hides level := by
  obtain ⟨raw, task, prompt, s₁, s₂, s₃, hraw, htask, hprompt, henv⟩ := closeEnvelope_eq_ok h
  rw [henv]
  constructor
  · intro hl
    rw [hd.1 hl, transcriptRef_hidden hl] at hraw
    rw [promptRef_hidden hl] at hprompt
    exact ⟨(Except.ok.inj (Prod.mk.inj hraw).1).symm, (Except.ok.inj (Prod.mk.inj hprompt).1).symm⟩
  · intro hl
    rw [hd.2 hl, transcriptRef_hidden hl] at htask
    exact ⟨(Except.ok.inj (Prod.mk.inj htask).1).symm, if_neg (not_le.mpr hl)⟩

end Hidden

section Given

variable {m : Measures} {level : CaptureLevel} {draft : EnvelopeDraft}
  {toVec : ContextEnvelope → Except String Bytes}

/-- A store that takes every blob. -/
def anyStore : ColdBlobStore Unit :=
  ⟨fun _ _ => (.ok "", ())⟩

theorem transcriptRef_anyStore (given : Option String) (atLevel : CaptureLevel) (lines : List String) :
    ∃ r, transcriptRef m anyStore level given atLevel lines () = (.ok r, ()) := by
  cases given with
  | some r => exact ⟨some r, rfl⟩
  | none =>
    by_cases h : atLevel ≤ level ∧ lines ≠ []
    · exact ⟨some "", if_pos h⟩
    · exact ⟨none, if_neg h⟩

theorem closeEnvelope_anyStore (hser : ∀ e, ∃ bytes, toVec e = .ok bytes) (h : level < .full) :
    ∃ closed, closeEnvelope m anyStore level draft toVec () = (.ok closed, ()) := by
  obtain ⟨raw, hraw⟩ := @transcriptRef_anyStore m level draft.rawTranscriptRef .full draft.rawTranscript
  obtain ⟨task, htask⟩ := @transcriptRef_anyStore m level draft.taskTranscriptRef .task draft.taskTranscript
  obtain ⟨bytes, hbytes⟩ := hser (buildEnvelope m level draft raw task none)
  refine ⟨⟨buildEnvelope m level draft raw task none, ""⟩, ?_⟩
  rw [closeEnvelope, hraw]
  dsimp only
  rw [htask]
  dsimp only
  rw [promptRef_hidden h]
  dsimp only
  rw [if_neg (not_le.mpr h)]
  dsimp only
  rw [storeEnvelope, hbytes]
  rfl

theorem unreferenced_of_hides {closed : ClosedEnvelope}
    (h : closeEnvelope m anyStore level draft toVec () = (.ok closed, ())) (hides : closed.envelope.Hides level) :
    draft.Unreferenced level := by
  obtain ⟨raw, task, prompt, s₁, s₂, s₃, hraw, htask, hprompt, henv⟩ := closeEnvelope_eq_ok h
  rw [henv] at hides
  constructor
  · intro hl
    obtain rfl : raw = none := (hides.1 hl).1
    cases hgiven : draft.rawTranscriptRef with
    | none => rfl
    | some r =>
      rw [hgiven] at hraw
      cases (Prod.mk.inj hraw).1
  · intro hl
    obtain rfl : task = none := (hides.2 hl).1
    cases hgiven : draft.taskTranscriptRef with
    | none => rfl
    | some r =>
      rw [hgiven] at htask
      cases (Prod.mk.inj htask).1

end Given

/-- Two drafts that differ only in what the level hides close alike in every store,
with the hidden references null, exactly when neither brings a hidden reference. -/
theorem lowered_level_hides_iff (m : Measures) {toVec : ContextEnvelope → Except String Bytes}
    (hser : ∀ e, ∃ bytes, toVec e = .ok bytes) {level : CaptureLevel} {a b : EnvelopeDraft}
    (hsame : a.visible level = b.visible level) :
    (∀ (σ : Type) (store : ColdBlobStore σ) (s : σ),
      closeEnvelope m store level a toVec s = closeEnvelope m store level b toVec s ∧
        ∀ closed, (closeEnvelope m store level a toVec s).1 = .ok closed → closed.envelope.Hides level) ↔
      (level < .full → a.rawTranscriptRef = none ∧ b.rawTranscriptRef = none) ∧
        (level < .task → a.taskTranscriptRef = none ∧ b.taskTranscriptRef = none) := by
  have hsplit : (level < .full → a.rawTranscriptRef = none ∧ b.rawTranscriptRef = none) ∧
      (level < .task → a.taskTranscriptRef = none ∧ b.taskTranscriptRef = none) ↔
        a.Unreferenced level ∧ b.Unreferenced level := by
    simp only [EnvelopeDraft.Unreferenced]
    tauto
  rw [hsplit]
  constructor
  · intro h
    by_cases hl : level < .full
    · obtain ⟨closed, hclosed⟩ := @closeEnvelope_anyStore m level a toVec hser hl
      obtain ⟨hequal, hides⟩ := h Unit anyStore ()
      have hhidden := hides closed (by rw [hclosed])
      exact ⟨unreferenced_of_hides hclosed hhidden, unreferenced_of_hides (hequal ▸ hclosed) hhidden⟩
    · have htask : ¬ level < .task := fun ht => hl (ht.trans (by decide))
      exact ⟨⟨fun hh => absurd hh hl, fun hh => absurd hh htask⟩, ⟨fun hh => absurd hh hl, fun hh => absurd hh htask⟩⟩
  · rintro ⟨ha, hb⟩ σ store s
    refine ⟨by rw [← closeEnvelope_visible ha, hsame, closeEnvelope_visible hb], fun closed hclosed => ?_⟩
    exact hides_of_close ha (Prod.ext hclosed rfl)

section Samples

def sampleDraft (rawTranscript : List String) (rawTranscriptRef : Option String) : EnvelopeDraft where
  altitude := .intent
  unitId := ""
  commit := ""
  treeHash := ""
  authorship := ⟨"", "", "", ⟨"", none, 0, 0⟩, ""⟩
  charter := ""
  campaign := none
  constraints := []
  acceptance := []
  parentIntents := []
  rawTranscript := rawTranscript
  rawTranscriptRef := rawTranscriptRef
  taskTranscript := []
  taskTranscriptRef := none
  summary := ""
  journalRef := none
  filesRead := []
  prompt := none
  envManifest := ""
  metrics := noMetrics
  verdictsRef := none

/-- At the lowest level a reference to the raw transcript is in the envelope. -/
theorem given_ref_revealed :
    (sampleDraft [] (some "cas:raw")).visible .off = (sampleDraft [] none).visible .off ∧
      ((closeEnvelope ⟨fun _ => 0⟩ anyStore .off (sampleDraft [] (some "cas:raw")) (fun _ => .ok []) ()).1.map
        fun closed => closed.envelope.trajectory.rawTranscriptRef) = .ok (some "cas:raw") ∧
      ((closeEnvelope ⟨fun _ => 0⟩ anyStore .off (sampleDraft [] none) (fun _ => .ok []) ()).1.map
        fun closed => closed.envelope.trajectory.rawTranscriptRef) = .ok none :=
  ⟨rfl, rfl, rfl⟩

theorem transcripts_close_alike :
    closeEnvelope ⟨fun _ => 0⟩ anyStore .off (sampleDraft ["secret"] none) (fun _ => .ok []) () =
      closeEnvelope ⟨fun _ => 0⟩ anyStore .off (sampleDraft ["other", "text"] none) (fun _ => .ok []) () :=
  ((lowered_level_hides_iff ⟨fun _ => 0⟩ (fun _ => ⟨[], rfl⟩) rfl).mpr ⟨fun _ => ⟨rfl, rfl⟩, fun _ => ⟨rfl, rfl⟩⟩
    Unit anyStore ()).1

end Samples

end Hugit.Capture
