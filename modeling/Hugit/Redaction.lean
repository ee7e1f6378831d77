import Hugit.Tamper

/-! Redaction of stored records. Each step scrubs the cleartext of one record in
place and appends the marker that commits to its old and its new hash. -/

namespace Hugit

open Std

namespace RedactionCommitment

/-- The marker payload as it is stored: canonical printing sorts its keys. -/
def stored (k : RedactionCommitment) (seq : Nat) : Value :=
  .object [("original_this_hash", .string k.originalThisHash),
    ("redacted_seq", .number (.posInt seq)), ("redacted_this_hash", .string k.redactedThisHash)]

theorem toPayload_eq {c : Crates} (hc : c.Sound) (k : RedactionCommitment) {seq : Nat}
    (hs : seq < 2 ^ 64) : k.toPayload c seq = c.print (k.stored seq) := by
  have h1 : "original_this_hash" < "redacted_seq" := by decide +kernel
  have h2 : "original_this_hash" < "redacted_this_hash" := by decide +kernel
  have h3 : "redacted_seq" < "redacted_this_hash" := by decide +kernel
  have hcanon : canonicalizeValue (.object [("redacted_seq", .number (.posInt seq)),
      ("original_this_hash", .string k.originalThisHash),
      ("redacted_this_hash", .string k.redactedThisHash)]) = k.stored seq := by
    simp only [canonicalizeValue, canonicalizeFields]
    rw [Value.insertSorted, Value.insertSorted_of_lt h1, Value.insertSorted_of_gt h2,
      Value.insertSorted_of_gt h3]
    rfl
  have hflat : (Value.object [("redacted_seq", .number (.posInt seq)),
      ("original_this_hash", .string k.originalThisHash),
      ("redacted_this_hash", .string k.redactedThisHash)]).Flat := by
    refine ⟨by simp, ?_⟩
    simpa [Value.IsLeaf] using hs
  simp only [toPayload, canonicalJson, hc.round_trip _ hflat, Option.map_some, Option.getD_some,
    hcanon]

theorem parse_toPayload {c : Crates} (hc : c.Sound) (k : RedactionCommitment) {seq : Nat}
    (hs : seq < 2 ^ 64) (ho : k.originalThisHash ≠ "") (hr : k.redactedThisHash ≠ "") :
    parse c (k.toPayload c seq) = some (seq, k) := by
  have hflat : (k.stored seq).Flat := by
    refine ⟨by simp, ?_⟩
    simpa [Value.IsLeaf] using hs
  rw [toPayload_eq hc k hs, parse, hc.round_trip _ hflat]
  simp [stored, ho, hr]

end RedactionCommitment

variable {c : Crates} {r : EventRecord}

theorem marker_original_ne_empty {w : Nat × RedactionCommitment} (h : marker c r = some w) :
    w.2.originalThisHash ≠ "" := by
  unfold marker at h
  split_ifs at h
  simp only [RedactionCommitment.parse, bind, Option.bind_eq_some_iff] at h
  obtain ⟨_, _, _, _, _, _, _, _, _, _, _, _, _, _, h⟩ := h
  split_ifs at h with he
  obtain rfl := Option.some.inj h
  exact (not_or.mp he).1

variable {records : List EventRecord} {i : Nat}

theorem thisHash_ne_empty (hc : c.Sound) (hv : verifyChain c records = .ok ()) (hi : records[i]? = some r) :
    r.thisHash ≠ "" := by
  have hcontent := (verifyChain_ok_iff.mp hv).2 i r hi
  cases hk : (collectRedactions c records)[i]? with
  | none =>
    rw [hk] at hcontent
    rw [← (show r.recompute c = r.thisHash from hcontent)]
    exact computeThisHash_ne hc (by decide) _ _ _ _ _
  | some k =>
    rw [hk] at hcontent
    rw [collectRedactions_getElem?] at hk
    obtain ⟨m, _, hm⟩ := List.mem_filterMap.mp (mem_of_lastWrite hk)
    rw [hcontent.1]
    exact marker_original_ne_empty hm

structure RedactionStep where
  position : Nat
  principals : List String
  payload : String
  markerPrincipals : List String
  recordedAt : Nat

def redactionStep (c : Crates) (records : List EventRecord) (s : RedactionStep) :
    Option (List EventRecord) :=
  match records[s.position]? with
  | none => none
  | some r =>
    if r.kind = provenanceRedactionKind then none
    else
      let (redacted, commitment) := redactRecord c r s.principals s.payload
      let (_, log) := EventLog.append c ⟨records.set s.position redacted⟩ provenanceRedactionKind
        s.markerPrincipals (commitment.toPayload c r.seq) s.recordedAt
      some log.records

def redactionRun (c : Crates) : List EventRecord → List RedactionStep → Option (List EventRecord)
  | records, [] => some records
  | records, s :: steps => (redactionStep c records s).bind fun rs => redactionRun c rs steps

variable {ys : List EventRecord} {s : RedactionStep}

theorem redactionRun_singleton (h : redactionStep c records s = some ys) : redactionRun c records [s] = some ys := by
  simp [redactionRun, h]

structure Preserved (x y : EventRecord) : Prop where
  seq : y.seq = x.seq
  prevHash : y.prevHash = x.prevHash
  thisHash : y.thisHash = x.thisHash
  kind : y.kind = x.kind
  recordedAt : y.recordedAt = x.recordedAt

theorem Preserved.refl (x : EventRecord) : Preserved x x :=
  ⟨rfl, rfl, rfl, rfl, rfl⟩

theorem Preserved.trans {x y z : EventRecord} (hxy : Preserved x y) (hyz : Preserved y z) :
    Preserved x z :=
  ⟨hyz.seq.trans hxy.seq, hyz.prevHash.trans hxy.prevHash, hyz.thisHash.trans hxy.thisHash,
    hyz.kind.trans hxy.kind, hyz.recordedAt.trans hxy.recordedAt⟩

def scrub (c : Crates) (records : List EventRecord) (s : RedactionStep) (r : EventRecord) :
    List EventRecord :=
  records.set s.position (redactRecord c r s.principals s.payload).1

def redactionMarker (c : Crates) (records : List EventRecord) (s : RedactionStep) (r : EventRecord) :
    EventRecord :=
  EventLog.nextRecord c (scrub c records s r) provenanceRedactionKind s.markerPrincipals
    ((redactRecord c r s.principals s.payload).2.toPayload c r.seq) s.recordedAt

theorem redactionStep_eq_some :
    redactionStep c records s = some ys ↔
      ∃ r, records[s.position]? = some r ∧ r.kind ≠ provenanceRedactionKind ∧
        ys = scrub c records s r ++ [redactionMarker c records s r] := by
  unfold redactionStep
  cases hr : records[s.position]? with
  | none => simp
  | some r =>
    by_cases hk : r.kind = provenanceRedactionKind
    · simp [hk]
    · simp only [hk, if_false, Option.some.injEq, exists_eq_left', ne_eq, not_false_eq_true, true_and]
      exact eq_comm

theorem scrub_hashes (hr : records[s.position]? = some r) :
    (scrub c records s r).map EventRecord.thisHash = records.map EventRecord.thisHash :=
  map_set_same hr rfl

theorem scrub_gapFree (hr : records[s.position]? = some r) (h : GapFree records) : GapFree (scrub c records s r) := by
  have hseq : (scrub c records s r).map EventRecord.seq = records.map EventRecord.seq :=
    map_set_same hr rfl
  intro i x hi
  have hx : (records.map EventRecord.seq)[i]? = some x.seq := by
    rw [← hseq, List.getElem?_map, hi, Option.map_some]
  obtain ⟨y, hy, hxy⟩ := Option.map_eq_some_iff.mp ((List.getElem?_map ..).symm.trans hx)
  rw [← hxy]
  exact h i y hy

theorem redactionStep_length (h : redactionStep c records s = some ys) : ys.length = records.length + 1 := by
  obtain ⟨r, _, _, rfl⟩ := redactionStep_eq_some.mp h
  simp [scrub]

theorem redactionStep_preserved (h : redactionStep c records s = some ys) {x : EventRecord}
    (hi : records[i]? = some x) : ∃ y, ys[i]? = some y ∧ Preserved x y := by
  obtain ⟨r, hr, _, rfl⟩ := redactionStep_eq_some.mp h
  have hlt := (List.getElem?_eq_some_iff.mp hi).1
  rw [List.getElem?_append_left (by simpa [scrub] using hlt)]
  by_cases hp : s.position = i
  · subst hp
    obtain rfl : r = x := by simpa [hr] using hi
    exact ⟨_, List.getElem?_set_self hlt, ⟨rfl, rfl, rfl, rfl, rfl⟩⟩
  · exact ⟨x, by rwa [scrub, List.getElem?_set_ne hp], .refl x⟩

section

variable {c : Crates} (hc : c.Sound) {records : List EventRecord}
  (hv : verifyChain c records = .ok ()) (hlen : records.length < 2 ^ 64)
  {s : RedactionStep} {r : EventRecord} (hr : records[s.position]? = some r)

include hc hv hlen hr in
theorem marker_redactionMarker :
    marker c (redactionMarker c records s r) =
      some (s.position, (redactRecord c r s.principals s.payload).2) := by
  have hseq : r.seq = s.position := (verifyChain_ok_iff.mp hv).1.gapFree _ r hr
  have hlt := (List.getElem?_eq_some_iff.mp hr).1
  have hs : r.seq < 2 ^ 64 := by omega
  have hparse := RedactionCommitment.parse_toPayload hc
    (redactRecord c r s.principals s.payload).2 hs (thisHash_ne_empty hc hv hr)
    (computeThisHash_ne hc (by decide) _ _ _ _ _)
  rw [← hseq, ← hparse]
  exact if_pos rfl

theorem collectRedactions_scrub (hk : r.kind ≠ provenanceRedactionKind)
    (hr : records[s.position]? = some r) :
    collectRedactions c (scrub c records s r) = collectRedactions c records :=
  collectRedactions_set hr (by simp [marker, redactRecord, hk])

include hc hv hlen hr in
theorem redactionStep_redactions (hk : r.kind ≠ provenanceRedactionKind) (i : Nat) :
    (collectRedactions c (scrub c records s r ++ [redactionMarker c records s r]))[i]? =
      if s.position = i then some (redactRecord c r s.principals s.payload).2
      else (collectRedactions c records)[i]? := by
  rw [collectRedactions_concat, marker_redactionMarker hc hv hlen hr, collectRedactions_scrub hk hr]

end

theorem redactionStep_verifies (hc : c.Sound) (hv : verifyChain c records = .ok ())
    (hlen : records.length < 2 ^ 64) (hfree : (collectRedactions c records)[records.length]? = none)
    (h : redactionStep c records s = some ys) : verifyChain c ys = .ok () := by
  obtain ⟨r, hr, hk, rfl⟩ := redactionStep_eq_some.mp h
  have hlt := (List.getElem?_eq_some_iff.mp hr).1
  have hls : (scrub c records s r).length = records.length := by simp [scrub]
  obtain ⟨hch, hcontent⟩ := verifyChain_ok_iff.mp hv
  refine verifyChain_concat (hch.set hr rfl rfl rfl) rfl rfl rfl ?_ ?_ ?_
  · rw [collectRedactions_scrub hk hr, hls]
    exact hfree
  · intro w hw
    rw [marker_redactionMarker hc hv hlen hr] at hw
    obtain rfl := Option.some.inj hw
    rw [hls]
    exact hlt.ne
  · intro i x hi
    rw [redactionStep_redactions hc hv hlen hr hk]
    by_cases hp : s.position = i
    · subst hp
      obtain rfl : (redactRecord c r s.principals s.payload).1 = x := by
        rw [scrub, List.getElem?_set_self hlt] at hi
        exact Option.some.inj hi
      rw [if_pos rfl]
      exact ⟨rfl, rfl⟩
    · rw [if_neg hp]
      exact hcontent i x (by rwa [scrub, List.getElem?_set_ne hp] at hi)

theorem redactionStep_rejected (hc : c.Sound) (hv : verifyChain c records = .ok ())
    (hlen : records.length < 2 ^ 64) {k : RedactionCommitment}
    (hk : (collectRedactions c records)[records.length]? = some k) (hl : k.originalThisHash.length ≠ 64)
    (h : redactionStep c records s = some ys) :
    ∃ e, verifyChain c ys = .error e := by
  obtain ⟨r, hr, hkind, rfl⟩ := redactionStep_eq_some.mp h
  have hlt := (List.getElem?_eq_some_iff.mp hr).1
  have hlast : (scrub c records s r ++ [redactionMarker c records s r])[records.length]? =
      some (redactionMarker c records s r) := by
    simp [scrub]
  cases hy : verifyChain c (scrub c records s r ++ [redactionMarker c records s r]) with
  | error e => exact ⟨e, rfl⟩
  | ok u =>
    have hcontent := (verifyChain_ok_iff.mp hy).2 _ _ hlast
    rw [redactionStep_redactions hc hv hlen hr hkind, if_neg (by omega), hk] at hcontent
    exact absurd hcontent.1 (computeThisHash_ne hc hl _ _ _ _ _)

theorem redactionStep_later (hc : c.Sound) (hv : verifyChain c records = .ok ()) (hlen : records.length < 2 ^ 64)
    (h : redactionStep c records s = some ys) (hi : records.length ≤ i) :
    (collectRedactions c ys)[i]? = (collectRedactions c records)[i]? := by
  obtain ⟨r, hr, hk, rfl⟩ := redactionStep_eq_some.mp h
  have hlt := (List.getElem?_eq_some_iff.mp hr).1
  rw [redactionStep_redactions hc hv hlen hr hk, if_neg (by omega)]

def EventRecord.withContent (r : EventRecord) (principals : List String) (payload : String) :
    EventRecord :=
  { r with principalChain := principals, payload := payload }

theorem verifyChain_altered (hv : verifyChain c records = .ok ()) (hi : records[i]? = some r)
    (hk : r.kind ≠ provenanceRedactionKind) {principals : List String} {payload : String}
    (hne : principals ≠ r.principalChain ∨ payload ≠ r.payload) (hf : r.Fits)
    (hf' : (r.withContent principals payload).Fits)
    (hcf : Set.InjOn c.digest {r.preimage, (r.withContent principals payload).preimage}) :
    ∃ e, verifyChain c (records.set i (r.withContent principals payload)) = .error e := by
  cases hv' : verifyChain c (records.set i (r.withContent principals payload)) with
  | error e => exact ⟨e, rfl⟩
  | ok u =>
    have hlt := (List.getElem?_eq_some_iff.mp hi).1
    have h := (verifyChain_ok_iff.mp hv).2 i r hi
    have h' := (verifyChain_ok_iff.mp hv').2 i _ (List.getElem?_set_self hlt)
    rw [collectRedactions_set hi (by simp [marker, EventRecord.withContent, hk])] at h'
    have hrec : r.recompute c = (r.withContent principals payload).recompute c := by
      cases hm : (collectRedactions c records)[i]? with
      | none =>
        rw [hm] at h h'
        exact Eq.trans h (Eq.symm h')
      | some k =>
        rw [hm] at h h'
        exact h.2.trans h'.2.symm
    have hpre : r.preimage = (r.withContent principals payload).preimage :=
      hcf (.inl rfl) (.inr rfl) (hexEncode_injective hrec)
    obtain ⟨_, _, hc, hp, _⟩ := EventRecord.preimage_inj hf hf' hpre
    rcases hne with hne | hne
    · exact absurd hc.symm hne
    · exact absurd hp.symm hne

variable {steps : List RedactionStep} {xs : List EventRecord}

theorem redactionRun_preserved (h : redactionRun c xs steps = some ys) {x : EventRecord} (hi : xs[i]? = some x) :
    ∃ y, ys[i]? = some y ∧ Preserved x y := by
  induction steps generalizing xs x with
  | nil =>
    obtain rfl := Option.some.inj h
    exact ⟨x, hi, .refl x⟩
  | cons s steps ih =>
    obtain ⟨zs, hs, hrest⟩ := Option.bind_eq_some_iff.mp h
    obtain ⟨z, hz, hxz⟩ := redactionStep_preserved hs hi
    obtain ⟨y, hy, hzy⟩ := ih hrest hz
    exact ⟨y, hy, hxz.trans hzy⟩

theorem redactionRun_scrubbed (h : redactionRun c xs steps = some ys) (hs : s ∈ steps) {y : EventRecord}
    (hy : ys[s.position]? = some y) :
    y.kind ≠ provenanceRedactionKind := by
  induction steps generalizing xs with
  | nil => simp at hs
  | cons t steps ih =>
    obtain ⟨zs, ht, hrest⟩ := Option.bind_eq_some_iff.mp h
    rcases List.mem_cons.mp hs with rfl | hmem
    · obtain ⟨r, hr, hk, _⟩ := redactionStep_eq_some.mp ht
      obtain ⟨y', hy', hp⟩ := redactionRun_preserved h hr
      obtain rfl : y' = y := by simpa [hy'] using hy
      rwa [hp.kind]
    · exact ih hrest hmem

theorem redactionRun_verifies (hc : c.Sound) (hv : verifyChain c xs = .ok ())
    (h : redactionRun c xs steps = some ys) (hlen : xs.length + steps.length < 2 ^ 64)
    (hfree : ∀ i, xs.length ≤ i → i < xs.length + steps.length → (collectRedactions c xs)[i]? = none) :
    verifyChain c ys = .ok () := by
  induction steps generalizing xs with
  | nil =>
    obtain rfl := Option.some.inj h
    exact hv
  | cons s steps ih =>
    obtain ⟨zs, hs, hrest⟩ := Option.bind_eq_some_iff.mp h
    have hl := redactionStep_length hs
    simp only [List.length_cons] at hlen hfree
    have hlx : xs.length < 2 ^ 64 := by omega
    refine ih (redactionStep_verifies hc hv hlx (hfree _ le_rfl (by omega)) hs) hrest (by omega) ?_
    intro i hi hi'
    rw [redactionStep_later hc hv hlx hs (by omega)]
    exact hfree i (by omega) (by omega)

/-- Redaction keeps an accepted log accepted and the records in their places as
long as no marker of the log names a position the run itself will fill. The
scrubbed content is then as tamper evident as the cleartext was. -/
theorem redactionRun_closed {c : Crates} (hc : c.Sound) {xs ys : List EventRecord}
    {steps : List RedactionStep} (hv : verifyChain c xs = .ok ())
    (hrun : redactionRun c xs steps = some ys) (hlen : xs.length + steps.length < 2 ^ 64)
    (hfree : ∀ r ∈ xs, ∀ w, marker c r = some w →
      w.1 < xs.length ∨ xs.length + steps.length ≤ w.1) :
    verifyChain c ys = .ok () ∧
    (∀ (i : Nat) (x : EventRecord), xs[i]? = some x → ∃ y, ys[i]? = some y ∧ Preserved x y) ∧
    ∀ s ∈ steps, ∀ (y : EventRecord), ys[s.position]? = some y →
      ∀ (principals : List String) (payload : String),
        principals ≠ y.principalChain ∨ payload ≠ y.payload →
        y.Fits → (y.withContent principals payload).Fits →
        Set.InjOn c.digest {y.preimage, (y.withContent principals payload).preimage} →
        ∃ e, verifyChain c (ys.set s.position (y.withContent principals payload)) = .error e := by
  have hnone (i : Nat) (hi : xs.length ≤ i) (hi' : i < xs.length + steps.length) :
      (collectRedactions c xs)[i]? = none := by
    rw [collectRedactions_getElem?, lastWrite_eq_none]
    intro w hw he
    obtain ⟨r, hr, hm⟩ := List.mem_filterMap.mp hw
    have := hfree r hr w hm
    omega
  have hvy := redactionRun_verifies hc hv hrun hlen hnone
  refine ⟨hvy, fun i x hi => redactionRun_preserved hrun hi, ?_⟩
  intro s hs y hy principals payload hne hf hf' hcf
  exact verifyChain_altered hvy hy (redactionRun_scrubbed hrun hs hy) hne hf hf' hcf

def scrubStep : RedactionStep :=
  ⟨0, ["pseudonym"], "", ["user:officer"], 2⟩

def scrubbedNote : EventRecord :=
  { EventLog.nextRecord reference [] "note" ["pseudonym"] "" 0 with
    thisHash := computeThisHash reference genesisPrevHash "note" ["user:a"] "secret" 0 }

theorem secretNote_redacted : ∃ ys,
    redactionRun reference (notes reference ["secret"]).records [scrubStep] = some ys ∧
    verifyChain reference ys = .ok () ∧ ys[0]? = some scrubbedNote ∧
    ∃ e, verifyChain reference (ys.set 0 (scrubbedNote.withContent ["user:a"] "secret")) = .error e := by
  have hr : (notes reference ["secret"]).records[scrubStep.position]? =
    some (EventLog.nextRecord reference [] "note" ["user:a"] "secret" 0) := rfl
  have hstep := (redactionStep_eq_some (c := reference)).mpr ⟨_, hr, by decide, rfl⟩
  have hrun := redactionRun_singleton hstep
  have hfree : ∀ r ∈ (notes reference ["secret"]).records, ∀ w, marker reference r = some w →
      w.1 < (notes reference ["secret"]).records.length ∨
        (notes reference ["secret"]).records.length + [scrubStep].length ≤ w.1 := by
    intro r hm w hw
    have hk := (notes_verifies reference ["secret"]).1 r hm
    simp [marker, hk] at hw
  obtain ⟨hv, _, hsealed⟩ := redactionRun_closed reference_sound
    (notes_verifies reference ["secret"]).2 hrun (by decide) hfree
  refine ⟨_, hrun, hv, rfl, hsealed scrubStep (by simp) scrubbedNote rfl _ _ (by decide)
    (by decide +kernel) (by decide +kernel) (Set.injOn_pair.mpr fun he => ?_)⟩
  exact absurd he (by decide +kernel)

def danglingLog : EventLog :=
  ((notes reference ["secret"]).append reference provenanceRedactionKind ["user:a"]
    (RedactionCommitment.toPayload reference ⟨"x", "y"⟩ 2) 2).2

theorem danglingLog_marker : marker reference
    ((notes reference ["secret"]).append reference provenanceRedactionKind ["user:a"]
      (RedactionCommitment.toPayload reference ⟨"x", "y"⟩ 2) 2).1 = some (2, ⟨"x", "y"⟩) := by
  rw [marker_append_redaction]
  exact RedactionCommitment.parse_toPayload reference_sound _ (by decide) (by decide) (by decide)

theorem danglingLog_verifies : verifyChain reference danglingLog.records = .ok () := by
  obtain ⟨hfree, hv⟩ := notes_verifies reference ["secret"]
  refine verifyChain_append hv (redactionFree_markers hfree _) fun w hw => .inl ?_
  rw [danglingLog_marker] at hw
  obtain rfl := Option.some.inj hw
  decide

/-- The log is accepted, yet the marker of the next redaction lands where the
dangling one points. -/
theorem danglingLog_redacted : verifyChain reference danglingLog.records = .ok () ∧
    ∃ ys e, redactionRun reference danglingLog.records [scrubStep] = some ys ∧
      verifyChain reference ys = .error e := by
  have hr : danglingLog.records[scrubStep.position]? =
    some (EventLog.nextRecord reference [] "note" ["user:a"] "secret" 0) := rfl
  have hstep := (redactionStep_eq_some (c := reference)).mpr ⟨_, hr, by decide, rfl⟩
  have hlen : danglingLog.records.length = 2 := rfl
  have hk : (collectRedactions reference danglingLog.records)[danglingLog.records.length]? =
      some ⟨"x", "y"⟩ := by
    rw [hlen, danglingLog, EventLog.append_snd_records, collectRedactions_concat,
      ← EventLog.append_fst, danglingLog_marker]
    exact if_pos rfl
  obtain ⟨e, he⟩ := redactionStep_rejected reference_sound danglingLog_verifies (by omega) hk
    (by decide) hstep
  exact ⟨danglingLog_verifies, _, e, redactionRun_singleton hstep, he⟩

end Hugit
