import Hugit.ColdStores

/-! The directory store answers as the in-memory store does, apart from blobs that
read as tombstones. -/

namespace Hugit.Cold

open Std

section Refinement

variable {c : Crates} {j : TombstoneJson} {m : InMemoryColdStore} {d : DirColdStore}

/-- One file holds what the memory has under the reference: the tombstone if there is
one, the blob otherwise. -/
structure Refines (c : Crates) (j : TombstoneJson) (m : InMemoryColdStore) (d : DirColdStore) : Prop where
  file : ∀ hash : ColdHash,
    d.files[hash.text]? = (m.tombstones[hash.ref]?.map (·.canonicalBytes j)).or m.blobs[hash.ref]?
  live : ∀ blobRef bytes, m.blobs[blobRef]? = some bytes →
    coldRefFor c bytes = blobRef ∧ m.tombstones[blobRef]? = none
  named : ∀ (blobRef : String) (tombstone : Tombstone), m.tombstones[blobRef]? = some tombstone →
    tombstone.erasedRef = blobRef

theorem Refines.new (c : Crates) (j : TombstoneJson) (root process : String) :
    Refines c j .new ⟨root, process, ∅⟩ :=
  ⟨by simp [InMemoryColdStore.new], by simp [InMemoryColdStore.new], by simp [InMemoryColdStore.new]⟩

theorem ColdHash.ne_of_dot {hash : ColdHash} {name : String} (h : '.' ∈ name.toList) : name ≠ hash.text := by
  rintro rfl
  exact absurd (List.all_eq_true.mp hash.hex '.' h) (by decide)

theorem getElem?_renamed {tmp name : String} (bytes : Bytes) (htmp : '.' ∈ tmp.toList) :
    ∃ d', (d.write tmp bytes).rename tmp name = some d' ∧
      ∀ hash : ColdHash, d'.files[hash.text]? = if name = hash.text then some bytes else d.files[hash.text]? := by
  refine ⟨_, by rw [DirColdStore.rename, DirColdStore.write, ExtTreeMap.getElem?_insert_self, Option.map_some],
    fun hash => ?_⟩
  have hne : tmp ≠ hash.text := ColdHash.ne_of_dot htmp
  simp only [ExtTreeMap.getElem?_insert, ExtTreeMap.getElem?_erase, Std.compare_eq_iff_eq, if_neg hne]

theorem InMemoryColdStore.put_spec (m : InMemoryColdStore) (bytes : Bytes) :
    (m.put c bytes).1 = .ok (coldRefFor c bytes) ∧ (m.put c bytes).2.tombstones = m.tombstones ∧
      ∀ blobRef, (m.put c bytes).2.blobs[blobRef]? =
        if coldRefFor c bytes = blobRef ∧ m.tombstones[blobRef]? = none ∧ m.blobs[blobRef]? = none then some bytes
        else m.blobs[blobRef]? := by
  unfold InMemoryColdStore.put
  dsimp only
  split_ifs with htomb
  · refine ⟨rfl, rfl, fun blobRef => (if_neg ?_).symm⟩
    rintro ⟨rfl, hnone, -⟩
    rw [ExtTreeMap.contains_eq_isSome_getElem?, hnone] at htomb
    cases htomb
  · refine ⟨rfl, rfl, fun blobRef => ?_⟩
    rw [ExtTreeMap.getElem?_insertIfNew]
    by_cases href : coldRefFor c bytes = blobRef
    · subst href
      have hnone : m.tombstones[coldRefFor c bytes]? = none :=
        ExtTreeMap.getElem?_eq_none fun hmem => htomb (ExtTreeMap.mem_iff_contains.mp hmem)
      cases hb : m.blobs[coldRefFor c bytes]? <;>
        simp only [ExtTreeMap.mem_iff_isSome_getElem?, hb, hnone, Option.isSome_none, Option.isSome_some] <;> simp
    · simp [href]

theorem DirColdStore.put_spec (hc : c.Sound) (d : DirColdStore) (bytes : Bytes) :
    (d.put c bytes).1 = .ok (coldRefFor c bytes) ∧
      ∀ hash : ColdHash, (d.put c bytes).2.files[hash.text]? =
        if coldRefFor c bytes = hash.ref ∧ d.files[hash.text]? = none then some bytes else d.files[hash.text]? := by
  obtain ⟨own, hparse, href⟩ := refHash_coldRefFor hc bytes
  unfold DirColdStore.put
  simp only [hparse]
  split_ifs with hexists
  · refine ⟨rfl, fun hash => (if_neg ?_).symm⟩
    rintro ⟨hsame, hnone⟩
    rw [← href, ColdHash.ref_eq_iff] at hsame
    rw [ExtTreeMap.contains_eq_isSome_getElem?, hsame, hnone] at hexists
    cases hexists
  · obtain ⟨d', hd', hfiles⟩ := @getElem?_renamed d (own.text ++ ".tmp-" ++ d.process) own.text bytes (by simp)
    rw [hd']
    refine ⟨rfl, fun hash => ?_⟩
    have hnone : d.files[own.text]? = none :=
      ExtTreeMap.getElem?_eq_none fun hmem => hexists (ExtTreeMap.mem_iff_contains.mp hmem)
    simp only [hfiles hash, ← href, ColdHash.ref_eq_iff]
    by_cases hsame : own.text = hash.text
    · rw [if_pos hsame, if_pos ⟨hsame, hsame ▸ hnone⟩]
    · rw [if_neg hsame, if_neg fun h => hsame h.1]

theorem Refines.put (hc : c.Sound) (h : Refines c j m d) (bytes : Bytes) :
    (m.put c bytes).1 = (d.put c bytes).1 ∧ Refines c j (m.put c bytes).2 (d.put c bytes).2 := by
  obtain ⟨hmem, htomb, hblobs⟩ := InMemoryColdStore.put_spec m bytes
  obtain ⟨hdir, hfiles⟩ := DirColdStore.put_spec hc d bytes
  refine ⟨hmem.trans hdir.symm, ⟨fun hash => ?_, fun blobRef bytes' hb => ?_, fun blobRef t ht => ?_⟩⟩
  · rw [hfiles, htomb, hblobs, h.file]
    cases htombs : m.tombstones[hash.ref]? with
    | some t => simp
    | none => simp
  · rw [htomb]
    rw [hblobs] at hb
    split_ifs at hb with hnew
    · obtain rfl := Option.some.inj hb
      exact ⟨hnew.1, hnew.2.1⟩
    · exact h.live blobRef bytes' hb
  · rw [htomb] at ht
    exact h.named blobRef t ht

theorem Refines.erase (h : Refines c j m d) (blobRef : String) (record : TombstoneRecord) :
    (m.erase blobRef record).1 = (d.erase j blobRef record).1 ∧
      Refines c j (m.erase blobRef record).2 (d.erase j blobRef record).2 := by
  unfold InMemoryColdStore.erase DirColdStore.erase
  cases hparse : refHash blobRef with
  | error e => exact ⟨rfl, h⟩
  | ok own =>
    obtain rfl := refHash_eq_ok hparse
    obtain ⟨d', hd', hfiles⟩ := @getElem?_renamed d (own.text ++ ".tombstone.tmp-" ++ d.process) own.text
      ((Tombstone.new own.ref record).canonicalBytes j) (by simp)
    dsimp only
    rw [hd']
    refine ⟨rfl, ⟨fun hash => ?_, fun blobRef bytes hb => ?_, fun blobRef t ht => ?_⟩⟩
    · rw [hfiles, ExtTreeMap.getElem?_insert, ExtTreeMap.getElem?_erase, h.file]
      simp only [Std.compare_eq_iff_eq, ColdHash.ref_eq_iff]
      split_ifs <;> rfl
    · rw [ExtTreeMap.getElem?_erase] at hb
      split_ifs at hb with hsame
      rw [ExtTreeMap.getElem?_insert, if_neg hsame]
      exact h.live blobRef bytes hb
    · rw [ExtTreeMap.getElem?_insert] at ht
      split_ifs at ht with hsame
      · rw [← Option.some.inj ht]
        exact Std.compare_eq_iff_eq.mp hsame
      · exact h.named blobRef t ht

theorem Refines.get_eq_iff (hc : c.Sound) (hj : j.Inverse) (h : Refines c j m d) (blobRef : String) :
    m.get c blobRef = d.get c j blobRef ↔
      ∀ bytes, m.blobs[blobRef]? = some bytes → Tombstone.fromPersisted j bytes = none := by
  unfold InMemoryColdStore.get DirColdStore.get
  cases hparse : refHash blobRef with
  | error e =>
    refine iff_of_true rfl fun bytes hb => ?_
    obtain ⟨hash, hok, -⟩ := refHash_coldRefFor hc bytes
    rw [(h.live blobRef bytes hb).1, hparse] at hok
    cases hok
  | ok hash =>
    obtain rfl := refHash_eq_ok hparse
    simp only [h.file hash]
    cases hb : m.blobs[hash.ref]? with
    | some bytes =>
      obtain ⟨hnamed, hnone⟩ := h.live _ _ hb
      simp only [hnone, hnamed, Option.map_none, Option.none_or, Option.some.injEq, forall_eq']
      cases hp : Tombstone.fromPersisted j bytes with
      | none => simp
      | some t => by_cases ht : t.erasedRef = hash.ref <;> simp [ht]
    | none =>
      refine iff_of_true ?_ (by simp)
      cases ht : m.tombstones[hash.ref]? with
      | none => simp
      | some t => simp [Tombstone.fromPersisted_canonicalBytes hj, h.named _ _ ht]

theorem Refines.call (hc : c.Sound) (h : Refines c j m d) (next : ColdCall) :
    Refines c j (m.call c next).2 (d.call c j next).2 := by
  cases next with
  | put bytes => exact (h.put hc bytes).2
  | get blobRef => exact h
  | erase blobRef record => exact (h.erase blobRef record).2

theorem Refines.answer_eq_iff (hc : c.Sound) (hj : j.Inverse) (h : Refines c j m d) (next : ColdCall) :
    (d.call c j next).1 = (m.call c next).1 ↔ ∀ blobRef bytes, next = .get blobRef →
      m.blobs[blobRef]? = some bytes → Tombstone.fromPersisted j bytes = none := by
  cases next with
  | put bytes => exact iff_of_true (congrArg ColdAnswer.put (h.put hc bytes).1.symm) nofun
  | get blobRef =>
    have hget := h.get_eq_iff hc hj blobRef
    constructor
    · rintro he blobRef bytes hsame hb
      obtain rfl := ColdCall.get.inj hsame
      exact hget.mp (ColdAnswer.get.inj he).symm bytes hb
    · exact fun hplain => congrArg ColdAnswer.get (hget.mpr fun bytes hb => hplain blobRef bytes rfl hb).symm
  | erase blobRef record => exact iff_of_true (congrArg ColdAnswer.erase (h.erase blobRef record).1.symm) nofun

/-- The condition under which no read of the directory takes a blob for a tombstone. -/
def ReadsApart (c : Crates) (j : TombstoneJson) (m : InMemoryColdStore) (calls : List ColdCall) : Prop :=
  ∀ before next rest, calls = before ++ next :: rest → ∀ blobRef bytes, next = .get blobRef →
    (after (InMemoryColdStore.call c) m before).blobs[blobRef]? = some bytes → Tombstone.fromPersisted j bytes = none

theorem Refines.answers_eq_iff (hc : c.Sound) (hj : j.Inverse) (h : Refines c j m d) (calls : List ColdCall) :
    answers (DirColdStore.call c j) d calls = answers (InMemoryColdStore.call c) m calls ↔
      ReadsApart c j m calls := by
  induction calls generalizing m d with
  | nil => exact iff_of_true rfl fun before next rest he => by simp at he
  | cons next calls ih =>
    rw [answers, answers, List.cons.injEq, h.answer_eq_iff hc hj, ih (h.call hc next)]
    unfold ReadsApart
    rw [forall_split_cons]
    rfl

end Refinement

section History

variable {c : Crates} {j : TombstoneJson} {calls : List ColdCall}

/-- The bytes were put and their reference was not erased. -/
def Live (c : Crates) (calls : List ColdCall) (bytes : Bytes) : Prop :=
  .put bytes ∈ calls ∧ ∀ record, .erase (coldRefFor c bytes) record ∉ calls

structure Remembers (c : Crates) (calls : List ColdCall) (m : InMemoryColdStore) : Prop where
  buried : ∀ bytes, m.tombstones[coldRefFor c bytes]? = none ↔ ∀ record, .erase (coldRefFor c bytes) record ∉ calls
  live : ∀ blobRef bytes, m.blobs[blobRef]? = some bytes → coldRefFor c bytes = blobRef ∧ Live c calls bytes
  kept : ∀ bytes, Live c calls bytes → ∃ bytes', m.blobs[coldRefFor c bytes]? = some bytes'

theorem Remembers.put {m : InMemoryColdStore} (h : Remembers c calls m) (bytes : Bytes) :
    Remembers c (calls ++ [.put bytes]) (m.put c bytes).2 := by
  obtain ⟨-, htomb, hblobs⟩ := InMemoryColdStore.put_spec m bytes
  have hsame : ∀ a, Live c (calls ++ [.put bytes]) a ↔ Live c calls a ∨ a = bytes ∧
      ∀ record, .erase (coldRefFor c a) record ∉ calls := by
    intro a
    simp only [Live, List.mem_append, List.mem_singleton, ColdCall.put.injEq, reduceCtorEq, or_false]
    exact or_and_right
  refine ⟨fun a => ?_, fun blobRef a ha => ?_, fun a ha => ?_⟩
  · rw [htomb, h.buried]
    simp
  · rw [hblobs] at ha
    rw [hsame]
    split_ifs at ha with hnew
    · obtain rfl := Option.some.inj ha
      obtain ⟨rfl, hnone, -⟩ := hnew
      exact ⟨rfl, .inr ⟨rfl, (h.buried _).mp hnone⟩⟩
    · obtain ⟨href, hlive⟩ := h.live _ _ ha
      exact ⟨href, .inl hlive⟩
  · rw [hblobs]
    split_ifs with hnew
    · exact ⟨_, rfl⟩
    · rcases (hsame a).mp ha with hlive | ⟨rfl, hkept⟩
      · exact h.kept a hlive
      · refine Option.ne_none_iff_exists'.mp fun hnone => hnew ⟨rfl, (h.buried _).mpr hkept, hnone⟩

theorem Remembers.erase {m : InMemoryColdStore} (hc : c.Sound) (h : Remembers c calls m) (blobRef : String)
    (record : TombstoneRecord) : Remembers c (calls ++ [.erase blobRef record]) (m.erase blobRef record).2 := by
  have hkept : ∀ a, (∀ r, ColdCall.erase (coldRefFor c a) r ∉ calls ++ [.erase blobRef record]) ↔
      (∀ r, ColdCall.erase (coldRefFor c a) r ∉ calls) ∧ coldRefFor c a ≠ blobRef := by
    intro a
    simp only [List.mem_append, List.mem_singleton, ColdCall.erase.injEq, not_or, forall_and]
    refine and_congr_right fun _ => ?_
    exact ⟨fun hne he => hne record ⟨he, rfl⟩, fun hne _ he => hne he.1⟩
  have hlive : ∀ a, Live c (calls ++ [.erase blobRef record]) a ↔ Live c calls a ∧ coldRefFor c a ≠ blobRef := by
    intro a
    have hput : .put a ∈ calls ++ [.erase blobRef record] ↔ ColdCall.put a ∈ calls := by simp
    rw [Live, hput, hkept, Live, and_assoc]
  unfold InMemoryColdStore.erase
  cases hparse : refHash blobRef with
  | error e =>
    -- no reference of stored bytes is refused
    have hne : ∀ a, coldRefFor c a ≠ blobRef := by
      rintro a rfl
      obtain ⟨hash, hok, -⟩ := refHash_coldRefFor hc a
      rw [hparse] at hok
      cases hok
    refine ⟨fun a => ?_, fun blobRef a ha => ?_, fun a ha => ?_⟩
    · rw [hkept, h.buried]
      exact (and_iff_left (hne a)).symm
    · obtain ⟨href, hold⟩ := h.live _ _ ha
      exact ⟨href, (hlive a).mpr ⟨hold, hne a⟩⟩
    · exact h.kept a ((hlive a).mp ha).1
  | ok hash =>
    refine ⟨fun a => ?_, fun blobRef' a ha => ?_, fun a ha => ?_⟩
    · simp only [hkept, ← h.buried, ExtTreeMap.getElem?_insert, Std.compare_eq_iff_eq]
      by_cases hsame : blobRef = coldRefFor c a
      · simp [hsame]
      · simp [hsame, Ne.symm hsame]
    · simp only [ExtTreeMap.getElem?_erase, Std.compare_eq_iff_eq] at ha
      split_ifs at ha with hsame
      obtain ⟨rfl, hold⟩ := h.live _ _ ha
      exact ⟨rfl, (hlive a).mpr ⟨hold, Ne.symm hsame⟩⟩
    · obtain ⟨hold, hne⟩ := (hlive a).mp ha
      rw [ExtTreeMap.getElem?_erase, if_neg (by simpa using Ne.symm hne)]
      exact h.kept a hold

theorem remembers_after (hc : c.Sound) (calls : List ColdCall) :
    Remembers c calls (after (InMemoryColdStore.call c) .new calls) := by
  induction calls using List.reverseRecOn with
  | nil => exact ⟨by simp [after, InMemoryColdStore.new], by simp [after, InMemoryColdStore.new], by simp [Live]⟩
  | append_singleton calls next ih =>
    rw [after, List.foldl_concat]
    cases next with
    | put bytes => exact ih.put bytes
    | get blobRef =>
      have hlive : ∀ a, Live c (calls ++ [.get blobRef]) a ↔ Live c calls a := by simp [Live]
      refine ⟨fun a => (ih.buried a).trans (by simp), fun r a ha => ?_, fun a ha => ih.kept a ((hlive a).mp ha)⟩
      · rw [hlive]
        exact ih.live r a ha
    | erase blobRef record => exact ih.erase hc blobRef record

/-- Without a collision among the bytes put, the blob of a reference is the one that
was put and not erased. -/
theorem blobs_eq_some_iff (hc : c.Sound)
    (hfree : ∀ a b, .put a ∈ calls → .put b ∈ calls → c.digest a = c.digest b → a = b) {blobRef : String}
    {bytes : Bytes} : (after (InMemoryColdStore.call c) .new calls).blobs[blobRef]? = some bytes ↔
      coldRefFor c bytes = blobRef ∧ Live c calls bytes := by
  have hmemory := remembers_after hc calls
  refine ⟨hmemory.live blobRef bytes, ?_⟩
  rintro ⟨rfl, hlive⟩
  obtain ⟨bytes', hb⟩ := hmemory.kept bytes hlive
  obtain ⟨href, hlive'⟩ := hmemory.live _ _ hb
  have hdigest : c.digest bytes' = c.digest bytes := hexEncode_injective (String.append_right_inj _ |>.mp href)
  rw [hb, hfree bytes' bytes hlive'.1 hlive.1 hdigest]

end History

theorem refines_after {c : Crates} {j : TombstoneJson} (hc : c.Sound) (root process : String)
    (calls : List ColdCall) :
    Refines c j (after (InMemoryColdStore.call c) .new calls)
      (after (DirColdStore.call c j) ⟨root, process, ∅⟩ calls) := by
  induction calls using List.reverseRecOn with
  | nil => exact .new c j root process
  | append_singleton calls next ih =>
    rw [after, after, List.foldl_concat, List.foldl_concat]
    exact ih.call hc next

theorem get_of_blob {c : Crates} {m : InMemoryColdStore} (hc : c.Sound) {bytes : Bytes}
    (h : m.blobs[coldRefFor c bytes]? = some bytes) : m.get c (coldRefFor c bytes) = .ok (.present bytes) := by
  obtain ⟨hash, hok, -⟩ := refHash_coldRefFor hc bytes
  simp [InMemoryColdStore.get, hok, h]

/-- The directory answers as the memory does, and returns the bytes that were put and
not erased, exactly when no such bytes that are asked for read as a tombstone. -/
theorem directory_refines_memory_iff {c : Crates} {j : TombstoneJson} (hc : c.Sound) (hj : j.Inverse)
    (root process : String) {calls : List ColdCall}
    (hfree : ∀ a b, .put a ∈ calls → .put b ∈ calls → c.digest a = c.digest b → a = b) :
    (answers (DirColdStore.call c j) ⟨root, process, ∅⟩ calls = answers (InMemoryColdStore.call c) .new calls ∧
      ∀ before rest bytes, calls = before ++ .get (coldRefFor c bytes) :: rest → Live c before bytes →
        (after (DirColdStore.call c j) ⟨root, process, ∅⟩ before).get c j (coldRefFor c bytes) =
          .ok (.present bytes)) ↔
      ∀ before rest bytes, calls = before ++ .get (coldRefFor c bytes) :: rest → Live c before bytes →
        Tombstone.fromPersisted j bytes = none := by
  have hblobs : ∀ {before rest : List ColdCall} {next : ColdCall}, calls = before ++ next :: rest →
      ∀ {blobRef bytes}, (after (InMemoryColdStore.call c) .new before).blobs[blobRef]? = some bytes ↔
        coldRefFor c bytes = blobRef ∧ Live c before bytes := by
    intro before rest next hsplit blobRef bytes
    refine blobs_eq_some_iff hc fun a b ha hb => hfree a b ?_ ?_
    · exact hsplit ▸ List.mem_append_left _ ha
    · exact hsplit ▸ List.mem_append_left _ hb
  rw [(Refines.new c j root process).answers_eq_iff hc hj]
  constructor
  · rintro ⟨hreads, -⟩ before rest bytes hsplit hlive
    exact hreads before _ rest hsplit _ bytes rfl ((hblobs hsplit).mpr ⟨rfl, hlive⟩)
  · intro hplain
    constructor
    · rintro before _ rest hsplit blobRef bytes rfl hb
      obtain ⟨rfl, hlive⟩ := (hblobs hsplit).mp hb
      exact hplain before rest bytes hsplit hlive
    · intro before rest bytes hsplit hlive
      have hb := (hblobs hsplit).mpr ⟨rfl, hlive⟩
      rw [← ((refines_after hc root process before).get_eq_iff hc hj _).mpr, get_of_blob hc hb]
      intro other hother
      rw [Option.some.inj (hother.symm.trans hb)]
      exact hplain before rest bytes hsplit hlive

section Samples

def Tombstone.toValue (t : Tombstone) : Value :=
  .object [("erased_ref", .string t.erasedRef),
    ("record", .object [("requested_by", .string t.record.requestedBy),
      ("requested_at_unix", .number (.posInt t.record.requestedAtUnix.toNat)),
      ("policy_ref", .string t.record.policyRef)]),
    ("marker", .string t.marker)]

def Tombstone.ofValue (v : Value) : Option Tombstone := do
  let erasedRef ← v.fieldStr "erased_ref"
  let record ← v.get "record"
  let requestedBy ← record.fieldStr "requested_by"
  let requestedAtUnix ← (← record.get "requested_at_unix").asU64
  let policyRef ← record.fieldStr "policy_ref"
  let marker ← v.fieldStr "marker"
  return ⟨erasedRef, ⟨requestedBy, UInt64.ofNat requestedAtUnix, policyRef⟩, marker⟩

def crateJson (c : Crates) : TombstoneJson where
  toVec t := utf8 (c.print t.toValue)
  fromSlice bytes := ((readUtf8 bytes).bind c.fromStr).bind Tombstone.ofValue

theorem crateJson_inverse {c : Crates} (hc : c.Json) : (crateJson c).Inverse := by
  intro t
  have hp : t.toValue.Printable 127 := by
    refine .object (by simp) fun f hf => ?_
    simp only [List.mem_cons, List.not_mem_nil, or_false] at hf
    rcases hf with rfl | rfl | rfl
    · exact .string _
    · have hflat : (Value.object [("requested_by", .string t.record.requestedBy),
          ("requested_at_unix", .number (.posInt t.record.requestedAtUnix.toNat)),
          ("policy_ref", .string t.record.policyRef)]).Flat := by
        simpa [Value.Flat, Value.IsLeaf] using t.record.requestedAtUnix.toNat_lt
      exact hflat.printable 125
    · exact .string _
  simp only [crateJson, readUtf8_utf8, Option.bind_some, hc.reads_back _ hp]
  simp [Tombstone.ofValue, Tombstone.toValue, Value.fieldStr]

theorem memory_put_get {c : Crates} (hc : c.Sound) (bytes : Bytes) :
    answers (InMemoryColdStore.call c) .new [.put bytes, .get (coldRefFor c bytes)] =
      [.put (.ok (coldRefFor c bytes)), .get (.ok (.present bytes))] := by
  obtain ⟨hput, -, hblobs⟩ := @InMemoryColdStore.put_spec c .new bytes
  have hb := hblobs (coldRefFor c bytes)
  rw [if_pos (by simp [InMemoryColdStore.new])] at hb
  simp only [answers, InMemoryColdStore.call, Prod.map_fst, Prod.map_snd, id_eq, hput, get_of_blob hc hb]

theorem directory_put_get {c : Crates} {j : TombstoneJson} (hc : c.Sound) {bytes : Bytes} {t : Tombstone}
    (hread : Tombstone.fromPersisted j bytes = some t) (hne : t.erasedRef ≠ coldRefFor c bytes) :
    answers (DirColdStore.call c j) ⟨"cold", "1", ∅⟩ [.put bytes, .get (coldRefFor c bytes)] =
      [.put (.ok (coldRefFor c bytes)), .get (.error (.digestMismatch (coldRefFor c bytes) t.erasedRef))] := by
  obtain ⟨hash, hparse, href⟩ := refHash_coldRefFor hc bytes
  obtain ⟨hput, hfiles⟩ := DirColdStore.put_spec hc ⟨"cold", "1", ∅⟩ bytes
  have hfile := hfiles hash
  rw [if_pos (by simp [href])] at hfile
  simp [answers, DirColdStore.call, hput, DirColdStore.get, hparse, hfile, hread, hne]

/-- The persisted form of a tombstone, put as a blob. -/
def strayBytes : Bytes :=
  (Tombstone.new "" ⟨"dpo", 0, "case-1"⟩).canonicalBytes (crateJson reference)

theorem stray_blob_lost :
    answers (InMemoryColdStore.call reference) .new [.put strayBytes, .get (coldRefFor reference strayBytes)] =
        [.put (.ok (coldRefFor reference strayBytes)), .get (.ok (.present strayBytes))] ∧
      answers (DirColdStore.call reference (crateJson reference)) ⟨"cold", "1", ∅⟩
          [.put strayBytes, .get (coldRefFor reference strayBytes)] =
        [.put (.ok (coldRefFor reference strayBytes)),
          .get (.error (.digestMismatch (coldRefFor reference strayBytes) ""))] := by
  refine ⟨memory_put_get reference_sound _, directory_put_get reference_sound
    (Tombstone.fromPersisted_canonicalBytes (crateJson_inverse reference_json) _) fun he => ?_⟩
  have hlists := congrArg String.toList he
  rw [coldRefFor, String.toList_append] at hlists
  cases hlists

theorem plain_blob_read_alike :
    answers (DirColdStore.call reference (crateJson reference)) ⟨"cold", "1", ∅⟩
        [.put [1], .get (coldRefFor reference [1])] =
      answers (InMemoryColdStore.call reference) .new [.put [1], .get (coldRefFor reference [1])] := by
  refine ((directory_refines_memory_iff reference_sound (crateJson_inverse reference_json) "cold" "1" ?_).mpr ?_).1
  · simp +contextual
  · intro before rest bytes hsplit hlive
    have hmem : ColdCall.put bytes ∈ [ColdCall.put [1], .get (coldRefFor reference [1])] :=
      hsplit ▸ List.mem_append_left _ hlive.1
    obtain rfl : bytes = [1] := by simpa using hmem
    exact if_neg (by decide)

end Samples

end Hugit.Cold
