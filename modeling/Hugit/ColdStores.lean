import Hugit.CanonicalJson
import Hugit.Fallible
import Hugit.Text
import Std.Data.ExtTreeMap.Lemmas

/-! The cold blob stores, in memory and in a directory. The directory keeps a blob and
the tombstone that replaces it in one file, the memory keeps them in two maps. -/

namespace Hugit.Cold

open Std

inductive ColdStoreError where
  | notWired (what : String)
  | io (detail : String)
  | invalidRef (what : String)
  | digestMismatch (requested actual : String)
  deriving DecidableEq

def coldRefPrefix : String := "cas:"

def coldRefFor (c : Crates) (bytes : Bytes) : String :=
  coldRefPrefix ++ hexEncode (c.digest bytes)

def isLowerHex (c : Char) : Bool :=
  c.isDigit || ('a' ≤ c && c ≤ 'f')

structure ColdHash where
  text : String
  length : text.toList.length = 64
  hex : text.toList.all isLowerHex = true

def ColdHash.ref (hash : ColdHash) : String :=
  coldRefPrefix ++ hash.text

def ColdHash.parse (text : String) : Option ColdHash :=
  if h : text.toList.length = 64 ∧ text.toList.all isLowerHex = true then some ⟨text, h.1, h.2⟩ else none

def refHash (blobRef : String) : Except ColdStoreError ColdHash :=
  match stripPrefix coldRefPrefix.toList blobRef.toList with
  | none => .error (.invalidRef ("missing '" ++ coldRefPrefix ++ "' prefix"))
  | some rest => okOr (ColdHash.parse (String.ofList rest)) (.invalidRef
      ("hash segment must match ^[0-9a-f]\x7b64\x7d$ (got " ++ toString (utf8 (String.ofList rest)).length ++
        " chars)"))

section Refs

theorem refHash_eq_ok {blobRef : String} {hash : ColdHash} (h : refHash blobRef = .ok hash) :
    blobRef = hash.ref := by
  rw [refHash] at h
  split at h
  · cases h
  · next rest hrest =>
    rw [ColdHash.parse] at h
    split_ifs at h with hh
    · obtain rfl := Except.ok.inj h
      have hlist := stripPrefix_eq_some.mp hrest
      rw [← String.toList_inj, ColdHash.ref, String.toList_append, String.toList_ofList]
      exact hlist
    · cases h

theorem refHash_coldRefFor {c : Crates} (hc : c.Sound) (bytes : Bytes) :
    ∃ hash, refHash (coldRefFor c bytes) = .ok hash ∧ hash.ref = coldRefFor c bytes := by
  have hlen : (hexEncode (c.digest bytes)).toList.length = 64 := by
    rw [String.length_toList, hexEncode_length, hc.digest_length]
  have hhex : (hexEncode (c.digest bytes)).toList.all isLowerHex = true := by
    refine List.all_eq_true.mpr fun x hx => ?_
    obtain ⟨n, hn, rfl⟩ := mem_hexEncode hx
    have hdigits : ∀ n < 16, isLowerHex (hexDigit n) = true := by decide
    exact hdigits n hn
  have hrest : stripPrefix coldRefPrefix.toList (coldRefFor c bytes).toList =
      some (hexEncode (c.digest bytes)).toList := by
    rw [coldRefFor, String.toList_append]
    exact stripPrefix_append _ _
  refine ⟨⟨hexEncode (c.digest bytes), hlen, hhex⟩, ?_, rfl⟩
  simp only [refHash, hrest, String.ofList_toList, ColdHash.parse, dif_pos (And.intro hlen hhex), okOr_some]

theorem ColdHash.ref_inj {h k : ColdHash} (he : h.ref = k.ref) : h.text = k.text :=
  String.append_right_inj _ |>.mp he

theorem ColdHash.ref_eq_iff {h k : ColdHash} : h.ref = k.ref ↔ h.text = k.text :=
  ⟨ref_inj, fun he => by rw [ColdHash.ref, he, ColdHash.ref]⟩

end Refs

structure TombstoneRecord where
  requestedBy : String
  requestedAtUnix : UInt64
  policyRef : String
  deriving DecidableEq

structure Tombstone where
  erasedRef : String
  record : TombstoneRecord
  marker : String
  deriving DecidableEq

def tombstoneMarker : String := "tombstone"

/-- The bytes of `hugit-cold-tombstone-v1` and a line feed. -/
def tombstoneSentinel : Bytes :=
  [104, 117, 103, 105, 116, 45, 99, 111, 108, 100, 45, 116, 111, 109, 98, 115, 116, 111, 110, 101, 45, 118, 49, 10]

/-- The reader and the writer of the JSON crate at tombstones. -/
structure TombstoneJson where
  toVec : Tombstone → Bytes
  fromSlice : Bytes → Option Tombstone

def TombstoneJson.Inverse (j : TombstoneJson) : Prop :=
  ∀ t, j.fromSlice (j.toVec t) = some t

namespace Tombstone

def new (erasedRef : String) (record : TombstoneRecord) : Tombstone :=
  ⟨erasedRef, record, tombstoneMarker⟩

def canonicalBytes (j : TombstoneJson) (t : Tombstone) : Bytes :=
  tombstoneSentinel ++ j.toVec t

def fromPersisted (j : TombstoneJson) (bytes : Bytes) : Option Tombstone :=
  if tombstoneSentinel <+: bytes then j.fromSlice (bytes.drop tombstoneSentinel.length) else none

theorem fromPersisted_canonicalBytes {j : TombstoneJson} (hj : j.Inverse) (t : Tombstone) :
    fromPersisted j (t.canonicalBytes j) = some t := by
  have hpre : tombstoneSentinel <+: t.canonicalBytes j := List.prefix_append _ _
  have hdrop : (t.canonicalBytes j).drop tombstoneSentinel.length = j.toVec t := List.drop_left
  rw [fromPersisted, if_pos hpre, hdrop, hj]

end Tombstone

inductive GetOutcome where
  | present (bytes : Bytes)
  | erased (tombstone : Tombstone)
  | absent
  deriving DecidableEq

structure InMemoryColdStore where
  blobs : ExtTreeMap String Bytes
  tombstones : ExtTreeMap String Tombstone

namespace InMemoryColdStore

def new : InMemoryColdStore := ⟨∅, ∅⟩

variable (c : Crates) (s : InMemoryColdStore)

def put (bytes : Bytes) : Except ColdStoreError String × InMemoryColdStore :=
  let blobRef := coldRefFor c bytes
  if s.tombstones.contains blobRef then (.ok blobRef, s)
  else (.ok blobRef, { s with blobs := s.blobs.insertIfNew blobRef bytes })

def get (blobRef : String) : Except ColdStoreError GetOutcome :=
  match refHash blobRef with
  | .error e => .error e
  | .ok _ =>
    match s.blobs[blobRef]? with
    | some bytes =>
      let actual := coldRefFor c bytes
      if actual ≠ blobRef then .error (.digestMismatch blobRef actual) else .ok (.present bytes)
    | none =>
      match s.tombstones[blobRef]? with
      | some tombstone => .ok (.erased tombstone)
      | none => .ok .absent

def erase (blobRef : String) (record : TombstoneRecord) : Except ColdStoreError Tombstone × InMemoryColdStore :=
  match refHash blobRef with
  | .error e => (.error e, s)
  | .ok _ =>
    let tombstone := Tombstone.new blobRef record
    (.ok tombstone, ⟨s.blobs.erase blobRef, s.tombstones.insert blobRef tombstone⟩)

end InMemoryColdStore

/-- The store of one process, with the files of its root directory. -/
structure DirColdStore where
  root : String
  process : String
  files : ExtTreeMap String Bytes

namespace DirColdStore

variable (c : Crates) (j : TombstoneJson) (s : DirColdStore)

def path (name : String) : String := s.root ++ "/" ++ name

def write (name : String) (bytes : Bytes) : DirColdStore :=
  { s with files := s.files.insert name bytes }

def rename (source target : String) : Option DirColdStore :=
  s.files[source]?.map fun bytes => { s with files := (s.files.erase source).insert target bytes }

def notFound : String := "No such file or directory (os error 2)"

def put (bytes : Bytes) : Except ColdStoreError String × DirColdStore :=
  let blobRef := coldRefFor c bytes
  match refHash blobRef with
  | .error e => (.error e, s)
  | .ok hash =>
    if s.files.contains hash.text then (.ok blobRef, s)
    else
      let tmp := hash.text ++ ".tmp-" ++ s.process
      let written := s.write tmp bytes
      match written.rename tmp hash.text with
      | none => (.error (.io ("publishing " ++ s.path hash.text ++ ": " ++ notFound)), written)
      | some published => (.ok blobRef, published)

def get (blobRef : String) : Except ColdStoreError GetOutcome :=
  match refHash blobRef with
  | .error e => .error e
  | .ok hash =>
    match s.files[hash.text]? with
    | none => .ok .absent
    | some bytes =>
      match Tombstone.fromPersisted j bytes with
      | some tombstone =>
        if tombstone.erasedRef ≠ blobRef then .error (.digestMismatch blobRef tombstone.erasedRef)
        else .ok (.erased tombstone)
      | none =>
        let actual := coldRefFor c bytes
        if actual ≠ blobRef then .error (.digestMismatch blobRef actual) else .ok (.present bytes)

def erase (blobRef : String) (record : TombstoneRecord) : Except ColdStoreError Tombstone × DirColdStore :=
  match refHash blobRef with
  | .error e => (.error e, s)
  | .ok hash =>
    let tombstone := Tombstone.new blobRef record
    let tmp := hash.text ++ ".tombstone.tmp-" ++ s.process
    let written := s.write tmp (tombstone.canonicalBytes j)
    match written.rename tmp hash.text with
    | none => (.error (.io ("publishing tombstone " ++ s.path hash.text ++ ": " ++ notFound)), written)
    | some published => (.ok tombstone, published)

end DirColdStore

inductive ColdCall where
  | put (bytes : Bytes)
  | get (blobRef : String)
  | erase (blobRef : String) (record : TombstoneRecord)
  deriving DecidableEq

inductive ColdAnswer where
  | put (answer : Except ColdStoreError String)
  | get (answer : Except ColdStoreError GetOutcome)
  | erase (answer : Except ColdStoreError Tombstone)
  deriving DecidableEq

def InMemoryColdStore.call (c : Crates) (s : InMemoryColdStore) : ColdCall → ColdAnswer × InMemoryColdStore
  | .put bytes => ((s.put c bytes).map .put id)
  | .get blobRef => (.get (s.get c blobRef), s)
  | .erase blobRef record => ((s.erase blobRef record).map .erase id)

def DirColdStore.call (c : Crates) (j : TombstoneJson) (s : DirColdStore) : ColdCall → ColdAnswer × DirColdStore
  | .put bytes => ((s.put c bytes).map .put id)
  | .get blobRef => (.get (s.get c j blobRef), s)
  | .erase blobRef record => ((s.erase j blobRef record).map .erase id)

/-- The answers of a sequence of calls. -/
def answers {σ : Type} (call : σ → ColdCall → ColdAnswer × σ) : σ → List ColdCall → List ColdAnswer
  | _, [] => []
  | s, next :: calls => (call s next).1 :: answers call (call s next).2 calls

def after {σ : Type} (call : σ → ColdCall → ColdAnswer × σ) (s : σ) (calls : List ColdCall) : σ :=
  calls.foldl (fun s next => (call s next).2) s

end Hugit.Cold
