import Hugit.JsonRoundTrip
import Hugit.Sha256

/-! One record of the event log and the canonical bytes its hash covers. The
digest and the JSON reader and writer come from other crates and stay abstract. -/

namespace Hugit

/-- The third-party functions the store calls: `Sha256::digest`,
`serde_json::from_str` and the printing of a `serde_json::Value`. -/
structure Crates where
  digest : Bytes → Bytes
  fromStr : String → Option Value
  print : Value → String

/-- What the store relies on: 32-byte digests, and flat objects that survive
printing and parsing. -/
structure Crates.Sound (c : Crates) : Prop where
  digest_length : ∀ message, (c.digest message).length = 32
  round_trip : ∀ v : Value, v.Flat → c.fromStr (c.print v) = some v

def reference : Crates :=
  ⟨sha256, readJson, printJson⟩

theorem reference_sound : reference.Sound :=
  ⟨sha256_length, fun _ hv => readJson_printJson (hv.printable 126)⟩

structure EventRecord where
  seq : Nat
  prevHash : String
  thisHash : String
  kind : String
  principalChain : List String
  payload : String
  recordedAt : Nat
  deriving DecidableEq

def genesisPrevHash : String :=
  "0000000000000000000000000000000000000000000000000000000000000000"

def pushLpField (buf : Bytes) (field : String) : Bytes :=
  buf ++ beBytes 4 (utf8 field).length ++ utf8 field

def pushVecField (buf : Bytes) (elems : List String) : Bytes :=
  elems.foldl pushLpField (buf ++ beBytes 4 elems.length)

/-- The bytes under `this_hash`. The time of recording is not among them. -/
def thisHashPreimage (prevHash kind : String) (principalChain : List String) (payload : String)
    (seq : Nat) : Bytes :=
  let buf := pushLpField [] prevHash
  let buf := pushLpField buf kind
  let buf := pushVecField buf principalChain
  let buf := pushLpField buf payload
  buf ++ beBytes 8 seq

def computeThisHash (c : Crates) (prevHash kind : String) (principalChain : List String)
    (payload : String) (seq : Nat) : String :=
  hexEncode (c.digest (thisHashPreimage prevHash kind principalChain payload seq))

theorem pushLpField_eq (buf : Bytes) (field : String) :
    pushLpField buf field = buf ++ frame (utf8 field) := by
  simp [pushLpField, frame]

theorem pushVecField_eq (buf : Bytes) (elems : List String) :
    pushVecField buf elems = buf ++ frames (elems.map utf8) := by
  have hfold (es : List String) (b : Bytes) :
      es.foldl pushLpField b = b ++ (es.map utf8).flatMap frame := by
    induction es generalizing b with
    | nil => simp
    | cons e es ih => simp [ih, pushLpField_eq]
  simp [pushVecField, hfold, frames]

theorem thisHashPreimage_eq (prevHash kind : String) (principalChain : List String)
    (payload : String) (seq : Nat) :
    thisHashPreimage prevHash kind principalChain payload seq =
      frame (utf8 prevHash) ++ (frame (utf8 kind) ++
        (frames (principalChain.map utf8) ++ (frame (utf8 payload) ++ beBytes 8 seq))) := by
  simp [thisHashPreimage, pushLpField_eq, pushVecField_eq]

namespace EventRecord

def preimage (r : EventRecord) : Bytes :=
  thisHashPreimage r.prevHash r.kind r.principalChain r.payload r.seq

def recompute (c : Crates) (r : EventRecord) : String :=
  computeThisHash c r.prevHash r.kind r.principalChain r.payload r.seq

/-- Every length the preimage encodes fits in its 32-bit prefix, and the
sequence number is a 64-bit one. -/
structure Fits (r : EventRecord) : Prop where
  seq : r.seq < 2 ^ 64
  prevHash : (utf8 r.prevHash).length < 2 ^ 32
  kind : (utf8 r.kind).length < 2 ^ 32
  principals : r.principalChain.length < 2 ^ 32
  principal : ∀ p ∈ r.principalChain, (utf8 p).length < 2 ^ 32
  payload : (utf8 r.payload).length < 2 ^ 32

instance (r : EventRecord) : Decidable r.Fits :=
  decidable_of_iff
    (r.seq < 2 ^ 64 ∧ (utf8 r.prevHash).length < 2 ^ 32 ∧ (utf8 r.kind).length < 2 ^ 32 ∧
      r.principalChain.length < 2 ^ 32 ∧ (∀ p ∈ r.principalChain, (utf8 p).length < 2 ^ 32) ∧
      (utf8 r.payload).length < 2 ^ 32)
    ⟨fun ⟨h1, h2, h3, h4, h5, h6⟩ => ⟨h1, h2, h3, h4, h5, h6⟩,
      fun ⟨h1, h2, h3, h4, h5, h6⟩ => ⟨h1, h2, h3, h4, h5, h6⟩⟩

theorem preimage_inj {r s : EventRecord} (hr : r.Fits) (hs : s.Fits) (h : r.preimage = s.preimage) :
    r.prevHash = s.prevHash ∧ r.kind = s.kind ∧ r.principalChain = s.principalChain ∧
      r.payload = s.payload ∧ r.seq = s.seq := by
  simp only [preimage, thisHashPreimage_eq] at h
  obtain ⟨hp, h⟩ := frame_append_inj hr.prevHash hs.prevHash h
  obtain ⟨hk, h⟩ := frame_append_inj hr.kind hs.kind h
  obtain ⟨hc, h⟩ := frames_append_inj (by simpa using hr.principals) (by simpa using hs.principals)
    (by simpa using hr.principal) (by simpa using hs.principal) h
  obtain ⟨hl, h⟩ := frame_append_inj hr.payload hs.payload h
  exact ⟨utf8_injective hp, utf8_injective hk, utf8_injective.list_map hc, utf8_injective hl,
    beBytes_inj hr.seq hs.seq h⟩

end EventRecord

theorem computeThisHash_ne {c : Crates} (hc : c.Sound) {text : String} (ht : text.length ≠ 64)
    (prevHash kind : String) (principalChain : List String) (payload : String) (seq : Nat) :
    computeThisHash c prevHash kind principalChain payload seq ≠ text := by
  rintro rfl
  rw [computeThisHash, hexEncode_length, hc.digest_length] at ht
  exact ht rfl

end Hugit
