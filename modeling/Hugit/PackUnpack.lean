import Hugit.LastWrite
import Hugit.PackDelta

/-! Unpacking a pushed pack: inflate every entry, take the base objects, then
resolve deltas in passes against the pack and, when a pass stalls, the store. -/

namespace Hugit

inductive PackHeader where
  | base (kind : ObjectKind)
  | ofsDelta (baseDistance : Nat)
  | refDelta (baseId : Oid)
  deriving DecidableEq

structure PackEntry where
  header : PackHeader
  packOffset : Nat
  decompressedSize : Nat
  compressed : Option Bytes
  deriving DecidableEq

/-- `BytesToEntriesIter` of `gix_pack` and the zlib streams of `flate2`. -/
structure PackCodec where
  entries : Bytes → Except String (List (Except String PackEntry))
  inflate : Bytes → Except String Bytes
  writeAll : Bytes → Except String Unit
  finish : Bytes → Except String Bytes

structure RecvLimits where
  maxPackBytes : Nat
  maxInflatedBytes : Nat
  maxObjects : Nat
  maxDeltaPasses : Nat
  maxCasLookups : Nat
  deriving DecidableEq

def RecvLimits.default : RecvLimits where
  maxPackBytes := 16 * 1024 * 1024
  maxInflatedBytes := 32 * 1024 * 1024
  maxObjects := 1000000
  maxDeltaPasses := 1024
  maxCasLookups := 4096

structure CasObject where
  oid : Oid
  bytes : Bytes
  deriving DecidableEq

structure InMemoryCas where
  objects : List (Oid × Bytes)
  deriving DecidableEq

namespace InMemoryCas

def empty : InMemoryCas := ⟨[]⟩

def get (cas : InMemoryCas) (oid : Oid) : Option Bytes :=
  cas.objects.lookup oid

def contains (cas : InMemoryCas) (oid : Oid) : Bool :=
  (cas.get oid).isSome

def put (cas : InMemoryCas) (object : CasObject) : InMemoryCas :=
  if cas.contains object.oid then cas else ⟨cas.objects ++ [(object.oid, object.bytes)]⟩

end InMemoryCas

def storeObjects (cas : InMemoryCas) (objects : List CasObject) : InMemoryCas :=
  objects.foldl InMemoryCas.put cas

def beU32 (bytes : Bytes) : Nat :=
  bytes.foldl (fun n b => 256 * n + b.toNat) 0

def packHeaderObjectCount (pack : Bytes) : Except ReceiveError Nat :=
  -- the signature is "PACK"
  if pack.length < 12 ∨ pack.take 4 ≠ [80, 65, 67, 75] then
    .error (.malformedPack "pack too short or missing PACK signature")
  else
    let version := beU32 ((pack.drop 4).take 4)
    if version ≠ 2 then
      .error (.malformedPack ("unsupported pack version " ++ toString version ++ " (only V2 is accepted)"))
    else .ok (beU32 ((pack.drop 8).take 4))

def ObjectKind.asBytes : ObjectKind → Bytes
  | blob => [98, 108, 111, 98]
  | tree => [116, 114, 101, 101]
  | commit => [99, 111, 109, 109, 105, 116]
  | tag => [116, 97, 103]

def ObjectKind.ofBytes (token : Bytes) : Option ObjectKind :=
  [blob, tree, commit, tag].find? fun kind => kind.asBytes = token

def digitBytes (n : Nat) : Bytes :=
  (Nat.toDigits 10 n).map fun c => c.toNat.toUInt8

/-- `str::parse::<usize>`, without its bound: the number is compared with a
length right after. -/
def parseUsize (text : Bytes) : Option Nat :=
  let digits := (if text.head? = some 43 then text.tail else text).map fun b => Char.ofNat b.toNat
  if digits = [] ∨ digits.any (fun c => !c.isDigit) then none
  else some (Nat.ofDigitChars 10 digits 0)

def encodeLoose (object : GitObject) : Bytes :=
  object.kind.asBytes ++ 32 :: digitBytes object.data.length ++ 0 :: object.data

def parseLooseFraming (framing : Bytes) : Option GitObject :=
  match framing.dropWhile (· ≠ 0) with
  | [] => none
  | _ :: body =>
    let header := framing.takeWhile (· ≠ 0)
    match header.dropWhile (· ≠ 32) with
    | [] => none
    | _ :: digits => do
      let kind ← ObjectKind.ofBytes (header.takeWhile (· ≠ 32))
      let len ← parseUsize digits
      if len = body.length then some ⟨kind, body⟩ else none

section

variable (g : GitCodec) (p : PackCodec)

def decodeCasObject (bytes : Bytes) : Except ReceiveError GitObject :=
  match parseLooseFraming bytes with
  | some object => .ok object
  | none =>
    match p.inflate bytes with
    | .error e => .error (.malformedPack ("CAS thin-pack base inflate failed: " ++ e))
    | .ok inflated =>
      match parseLooseFraming inflated with
      | some object => .ok object
      | none => .error (.malformedPack "CAS thin-pack base is not a valid git loose object")

def inflateEntry (compressed : Bytes) (expectedSize : Nat) : Except ReceiveError Bytes :=
  match p.inflate compressed with
  | .error e => .error (.malformedPack ("entry inflate failed: " ++ e))
  | .ok out =>
    if out.length ≠ expectedSize then
      .error (.malformedPack ("entry inflated to " ++ toString out.length ++
        " bytes, header declared " ++ toString expectedSize))
    else .ok out

def zlibCompress (framing : Bytes) : Except ReceiveError Bytes :=
  match p.writeAll framing with
  | .error e => .error (.io ("zlib compress loose object: " ++ e))
  | .ok () =>
    match p.finish framing with
    | .error e => .error (.io ("zlib finish loose object: " ++ e))
    | .ok bytes => .ok bytes

structure RawEntry where
  header : PackHeader
  packOffset : Nat
  data : Bytes
  deriving DecidableEq

def readEntries (limits : RecvLimits) :
    List (Except String PackEntry) → Nat → Nat → Except ReceiveError (List RawEntry)
  | [], _, _ => .ok []
  | item :: items, count, totalInflated =>
    match item with
    | .error e => .error (.malformedPack ("pack entry: " ++ e))
    | .ok entry =>
      let count := count + 1
      let totalInflated := saturatingAdd totalInflated entry.decompressedSize
      if limits.maxObjects < count then
        .error (.decompressionBomb ("unpacked object count " ++ toString count ++
          " exceeds ceiling " ++ toString limits.maxObjects))
      else if limits.maxInflatedBytes < totalInflated then
        .error (.decompressionBomb ("inflated total " ++ toString totalInflated ++
          " bytes exceeds ceiling " ++ toString limits.maxInflatedBytes ++ " bytes"))
      else
        match entry.compressed with
        | none => .error (.malformedPack "pack entry carried no compressed payload")
        | some compressed => do
          let data ← inflateEntry p compressed entry.decompressedSize
          let raws ← readEntries limits items count totalInflated
          return ⟨entry.header, entry.packOffset, data⟩ :: raws

/-- The state of the resolution: what each entry resolved to, the index an oid
resolved at, newest first, the objects so far and the counters. -/
structure Unpacking where
  resolved : List (Option GitObject)
  oidToIndex : List (Oid × Nat)
  byOid : List (Oid × GitObject)
  objects : List CasObject
  totalResolved : Nat
  casLookups : Nat
  deriving DecidableEq

namespace Unpacking

def start (entries : Nat) : Unpacking :=
  ⟨List.replicate entries none, [], [], [], 0, 0⟩

def finalize (limits : RecvLimits) (object : GitObject) (s : Unpacking) :
    Except ReceiveError (Oid × Unpacking) :=
  match g.computeHash object.kind object.data with
  | .error e => .error (.malformedPack ("oid hashing failed: " ++ e))
  | .ok oid =>
    if (s.byOid.lookup oid).isSome then .ok (oid, s)
    else
      let total := saturatingAdd s.totalResolved object.data.length
      if limits.maxInflatedBytes < total then
        .error (.decompressionBomb ("resolved object total " ++ toString total ++
          " bytes exceeds ceiling " ++ toString limits.maxInflatedBytes ++ " bytes"))
      else do
        let bytes ← zlibCompress p (encodeLoose object)
        return (oid, { s with
          byOid := s.byOid ++ [(oid, object)]
          objects := s.objects ++ [⟨oid, bytes⟩]
          totalResolved := total })

def settle (limits : RecvLimits) (i : Nat) (object : GitObject) (s : Unpacking) :
    Except ReceiveError Unpacking := do
  let r ← finalize g p limits object s
  return { r.2 with
    resolved := r.2.resolved.set i (some object)
    oidToIndex := (r.1, i) :: r.2.oidToIndex }

def settleBases (limits : RecvLimits) : List (RawEntry × Nat) → Unpacking → Except ReceiveError Unpacking
  | [], s => .ok s
  | (raw, i) :: rest, s =>
    match raw.header with
    | .base kind => do
      let s ← settle g p limits i ⟨kind, raw.data⟩ s
      settleBases limits rest s
    | _ => settleBases limits rest s

def resolve (limits : RecvLimits) (i : Nat) (base : GitObject) (delta : Bytes) (s : Unpacking) :
    Except ReceiveError Unpacking := do
  let data ← applyDelta base.data delta (limits.maxInflatedBytes - s.totalResolved)
  settle g p limits i ⟨base.kind, data⟩ s

def baseIndex (raws : List RawEntry) (raw : RawEntry) (s : Unpacking) :
    Except ReceiveError (Option Nat) :=
  match raw.header with
  | .ofsDelta baseDistance =>
    if raw.packOffset < baseDistance ∨ baseDistance = 0 then
      .error (.malformedPack "OFS_DELTA base offset out of range")
    else
      match lastWrite (raw.packOffset - baseDistance) (raws.zipIdx.map fun r => (r.1.packOffset, r.2)) with
      | some i => .ok (some i)
      | none => .error (.malformedPack "OFS_DELTA base offset not an entry boundary")
  | .refDelta baseId => .ok (s.oidToIndex.lookup baseId)
  | .base _ => .error (.malformedPack "non-delta entry left unresolved")

structure Pass where
  state : Unpacking
  pending : List Nat
  progressed : Bool
  deriving DecidableEq

def Pass.defer (i : Nat) (pass : Pass) : Pass :=
  { pass with pending := pass.pending ++ [i] }

def packStep (limits : RecvLimits) (raws : List RawEntry) (pass : Pass) (i : Nat) :
    Except ReceiveError Pass :=
  match raws[i]? with
  | none => .ok pass
  | some raw => do
    match ← baseIndex raws raw pass.state with
    | none => return pass.defer i
    | some b =>
      match (pass.state.resolved[b]?).join with
      | none => return pass.defer i
      | some base =>
        let s ← resolve g p limits i base raw.data pass.state
        return { pass with state := s, progressed := true }

def casStep (limits : RecvLimits) (cas : InMemoryCas) (raws : List RawEntry) (pass : Pass) (i : Nat) :
    Except ReceiveError Pass :=
  match raws[i]? with
  | none => .ok pass
  | some raw =>
    match raw.header with
    | .refDelta baseId =>
      let lookups := pass.state.casLookups + 1
      if limits.maxCasLookups < lookups then .error (.casLookupBudgetExceeded limits.maxCasLookups)
      else
        let s := { pass.state with casLookups := lookups }
        match cas.get baseId with
        | none => .ok { pass with state := s, pending := pass.pending ++ [i] }
        | some rawBase => do
          let base ← decodeCasObject p rawBase
          let s ← resolve g p limits i base raw.data s
          return { pass with state := s, progressed := true }
    | _ => .ok (pass.defer i)

/-- Passes over the remaining deltas until none is left. A pass that resolves
nothing from the pack is followed by one that looks into the store. -/
def resolveDeltas (limits : RecvLimits) (cas : InMemoryCas) (raws : List RawEntry) :
    Nat → List Nat → Unpacking → Except ReceiveError Unpacking
  | _, [], s => .ok s
  | 0, i :: rest, _ =>
    .error (.decompressionBomb ("delta resolution exceeded " ++ toString limits.maxDeltaPasses ++
      " passes with " ++ toString (i :: rest).length ++ " entries still unresolved — pathological " ++
      "(reverse-ordered) delta dependency graph, rejected fail-closed " ++
      "(algorithmic-complexity DoS guard)"))
  | passes + 1, i :: rest, s => do
    let pass ← (i :: rest).foldlM (packStep g p limits raws) ⟨s, [], false⟩
    if pass.progressed then resolveDeltas limits cas raws passes pass.pending pass.state
    else
      let thin ← (i :: rest).foldlM (casStep g p limits cas raws) ⟨pass.state, [], false⟩
      if thin.progressed then resolveDeltas limits cas raws passes thin.pending thin.state
      else .error (.malformedPack "thin pack: a delta's base object is in neither the pack nor the CAS")

end Unpacking

structure UnpackedPack where
  objects : List CasObject
  byOid : List (Oid × GitObject)
  deriving DecidableEq

def unpackPack (pack : Bytes) (cas : InMemoryCas) (limits : RecvLimits) :
    Except ReceiveError UnpackedPack := do
  let _ ← packHeaderObjectCount pack
  match p.entries pack with
  | .error e => .error (.malformedPack ("pack header: " ++ e))
  | .ok items =>
    let raws ← readEntries p limits items 0 0
    let s ← Unpacking.settleBases g p limits raws.zipIdx (Unpacking.start raws.length)
    let remaining := (List.range raws.length).filter fun i => ((s.resolved[i]?).join).isNone
    let s ← Unpacking.resolveDeltas g p limits cas raws limits.maxDeltaPasses remaining s
    return ⟨s.objects, s.byOid⟩

end

end Hugit
