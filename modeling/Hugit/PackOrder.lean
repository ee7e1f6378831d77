import Hugit.PackResolution
import Hugit.PlainGit

/-! What an unpacking finds does not depend on the order of the entries: the
objects of a pack are what its entries stand for, and that is unique as long as
the store files objects under their hashes and hashes do not collide. -/

namespace Hugit

def PackEntry.raw (p : PackCodec) (entry : PackEntry) : RawEntry :=
  ⟨entry.header, entry.packOffset, (entry.compressed.bind fun bytes => (p.inflate bytes).toOption).getD []⟩

def rawBytes (raws : List RawEntry) : Nat :=
  (raws.map fun raw => raw.data.length).sum

section

variable {g : GitCodec} {p : PackCodec} {cas : InMemoryCas} {limits : RecvLimits} {raws raws' : List RawEntry}

theorem readEntries_eq_ok {items : List (Except String PackEntry)} {count total : Nat}
    (h : readEntries p limits items count total = .ok raws) :
    (∃ entries : List PackEntry, items = entries.map .ok ∧ raws = entries.map (PackEntry.raw p)) ∧
      (total ≤ limits.maxInflatedBytes → min (total + rawBytes raws) (2 ^ 64 - 1) ≤ limits.maxInflatedBytes) := by
  induction items generalizing count total raws with
  | nil =>
    obtain rfl := Except.ok.inj h
    refine ⟨⟨[], rfl, rfl⟩, fun htotal => ?_⟩
    simp only [rawBytes, List.map_nil, List.sum_nil]
    omega
  | cons item items ih =>
    unfold readEntries at h
    split at h
    · cases h
    next entry =>
    obtain ⟨-, h⟩ := ite_error_eq_ok.mp h
    obtain ⟨hmax, h⟩ := ite_error_eq_ok.mp h
    split at h
    · cases h
    next compressed hcompressed =>
    obtain ⟨data, hdata, h⟩ := bind_eq_ok.mp h
    obtain ⟨rest, hrest, h⟩ := bind_eq_ok.mp h
    obtain rfl := pure_eq_ok.mp h
    obtain ⟨⟨entries, rfl, rfl⟩, hbytes⟩ := ih hrest
    unfold inflateEntry at hdata
    split at hdata
    · cases hdata
    next out hout =>
    obtain ⟨hsize, hdata⟩ := ite_error_eq_ok.mp hdata
    obtain rfl := Except.ok.inj hdata
    refine ⟨⟨entry :: entries, rfl, ?_⟩, fun _ => ?_⟩
    · simp [PackEntry.raw, hcompressed, hout, Except.toOption]
    · have hh := hbytes (Nat.not_lt.mp hmax)
      simp only [rawBytes, saturatingAdd, List.map_cons, List.sum_cons] at hh hmax ⊢
      omega

/-- Entries that rest on each other, or on nothing: none of them is a base
object, and whatever one of them could be based on is again one of them. -/
def Unfounded (g : GitCodec) (p : PackCodec) (cas : InMemoryCas) (raws : List RawEntry) (S : Set RawEntry) : Prop :=
  ∀ raw ∈ S, match raw.header with
    | .base _ => False
    | .ofsDelta distance => ∀ base ∈ raws, raw.BasedOn distance base → base ∈ S
    | .refDelta oid => cas.contains oid = false ∧ ∀ base object, Resolves g p cas raws base object →
        g.computeHash object.kind object.data = .ok oid → base ∈ S

variable {raw : RawEntry} {object : GitObject}

theorem Resolves.founded (h : Resolves g p cas raws raw object) {S : Set RawEntry} (hS : Unfounded g p cas raws S) :
    raw ∉ S := by
  induction h with
  | base _ header =>
    intro hmem
    simpa only [header] using hS _ hmem
  | ofs _ header based known _ ih =>
    intro hmem
    have hh := hS _ hmem
    simp only [header] at hh
    exact ih (hh _ known.mem based)
  | ref _ header known hash _ ih =>
    intro hmem
    have hh := hS _ hmem
    simp only [header] at hh
    exact ih (hh.2 _ _ known hash)
  | thin _ header stored _ _ =>
    intro hmem
    have hh := hS _ hmem
    simp only [header, InMemoryCas.contains, stored] at hh
    cases hh.1

def InMemoryCas.Addressed (g : GitCodec) (p : PackCodec) (cas : InMemoryCas) : Prop :=
  ∀ oid bytes object, cas.get oid = some bytes → decodeCasObject p bytes = .ok object →
    g.computeHash object.kind object.data = .ok oid

def Hashed (g : GitCodec) (p : PackCodec) (cas : InMemoryCas) (raws : List RawEntry) (object : GitObject) : Prop :=
  (∃ raw, Resolves g p cas raws raw object) ∨
    ∃ oid bytes, cas.get oid = some bytes ∧ decodeCasObject p bytes = .ok object

def CollisionFree (g : GitCodec) (p : PackCodec) (cas : InMemoryCas) (raws : List RawEntry) : Prop :=
  ∀ a b oid, Hashed g p cas raws a → Hashed g p cas raws b →
    g.computeHash a.kind a.data = .ok oid → g.computeHash b.kind b.data = .ok oid → a = b

/-- Entries at offsets of their own, whose objects and the store's do not collide. -/
structure Unambiguous (g : GitCodec) (p : PackCodec) (cas : InMemoryCas) (raws : List RawEntry) : Prop where
  offsets : (raws.map RawEntry.packOffset).Nodup
  free : CollisionFree g p cas raws

theorem Unambiguous.base_unique (h : Unambiguous g p cas raws) {raw base base' : RawEntry} {distance : Nat}
    (hmem : base ∈ raws) (hmem' : base' ∈ raws) (hb : raw.BasedOn distance base)
    (hb' : raw.BasedOn distance base') : base = base' :=
  List.inj_on_of_nodup_map h.offsets hmem hmem' (hb.2.2.trans hb'.2.2.symm)

theorem Resolves.named {oid : Oid} (h : Resolves g p cas raws raw object) (haddr : cas.Addressed g p)
    (hheader : raw.header = .refDelta oid) :
    ∃ base limit data, Hashed g p cas raws base ∧ g.computeHash base.kind base.data = .ok oid ∧
      applyDelta base.data raw.data limit = .ok data ∧ object = ⟨base.kind, data⟩ := by
  cases h with
  | base _ header => cases header.symm.trans hheader
  | ofs _ header => cases header.symm.trans hheader
  | ref _ header known hash delta =>
    obtain rfl := PackHeader.refDelta.inj (header.symm.trans hheader)
    exact ⟨_, _, _, .inl ⟨_, known⟩, hash, delta, rfl⟩
  | thin _ header stored decoded delta =>
    obtain rfl := PackHeader.refDelta.inj (header.symm.trans hheader)
    exact ⟨_, _, _, .inr ⟨_, _, stored, decoded⟩, haddr _ _ _ stored decoded, delta, rfl⟩

theorem Resolves.named_unique {a b : GitObject} {oid : Oid} (ha : Resolves g p cas raws raw a)
    (hb : Resolves g p cas raws raw b) (hu : Unambiguous g p cas raws) (haddr : cas.Addressed g p)
    (hheader : raw.header = .refDelta oid) : a = b := by
  obtain ⟨base, limit, data, hbase, hhash, hdelta, rfl⟩ := ha.named haddr hheader
  obtain ⟨base', limit', data', hbase', hhash', hdelta', rfl⟩ := hb.named haddr hheader
  obtain rfl := hu.free base base' oid hbase hbase' hhash hhash'
  rw [applyDelta_limit hdelta hdelta']

theorem Resolves.unique {a b : GitObject} (ha : Resolves g p cas raws raw a) (hb : Resolves g p cas raws raw b)
    (hu : Unambiguous g p cas raws) (haddr : cas.Addressed g p) : a = b := by
  induction ha generalizing b with
  | base _ header =>
    cases hb with
    | base _ header' =>
      obtain rfl := PackHeader.base.inj (header.symm.trans header')
      rfl
    | ofs _ header' => cases header.symm.trans header'
    | ref _ header' => cases header.symm.trans header'
    | thin _ header' => cases header.symm.trans header'
  | ofs _ header based known delta ih =>
    cases hb with
    | base _ header' => cases header.symm.trans header'
    | ofs _ header' based' known' delta' =>
      obtain rfl := PackHeader.ofsDelta.inj (header.symm.trans header')
      obtain rfl := hu.base_unique known.mem known'.mem based based'
      obtain rfl := ih known'
      rw [applyDelta_limit delta delta']
    | ref _ header' => cases header.symm.trans header'
    | thin _ header' => cases header.symm.trans header'
  | ref mem header known hash delta _ =>
    exact (Resolves.ref mem header known hash delta).named_unique hb hu haddr header
  | thin mem header stored decoded delta =>
    exact (Resolves.thin mem header stored decoded delta).named_unique hb hu haddr header

/-- Two entries with the same content whose bases, found by distance, are paired
as well. Distances change when a pack is written in another order. -/
inductive Paired (pairs : List (RawEntry × RawEntry)) : RawEntry → RawEntry → Prop
  | base {kind : ObjectKind} {offset offset' : Nat} {data : Bytes} :
      Paired pairs ⟨.base kind, offset, data⟩ ⟨.base kind, offset', data⟩
  | ofs {distance distance' offset offset' : Nat} {data : Bytes}
      (bases : ∀ b ∈ pairs, RawEntry.BasedOn ⟨.ofsDelta distance, offset, data⟩ distance b.1 ↔
        RawEntry.BasedOn ⟨.ofsDelta distance', offset', data⟩ distance' b.2) :
      Paired pairs ⟨.ofsDelta distance, offset, data⟩ ⟨.ofsDelta distance', offset', data⟩
  | ref {oid : Oid} {offset offset' : Nat} {data : Bytes} :
      Paired pairs ⟨.refDelta oid, offset, data⟩ ⟨.refDelta oid, offset', data⟩

def Rearranged (raws raws' : List RawEntry) : Prop :=
  ∃ pairs : List (RawEntry × RawEntry), raws.Perm (pairs.map Prod.fst) ∧ raws'.Perm (pairs.map Prod.snd) ∧
    ∀ a ∈ pairs, Paired pairs a.1 a.2

theorem Rearranged.symm (h : Rearranged raws raws') : Rearranged raws' raws := by
  obtain ⟨pairs, hl, hr, hpaired⟩ := h
  refine ⟨pairs.map Prod.swap, ?_, ?_, fun a ha => ?_⟩
  · rw [List.map_map]
    exact hr
  · rw [List.map_map]
    exact hl
  · obtain ⟨⟨raw, raw'⟩, hb, rfl⟩ := List.mem_map.mp ha
    have hh : Paired pairs raw raw' := hpaired _ hb
    cases hh with
    | base => exact .base
    | ref => exact .ref
    | ofs bases =>
      refine .ofs fun c hc => ?_
      obtain ⟨d, hd, rfl⟩ := List.mem_map.mp hc
      exact (bases d hd).symm

theorem Resolves.rearranged {pairs : List (RawEntry × RawEntry)} (hl : raws.Perm (pairs.map Prod.fst))
    (hr : raws'.Perm (pairs.map Prod.snd)) (hpaired : ∀ a ∈ pairs, Paired pairs a.1 a.2)
    (h : Resolves g p cas raws raw object) :
    ∀ raw', (raw, raw') ∈ pairs → Resolves g p cas raws' raw' object := by
  have hmem (raw' : RawEntry) (raw : RawEntry) (hraw : (raw, raw') ∈ pairs) : raw' ∈ raws' :=
    hr.mem_iff.mpr (List.mem_map_of_mem hraw)
  have hpartner (raw : RawEntry) (hraw : raw ∈ raws) : ∃ raw', (raw, raw') ∈ pairs := by
    obtain ⟨⟨_, raw'⟩, hb, rfl⟩ := List.mem_map.mp (hl.mem_iff.mp hraw)
    exact ⟨raw', hb⟩
  induction h with
  | base mem header =>
    intro raw' hraw
    have hm := hmem _ _ hraw
    cases hpaired _ hraw with
    | base =>
      obtain rfl := PackHeader.base.inj header
      exact Resolves.base hm rfl
    | ofs => cases header
    | ref => cases header
  | ofs mem header based known delta ih =>
    intro raw' hraw
    have hm := hmem _ _ hraw
    obtain ⟨base', hbase'⟩ := hpartner _ known.mem
    cases hpaired _ hraw with
    | base => cases header
    | ofs bases =>
      obtain rfl := PackHeader.ofsDelta.inj header
      exact .ofs hm rfl ((bases _ hbase').mp based) (ih base' hbase') delta
    | ref => cases header
  | ref mem header known hash delta ih =>
    intro raw' hraw
    have hm := hmem _ _ hraw
    obtain ⟨base', hbase'⟩ := hpartner _ known.mem
    cases hpaired _ hraw with
    | base => cases header
    | ofs => cases header
    | ref => exact .ref hm header (ih base' hbase') hash delta
  | thin mem header stored decoded delta =>
    intro raw' hraw
    have hm := hmem _ _ hraw
    cases hpaired _ hraw with
    | base => cases header
    | ofs => cases header
    | ref => exact .thin hm header stored decoded delta

structure UnpackedFrom (g : GitCodec) (p : PackCodec) (cas : InMemoryCas) (limits : RecvLimits)
    (raws : List RawEntry) (u : UnpackedPack) : Prop where
  resolved : ∀ raw ∈ raws, ∃ object oid, Resolves g p cas raws raw object ∧
    g.computeHash object.kind object.data = .ok oid ∧ oid ∈ u.byOid.map Prod.fst
  found : ∀ e ∈ u.byOid, ∃ raw ∈ raws, Resolves g p cas raws raw e.2
  hashed : ∀ e ∈ u.byOid, g.computeHash e.2.kind e.2.data = .ok e.1
  based : ∀ raw ∈ raws, raw.HasBase cas raws u.byOid
  founded : ∀ S, Unfounded g p cas raws S → ∀ raw ∈ raws, raw ∉ S
  read : min (rawBytes raws) (2 ^ 64 - 1) ≤ limits.maxInflatedBytes
  bytes : min (Unpacking.bytesOf u.byOid) (2 ^ 64 - 1) ≤ limits.maxInflatedBytes

theorem unpackPack_from {pack : Bytes} {u : UnpackedPack} (h : unpackPack g p pack cas limits = .ok u) :
    ∃ (entries : List PackEntry) (s : Unpacking), p.entries pack = .ok (entries.map .ok) ∧
      unpackState g p cas limits (entries.map (PackEntry.raw p)) = .ok s ∧ u = ⟨s.objects, s.byOid⟩ ∧
      s.casLookups ≤ limits.maxCasLookups ∧
      UnpackedFrom g p cas limits (entries.map (PackEntry.raw p)) u := by
  have hpacked := unpackPack_packed h
  obtain ⟨items, raws, s, hitems, hraws, hs, rfl⟩ := unpackPack_eq_ok h
  obtain ⟨⟨entries, rfl, rfl⟩, hread⟩ := readEntries_eq_ok hraws
  have hout := unpackState_resolved hs
  have hres := hout.resolution
  refine ⟨entries, s, hitems, hs, rfl, hres.lookups, ?_⟩
  have hsound (raw : RawEntry) (hraw : raw ∈ entries.map (PackEntry.raw p)) :
      ∃ object, Resolves g p cas (entries.map (PackEntry.raw p)) raw object ∧
        raw.HasBase cas (entries.map (PackEntry.raw p)) s.byOid ∧
        ∃ oid, g.computeHash object.kind object.data = .ok oid ∧ oid ∈ s.byOid.map Prod.fst := by
    obtain ⟨i, hi⟩ := List.mem_iff_getElem?.mp hraw
    have hlt := (List.getElem?_eq_some_iff.mp hi).1
    obtain ⟨object, hobject⟩ := (hout.covered i hlt).resolve_left List.not_mem_nil
    obtain ⟨raw', hraw', hfound⟩ := hres.sound i object hobject
    obtain rfl : raw' = raw := Option.some.inj (hraw'.symm.trans hi)
    exact ⟨object, hfound⟩
  refine ⟨fun raw hraw => ?_, fun e he => ?_, hpacked.hashed, fun raw hraw => ?_, fun S hS raw hraw => ?_,
    ?_, ?_⟩
  · obtain ⟨object, hr, -, oid, hoid, hmem⟩ := hsound raw hraw
    exact ⟨object, oid, hr, hoid, hmem⟩
  · obtain ⟨raw, hr⟩ := hres.found e he
    exact ⟨raw, hr.mem, hr⟩
  · obtain ⟨object, -, hb, -⟩ := hsound raw hraw
    exact hb
  · obtain ⟨object, hr, -⟩ := hsound raw hraw
    exact hr.founded hS
  · simpa using hread (Nat.zero_le _)
  · exact hres.total ▸ hres.bytes

theorem UnpackedFrom.mem_of_rearranged {limits' : RecvLimits} {u u' : UnpackedPack}
    (hu : UnpackedFrom g p cas limits raws u) (hu' : UnpackedFrom g p cas limits' raws' u')
    (hr : Rearranged raws raws') (haddr : cas.Addressed g p) (hclear : Unambiguous g p cas raws')
    {e : Oid × GitObject} (he : e ∈ u.byOid) : e ∈ u'.byOid := by
  obtain ⟨pairs, hl, hright, hpaired⟩ := hr
  obtain ⟨raw, hraw, hres⟩ := hu.found e he
  obtain ⟨⟨_, raw'⟩, hpair, rfl⟩ := List.mem_map.mp (hl.mem_iff.mp hraw)
  have hres' := hres.rearranged hl hright hpaired raw' hpair
  obtain ⟨object, oid, hobject, hoid, hmem⟩ := hu'.resolved raw' hres'.mem
  obtain rfl := hobject.unique hres' hclear haddr
  obtain rfl : oid = e.1 := Except.ok.inj (hoid.symm.trans (hu.hashed e he))
  -- what the other run keeps under this hash is the same object
  obtain ⟨e', he', hkey⟩ := List.mem_map.mp hmem
  obtain ⟨raw'', -, hres''⟩ := hu'.found e' he'
  have hsame := hclear.free e'.2 e.2 e.1 (.inl ⟨raw'', hres''⟩) (.inl ⟨raw', hres'⟩)
    (hkey ▸ hu'.hashed e' he') hoid
  have hpairEq : e' = e := Prod.ext hkey hsame
  exact hpairEq ▸ he'

theorem unpack_order_independent {pack : Bytes} {u : UnpackedPack} (h : unpackPack g p pack cas limits = .ok u) :
    ∃ (entries : List PackEntry) (s : Unpacking), p.entries pack = .ok (entries.map .ok) ∧
      unpackState g p cas limits (entries.map (PackEntry.raw p)) = .ok s ∧ u = ⟨s.objects, s.byOid⟩ ∧
      s.casLookups ≤ limits.maxCasLookups ∧
      UnpackedFrom g p cas limits (entries.map (PackEntry.raw p)) u ∧
      ∀ (pack' : Bytes) (entries' : List PackEntry) (limits' : RecvLimits) (u' : UnpackedPack),
        p.entries pack' = .ok (entries'.map .ok) → unpackPack g p pack' cas limits' = .ok u' →
        Rearranged (entries.map (PackEntry.raw p)) (entries'.map (PackEntry.raw p)) → cas.Addressed g p →
        Unambiguous g p cas (entries.map (PackEntry.raw p)) →
        Unambiguous g p cas (entries'.map (PackEntry.raw p)) → ∀ e, e ∈ u.byOid ↔ e ∈ u'.byOid := by
  obtain ⟨entries, s, hentries, hs, hu, hlookups, hfrom⟩ := unpackPack_from h
  refine ⟨entries, s, hentries, hs, hu, hlookups, hfrom, ?_⟩
  intro pack' entries' limits' u' hentries' h' hr haddr hclear hclear' e
  obtain ⟨found, _, hfound, -, -, -, hfrom'⟩ := unpackPack_from h'
  have hinj : Function.Injective (Except.ok : PackEntry → Except String PackEntry) := fun _ _ => Except.ok.inj
  obtain rfl : found = entries' :=
    List.map_injective_iff.mpr hinj (Except.ok.inj (hfound.symm.trans hentries'))
  exact ⟨hfrom.mem_of_rearranged hfrom' hr haddr hclear', hfrom'.mem_of_rearranged hfrom hr.symm haddr hclear⟩

end

namespace PlainGit

theorem plain_collisionFree (p : PackCodec) (cas : InMemoryCas) (raws : List RawEntry) :
    CollisionFree .plain p cas raws := by
  rintro ⟨kind, data⟩ ⟨kind', data'⟩ oid _ _ ha hb
  obtain ⟨rfl, rfl⟩ := oid_injective (Except.ok.inj (ha.trans hb.symm))
  rfl

theorem plain_unambiguous {p : PackCodec} {cas : InMemoryCas} {raws : List RawEntry}
    (h : (raws.map RawEntry.packOffset).Nodup) : Unambiguous .plain p cas raws :=
  ⟨h, plain_collisionFree p cas raws⟩

def chain (baseOffset deltaOffset namedOffset thinOffset : Nat) : List PackEntry :=
  [⟨.base .blob, baseOffset, 3, some [0x78, 1, 2, 3]⟩,
    ⟨.ofsDelta (deltaOffset - baseOffset), deltaOffset, 4, some [0x78, 3, 2, 0x90, 2]⟩,
    ⟨.refDelta (idOf (blob [1, 2])), namedOffset, 6, some [0x78, 2, 3, 0x90, 2, 1, 9]⟩,
    ⟨.refDelta (idOf (blob [7, 7])), thinOffset, 4, some [0x78, 2, 1, 0x90, 1]⟩]

def chainCodec : PackCodec where
  entries pack := .ok ((if pack.drop 12 = [] then chain 12 20 30 40 else (chain 30 44 20 12).reverse).map .ok)
  inflate := PackCodec.plain.inflate
  writeAll := PackCodec.plain.writeAll
  finish := PackCodec.plain.finish

def chainStore : InMemoryCas :=
  ⟨[(idOf (blob [7, 7]), 0x78 :: encodeLoose (blob [7, 7]))]⟩

theorem chainStore_addressed : chainStore.Addressed .plain chainCodec := by
  intro oid bytes object hget hdecode
  obtain ⟨pre, post, hsplit, -⟩ := List.lookup_eq_some_iff.mp hget
  have hmem : (oid, bytes) ∈ chainStore.objects := by simp [hsplit]
  obtain ⟨rfl, rfl⟩ := Prod.mk.inj (List.mem_singleton.mp hmem)
  have hblob : decodeCasObject chainCodec (0x78 :: encodeLoose (blob [7, 7])) = .ok (blob [7, 7]) := by
    decide +kernel
  obtain rfl := Except.ok.inj (hblob.symm.trans hdecode)
  rfl

theorem chain_rearranged : Rearranged ((chain 12 20 30 40).map (PackEntry.raw chainCodec))
    ((chain 30 44 20 12).reverse.map (PackEntry.raw chainCodec)) := by
  refine ⟨((chain 12 20 30 40).map (PackEntry.raw chainCodec)).zip
    ((chain 30 44 20 12).map (PackEntry.raw chainCodec)), .of_eq rfl, ?_, ?_⟩
  · rw [List.map_reverse]
    exact List.reverse_perm _
  · simp only [chain, List.map_cons, List.map_nil, List.zip_cons_cons, List.zip_nil_left, List.forall_mem_cons,
      List.not_mem_nil, false_imp_iff, implies_true, and_true]
    refine ⟨.base, .ofs ?_, .ref, .ref⟩
    simp [RawEntry.BasedOn, PackEntry.raw]

def unpackedChain (suffix : Bytes) : Except ReceiveError UnpackedPack :=
  unpackPack .plain chainCodec (packOf [] ++ suffix) chainStore .default

theorem chain_either_way : ∃ u u', unpackedChain [] = .ok u ∧ unpackedChain [1] = .ok u' ∧
    u.byOid.map Prod.snd = [blob [1, 2, 3], blob [1, 2], blob [1, 2, 9], blob [7]] ∧
    u'.byOid.map Prod.snd = [blob [1, 2, 3], blob [1, 2], blob [1, 2, 9], blob [7]] ∧
    ∀ e, e ∈ u.byOid ↔ e ∈ u'.byOid := by
  have hobjects (suffix : Bytes) (hs : suffix = [] ∨ suffix = [1]) : ∃ u, unpackedChain suffix = .ok u ∧
      u.byOid.map Prod.snd = [blob [1, 2, 3], blob [1, 2], blob [1, 2, 9], blob [7]] := by
    have hmap : (unpackedChain suffix).map (fun u => u.byOid.map Prod.snd) =
        .ok [blob [1, 2, 3], blob [1, 2], blob [1, 2, 9], blob [7]] := by
      rcases hs with rfl | rfl <;> decide +kernel
    cases hu : unpackedChain suffix with
    | error e => simp [hu, Except.map] at hmap
    | ok u => exact ⟨u, rfl, by simpa [hu, Except.map] using hmap⟩
  obtain ⟨u, hu, hbyOid⟩ := hobjects [] (.inl rfl)
  obtain ⟨u', hu', hbyOid'⟩ := hobjects [1] (.inr rfl)
  refine ⟨u, u', hu, hu', hbyOid, hbyOid', ?_⟩
  obtain ⟨entries, s, hentries, -, -, -, -, hsame⟩ := unpack_order_independent hu
  have hinj : Function.Injective (Except.ok : PackEntry → Except String PackEntry) := fun _ _ => Except.ok.inj
  obtain rfl : entries = chain 12 20 30 40 :=
    List.map_injective_iff.mpr hinj (Except.ok.inj (hentries.symm.trans rfl))
  exact hsame (packOf [] ++ [1]) (chain 30 44 20 12).reverse .default u' rfl hu' chain_rearranged
    chainStore_addressed (plain_unambiguous (by decide)) (plain_unambiguous (by decide))

end PlainGit

end Hugit
