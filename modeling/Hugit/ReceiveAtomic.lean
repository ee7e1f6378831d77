import Hugit.PackOrder
import Hugit.PushOrder

/-! A push is taken as a whole or not at all: a refused push leaves the store and
the log alone, an accepted one files every object of its pack under the hash of
its content and appends one record. -/

namespace Hugit

def InMemoryCas.Extends (cas cas' : InMemoryCas) : Prop :=
  ∀ oid bytes, cas.get oid = some bytes → cas'.get oid = some bytes

/-- Whatever the store holds is an object under the hash of its content. -/
def InMemoryCas.Filed (g : GitCodec) (p : PackCodec) (cas : InMemoryCas) : Prop :=
  ∀ oid bytes, cas.get oid = some bytes →
    ∃ object, decodeCasObject p bytes = .ok object ∧ g.computeHash object.kind object.data = .ok oid

section

variable {g : GitCodec} {p : PackCodec} {c : Crates}

theorem InMemoryCas.extends_storeObjects (cas : InMemoryCas) (objects : List CasObject) :
    cas.Extends (storeObjects cas objects) := by
  induction objects generalizing cas with
  | nil => exact fun _ _ h => h
  | cons object objects ih =>
    intro oid bytes h
    refine ih (cas.put object) oid bytes ?_
    rw [get_put]
    split_ifs
    · rw [h, Option.getD_some]
    · exact h

theorem Packed.stored (hp : p.Sound) {u : UnpackedPack} (h : Packed g p u.objects u.byOid) {cas : InMemoryCas}
    {oid : Oid} {bytes : Bytes} (hget : (storeObjects cas u.objects).get oid = some bytes) :
    cas.get oid = some bytes ∨ ∃ object, (oid, object) ∈ u.byOid ∧ decodeCasObject p bytes = .ok object := by
  refine (InMemoryCas.get_storeObjects hget).imp_right fun hmem => ?_
  obtain ⟨object, hobject, hbytes⟩ := h.framed _ hmem
  exact ⟨object, hobject, decodeCasObject_zlibCompress hp hbytes⟩

theorem InMemoryCas.Filed.storeObjects (hp : p.Sound) {cas : InMemoryCas} (h : cas.Filed g p) {u : UnpackedPack}
    (hu : Packed g p u.objects u.byOid) : (storeObjects cas u.objects).Filed g p := by
  intro oid bytes hget
  rcases hu.stored hp hget with hold | ⟨object, hmem, hdecode⟩
  · exact h oid bytes hold
  · exact ⟨object, hdecode, hu.hashed _ hmem⟩

/-- The objects of a pack in a store: all of them are there, and nothing else is new. -/
structure Delivered (g : GitCodec) (p : PackCodec) (raws : List RawEntry) (cas cas' : InMemoryCas) : Prop where
  kept : cas.Extends cas'
  filed : cas.Filed g p → cas'.Filed g p
  stored : ∀ raw ∈ raws, ∃ object oid bytes, Resolves g p cas raws raw object ∧
    g.computeHash object.kind object.data = .ok oid ∧ cas'.get oid = some bytes ∧
    (cas.Filed g p → CollisionFree g p cas raws → decodeCasObject p bytes = .ok object)
  added : ∀ oid bytes, cas.get oid = none → cas'.get oid = some bytes →
    ∃ raw ∈ raws, ∃ object, Resolves g p cas raws raw object ∧
      g.computeHash object.kind object.data = .ok oid ∧ decodeCasObject p bytes = .ok object

theorem UnpackedFrom.delivered (hp : p.Sound) {cas : InMemoryCas} {limits : RecvLimits} {raws : List RawEntry}
    {u : UnpackedPack} (h : UnpackedFrom g p cas limits raws u) (hu : Packed g p u.objects u.byOid) :
    Delivered g p raws cas (storeObjects cas u.objects) := by
  refine ⟨cas.extends_storeObjects u.objects, fun hf => hf.storeObjects hp hu, fun raw hraw => ?_,
    fun oid bytes hnone hget => ?_⟩
  · obtain ⟨object, oid, hres, hoid, hmem⟩ := h.resolved raw hraw
    have hthere : (storeObjects cas u.objects).contains oid = true :=
      (InMemoryCas.contains_storeObjects u.objects cas oid).mpr (.inr (hu.oids ▸ hmem))
    obtain ⟨bytes, hbytes⟩ := Option.isSome_iff_exists.mp hthere
    refine ⟨object, oid, bytes, hres, hoid, hbytes, fun hfiled hfree => ?_⟩
    rcases hu.stored hp hbytes with hold | ⟨other, hother, hdecode⟩
    · obtain ⟨other, hdecode, hhash⟩ := hfiled oid bytes hold
      rw [hfree object other oid (.inl ⟨raw, hres⟩) (.inr ⟨oid, bytes, hold, hdecode⟩) hoid hhash]
      exact hdecode
    · obtain ⟨raw', -, hres'⟩ := h.found _ hother
      rw [hfree object other oid (.inl ⟨raw, hres⟩) (.inl ⟨raw', hres'⟩) hoid (hu.hashed _ hother)]
      exact hdecode
  · rcases hu.stored hp hget with hold | ⟨object, hmem, hdecode⟩
    · cases hnone.symm.trans hold
    · obtain ⟨raw, hraw, hres⟩ := h.found _ hmem
      exact ⟨raw, hraw, object, hres, hu.hashed _ hmem, hdecode⟩

/-- What a push leaves behind: everything as it was, or the pack in the store and
one record of the ref and its target on the log. -/
def AllOrNothing (g : GitCodec) (p : PackCodec) (req : ReceiveRequest) (s : Repository)
    (r : Except ReceiveError Receipt × Repository) : Prop :=
  match r.1 with
  | .error _ => r.2 = s
  | .ok receipt =>
    r.2.log.records = s.log.records ++ [receipt.event] ∧ receipt.event.kind = "ref.update" ∧
      receipt.event.payload = rawPushPayload req.update.refName req.update.newOid ∧
      ∃ entries : List PackEntry, p.entries req.pack = .ok (entries.map .ok) ∧
        Delivered g p (entries.map (PackEntry.raw p)) s.cas r.2.cas

theorem receivePack_allOrNothing (hp : p.Sound) (gate : FlagGate) (req : ReceiveRequest) (s : Repository)
    (currentRefs : String → Option Oid) (limits : RecvLimits) :
    let r := receivePack g p c gate req s.cas s.log currentRefs limits
    AllOrNothing g p req s (r.1, ⟨r.2.1, r.2.2⟩) := by
  dsimp only
  unfold receivePack
  split
  · rfl
  · next u hu =>
    obtain ⟨-, -, -, -, hunpack, -⟩ := admitPush_eq_ok.mp hu
    obtain ⟨entries, -, hentries, -, -, -, hfrom⟩ := unpackPack_from hunpack
    exact ⟨rfl, rfl, rfl, entries, hentries, hfrom.delivered hp (unpackPack_packed hunpack)⟩

theorem receive_all_or_nothing (hp : p.Sound) (s : Repository) (req : ReceiveRequest) :
    (∀ gate currentRefs limits,
      let r := receivePack g p c gate req s.cas s.log currentRefs limits
      AllOrNothing g p req s (r.1, ⟨r.2.1, r.2.2⟩)) ∧
    ∀ receiver : SerializedReceiver, AllOrNothing g p req s (receiver.receive g p c req s) := by
  refine ⟨fun gate currentRefs limits => receivePack_allOrNothing hp gate req s currentRefs limits,
    fun receiver => ?_⟩
  unfold SerializedReceiver.receive
  split
  · rfl
  · exact receivePack_allOrNothing hp receiver.gate req s _ receiver.limits

end

open PlainGit

theorem first_push_delivered :
    let push := pushOf [firstCommit, tree [blob [9]], blob [9]] firstCommit none
    let r := receivePack .plain .plain reference push.gate push.req .empty .empty push.currentRefs push.limits
    r.1.isOk = true ∧ r.2.1.objects.map Prod.fst = [idOf firstCommit, idOf (tree [blob [9]]), idOf (blob [9])] ∧
      AllOrNothing .plain .plain push.req .empty (r.1, ⟨r.2.1, r.2.2⟩) :=
  ⟨by decide +kernel, by decide +kernel,
    (receive_all_or_nothing (c := reference) PackCodec.plain_sound .empty _).1 _ _ _⟩

end Hugit
