import Hugit.PackContents

/-! What the entries of a pack stand for, as a relation: a base object is itself,
a delta stands for what it makes of the object its base stands for. An unpacking
that succeeds finds this for every entry. -/

namespace Hugit

section

variable (g : GitCodec) (p : PackCodec) (cas : InMemoryCas) (raws : List RawEntry)

def RawEntry.BasedOn (raw : RawEntry) (distance : Nat) (base : RawEntry) : Prop :=
  distance ≠ 0 ∧ distance ≤ raw.packOffset ∧ base.packOffset = raw.packOffset - distance

inductive Resolves : RawEntry → GitObject → Prop
  | base {raw : RawEntry} {kind : ObjectKind} (mem : raw ∈ raws) (header : raw.header = .base kind) :
      Resolves raw ⟨kind, raw.data⟩
  | ofs {raw base : RawEntry} {object : GitObject} {distance limit : Nat} {data : Bytes} (mem : raw ∈ raws)
      (header : raw.header = .ofsDelta distance) (based : raw.BasedOn distance base)
      (known : Resolves base object) (delta : applyDelta object.data raw.data limit = .ok data) :
      Resolves raw ⟨object.kind, data⟩
  | ref {raw base : RawEntry} {object : GitObject} {oid : Oid} {limit : Nat} {data : Bytes} (mem : raw ∈ raws)
      (header : raw.header = .refDelta oid) (known : Resolves base object)
      (hash : g.computeHash object.kind object.data = .ok oid)
      (delta : applyDelta object.data raw.data limit = .ok data) : Resolves raw ⟨object.kind, data⟩
  | thin {raw : RawEntry} {object : GitObject} {oid : Oid} {bytes data : Bytes} {limit : Nat} (mem : raw ∈ raws)
      (header : raw.header = .refDelta oid) (stored : cas.get oid = some bytes)
      (decoded : decodeCasObject p bytes = .ok object)
      (delta : applyDelta object.data raw.data limit = .ok data) : Resolves raw ⟨object.kind, data⟩

def RawEntry.HasBase (byOid : List (Oid × GitObject)) (raw : RawEntry) : Prop :=
  match raw.header with
  | .base _ => True
  | .ofsDelta distance => ∃ base ∈ raws, raw.BasedOn distance base
  | .refDelta oid => oid ∈ byOid.map Prod.fst ∨ cas.contains oid = true

end

section

variable {g : GitCodec} {p : PackCodec} {cas : InMemoryCas} {raws : List RawEntry} {limits : RecvLimits}

theorem RawEntry.HasBase.mono {byOid byOid' : List (Oid × GitObject)} {raw : RawEntry}
    (h : raw.HasBase cas raws byOid) (hsub : ∀ oid ∈ byOid.map Prod.fst, oid ∈ byOid'.map Prod.fst) :
    raw.HasBase cas raws byOid' := by
  unfold HasBase at h ⊢
  split
  · trivial
  · next hheader => simpa only [hheader] using h
  · next oid hheader =>
    simp only [hheader] at h
    exact h.imp_left (hsub oid)

theorem Resolves.mem {raw : RawEntry} {object : GitObject} (h : Resolves g p cas raws raw object) : raw ∈ raws := by
  cases h with
  | base mem | ofs mem | ref mem | thin mem => exact mem

theorem applyDelta_limit {base delta out out' : Bytes} {limit limit' : Nat}
    (h : applyDelta base delta limit = .ok out) (h' : applyDelta base delta limit' = .ok out') : out = out' := by
  simp only [applyDelta, bind_eq_ok] at h h'
  obtain ⟨s, hs, _, -, t, ht, _, -, hrun⟩ := h
  obtain ⟨s', hs', _, -, t', ht', _, -, hrun'⟩ := h'
  obtain rfl : s = s' := Except.ok.inj (hs.symm.trans hs')
  obtain rfl : t = t' := Except.ok.inj (ht.symm.trans ht')
  exact Except.ok.inj (hrun.symm.trans hrun')

namespace Unpacking

def bytesOf (byOid : List (Oid × GitObject)) : Nat :=
  (byOid.map fun e => e.2.data.length).sum

structure Settles (g : GitCodec) (limits : RecvLimits) (i : Nat) (object : GitObject) (s s' : Unpacking)
    (oid : Oid) : Prop where
  hash : g.computeHash object.kind object.data = .ok oid
  resolved : s'.resolved = s.resolved.set i (some object)
  indexed : s'.oidToIndex = (oid, i) :: s.oidToIndex
  lookups : s'.casLookups = s.casLookups
  stored : (oid ∈ s.byOid.map Prod.fst ∧ s'.byOid = s.byOid ∧ s'.totalResolved = s.totalResolved) ∨
    (s'.byOid = s.byOid ++ [(oid, object)] ∧
      s'.totalResolved = saturatingAdd s.totalResolved object.data.length ∧
      s'.totalResolved ≤ limits.maxInflatedBytes)

variable {i : Nat} {s s' : Unpacking}

theorem settles_of_settle {object : GitObject} (h : settle g p limits i object s = .ok s') :
    ∃ oid, Settles g limits i object s s' oid := by
  obtain ⟨⟨oid, t⟩, hfin, heq⟩ := bind_eq_ok.mp h
  obtain rfl := pure_eq_ok.mp heq
  unfold finalize at hfin
  split at hfin
  · cases hfin
  next oid' hoid =>
    split_ifs at hfin with hseen
    · obtain ⟨rfl, rfl⟩ := Prod.mk.inj (Except.ok.inj hfin)
      refine ⟨oid', hoid, rfl, rfl, rfl, .inl ⟨?_, rfl, rfl⟩⟩
      simpa [List.lookup_isSome_iff] using hseen
    · obtain ⟨hmax, hfin⟩ := ite_error_eq_ok.mp hfin
      obtain ⟨bytes, -, heq⟩ := bind_eq_ok.mp hfin
      obtain ⟨rfl, rfl⟩ := Prod.mk.inj (pure_eq_ok.mp heq)
      exact ⟨oid', hoid, rfl, rfl, rfl, .inr ⟨rfl, rfl, Nat.not_lt.mp hmax⟩⟩

structure Resolution (g : GitCodec) (p : PackCodec) (cas : InMemoryCas) (limits : RecvLimits)
    (raws : List RawEntry) (s : Unpacking) : Prop where
  length : s.resolved.length = raws.length
  sound : ∀ (i : Nat) object, s.resolved[i]? = some (some object) → ∃ raw, raws[i]? = some raw ∧
    Resolves g p cas raws raw object ∧ raw.HasBase cas raws s.byOid ∧
    ∃ oid, g.computeHash object.kind object.data = .ok oid ∧ oid ∈ s.byOid.map Prod.fst
  indexed : ∀ e ∈ s.oidToIndex, ∃ object, s.resolved[e.2]? = some (some object) ∧
    g.computeHash object.kind object.data = .ok e.1
  found : ∀ e ∈ s.byOid, ∃ raw, Resolves g p cas raws raw e.2
  total : s.totalResolved = min (bytesOf s.byOid) (2 ^ 64 - 1)
  bytes : s.totalResolved ≤ limits.maxInflatedBytes
  lookups : s.casLookups ≤ limits.maxCasLookups

theorem Resolution.settle {s s' : Unpacking} (hs : Resolution g p cas limits raws s) {i : Nat}
    {object : GitObject} {oid : Oid} (h : Settles g limits i object s s' oid) {raw : RawEntry}
    (hraw : raws[i]? = some raw) (hres : Resolves g p cas raws raw object)
    (hbase : raw.HasBase cas raws s.byOid) (hopen : s.resolved[i]? = some none) : Resolution g p cas limits raws s' := by
  have hi : i < s.resolved.length := (List.getElem?_eq_some_iff.mp hopen).1
  have hkeys : ∀ o ∈ s.byOid.map Prod.fst, o ∈ s'.byOid.map Prod.fst := by
    rcases h.stored with ⟨-, heq, -⟩ | ⟨heq, -⟩
    · simp [heq]
    · intro o ho
      rw [heq, List.map_append]
      exact List.mem_append_left _ ho
  have hnew : oid ∈ s'.byOid.map Prod.fst := by
    rcases h.stored with ⟨hseen, heq, -⟩ | ⟨heq, -⟩
    · rwa [heq]
    · simp [heq]
  have hget (j : Nat) (hj : j ≠ i) : s'.resolved[j]? = s.resolved[j]? := by
    rw [h.resolved, List.getElem?_set_ne (Ne.symm hj)]
  have hself : s'.resolved[i]? = some (some object) := by
    rw [h.resolved, List.getElem?_set_self hi]
  refine ⟨by rw [h.resolved, List.length_set, hs.length], fun j o hj => ?_, fun e he => ?_, fun e he => ?_,
    ?_, ?_, h.lookups ▸ hs.lookups⟩
  · by_cases hji : j = i
    · subst hji
      obtain rfl := Option.some.inj (Option.some.inj (hself.symm.trans hj))
      exact ⟨raw, hraw, hres, hbase.mono hkeys, oid, h.hash, hnew⟩
    · obtain ⟨r, hr, hrr, hrb, oid', hoid', hmem⟩ := hs.sound j o (hget j hji ▸ hj)
      exact ⟨r, hr, hrr, hrb.mono hkeys, oid', hoid', hkeys oid' hmem⟩
  · rw [h.indexed] at he
    rcases List.mem_cons.mp he with rfl | he
    · exact ⟨object, hself, h.hash⟩
    · obtain ⟨o, ho, hoid⟩ := hs.indexed e he
      have hne : e.2 ≠ i := by
        rintro rfl
        cases hopen.symm.trans ho
      exact ⟨o, hget e.2 hne ▸ ho, hoid⟩
  · rcases h.stored with ⟨-, heq, -⟩ | ⟨heq, -⟩
    · exact hs.found e (heq ▸ he)
    · rw [heq] at he
      rcases List.mem_append.mp he with he | he
      · exact hs.found e he
      · obtain rfl := List.mem_singleton.mp he
        exact ⟨raw, hres⟩
  · rcases h.stored with ⟨-, heq, htot⟩ | ⟨heq, htot, -⟩
    · rw [htot, heq, hs.total]
    · rw [htot, heq, hs.total]
      simp only [bytesOf, saturatingAdd, List.map_append, List.sum_append, List.map_singleton,
        List.sum_singleton]
      omega
  · rcases h.stored with ⟨-, -, htot⟩ | ⟨-, -, hle⟩
    · rw [htot]
      exact hs.bytes
    · exact hle

theorem settleBases_resolution {todo : List (RawEntry × Nat)} (hs : Resolution g p cas limits raws s)
    (hraws : ∀ r ∈ todo, raws[r.2]? = some r.1) (hopen : ∀ r ∈ todo, s.resolved[r.2]? = some none)
    (hnd : (todo.map Prod.snd).Nodup) (h : settleBases g p limits todo s = .ok s') :
    Resolution g p cas limits raws s' := by
  induction todo generalizing s with
  | nil =>
    obtain rfl := Except.ok.inj h
    exact hs
  | cons r todo ih =>
    obtain ⟨hr, hnd⟩ := List.nodup_cons.mp hnd
    have htodo := fun a ha => hraws a (List.mem_cons_of_mem r ha)
    have hrest := fun a ha => hopen a (List.mem_cons_of_mem r ha)
    unfold settleBases at h
    split at h
    · next kind hkind =>
      obtain ⟨t, ht, h⟩ := bind_eq_ok.mp h
      obtain ⟨oid, hset⟩ := settles_of_settle ht
      have hraw := hraws r List.mem_cons_self
      have hbase : r.1.HasBase cas raws s.byOid := by simp only [RawEntry.HasBase, hkind]
      refine ih (hs.settle hset hraw (.base (List.mem_of_getElem? hraw) hkind) hbase
        (hopen r List.mem_cons_self)) htodo (fun a ha => ?_) hnd h
      have hne : r.2 ≠ a.2 := fun he => hr (he ▸ List.mem_map_of_mem ha)
      rw [hset.resolved, List.getElem?_set_ne hne]
      exact hrest a ha
    · exact ih hs htodo hrest hnd h

structure Outstanding (g : GitCodec) (p : PackCodec) (cas : InMemoryCas) (limits : RecvLimits)
    (raws : List RawEntry) (s : Unpacking) (pending : List Nat) : Prop where
  resolution : Resolution g p cas limits raws s
  nodup : pending.Nodup
  unresolved : ∀ i ∈ pending, s.resolved[i]? = some none
  covered : ∀ i < raws.length, i ∈ pending ∨ ∃ object, s.resolved[i]? = some (some object)

theorem Outstanding.perm {l l' : List Nat} (h : Outstanding g p cas limits raws s l) (hl : l.Perm l') :
    Outstanding g p cas limits raws s l' where
  resolution := h.resolution
  nodup := hl.nodup_iff.mp h.nodup
  unresolved := fun i hi => h.unresolved i (hl.mem_iff.mpr hi)
  covered := fun i hi => (h.covered i hi).imp_left hl.mem_iff.mp

theorem Outstanding.settle {s s' : Unpacking} {i : Nat} {l : List Nat}
    (h : Outstanding g p cas limits raws s (i :: l)) {object : GitObject} {raw : RawEntry}
    (hraw : raws[i]? = some raw) (hres : Resolves g p cas raws raw object)
    (hbase : raw.HasBase cas raws s.byOid) (hset : settle g p limits i object s = .ok s') :
    Outstanding g p cas limits raws s' l := by
  obtain ⟨oid, hset⟩ := settles_of_settle hset
  obtain ⟨hi, hnd⟩ := List.nodup_cons.mp h.nodup
  have hopen := h.unresolved i List.mem_cons_self
  have hlt : i < s.resolved.length := (List.getElem?_eq_some_iff.mp hopen).1
  refine ⟨h.resolution.settle hset hraw hres hbase hopen, hnd, fun j hj => ?_, fun j hj => ?_⟩
  · have hne : i ≠ j := fun he => hi (he ▸ hj)
    rw [hset.resolved, List.getElem?_set_ne hne]
    exact h.unresolved j (List.mem_cons_of_mem i hj)
  · by_cases he : i = j
    · subst he
      exact .inr ⟨object, by rw [hset.resolved, List.getElem?_set_self hlt]⟩
    · rw [hset.resolved, List.getElem?_set_ne he]
      rcases h.covered j hj with hj | hj
      · exact .inl ((List.mem_cons.mp hj).resolve_left (Ne.symm he))
      · exact .inr hj

theorem Resolution.delta (hs : Resolution g p cas limits raws s) {raw : RawEntry} {b limit : Nat}
    {base : GitObject} {data : Bytes} (hmem : raw ∈ raws) (hb : baseIndex raws raw s = .ok (some b))
    (hbase : s.resolved[b]? = some (some base)) (hdelta : applyDelta base.data raw.data limit = .ok data) :
    Resolves g p cas raws raw ⟨base.kind, data⟩ ∧ raw.HasBase cas raws s.byOid := by
  obtain ⟨entry, hentry, hknown, -, oid', hoid', hmem'⟩ := hs.sound b base hbase
  unfold baseIndex at hb
  split at hb
  · next distance hheader =>
    obtain ⟨hrange, hb⟩ := ite_error_eq_ok.mp hb
    split at hb
    · next j hj =>
      obtain rfl : j = b := Option.some.inj (Except.ok.inj hb)
      obtain ⟨⟨found, k⟩, hfound, he⟩ := List.mem_map.mp (mem_of_lastWrite hj)
      obtain ⟨hoffset, rfl⟩ := Prod.mk.inj he
      obtain rfl : found = entry := Option.some.inj ((List.mem_zipIdx_iff_getElem?.mp hfound).symm.trans hentry)
      have hbased : raw.BasedOn distance found := ⟨by omega, by omega, hoffset⟩
      refine ⟨.ofs hmem hheader hbased hknown hdelta, ?_⟩
      simp only [RawEntry.HasBase, hheader]
      exact ⟨found, hknown.mem, hbased⟩
    · cases hb
  · next oid hheader =>
    obtain ⟨pre, post, hsplit, -⟩ := List.lookup_eq_some_iff.mp (Except.ok.inj hb)
    obtain ⟨object, hobject, hhash⟩ := hs.indexed (oid, b) (by simp [hsplit])
    obtain rfl : object = base := Option.some.inj (Option.some.inj (hobject.symm.trans hbase))
    refine ⟨.ref hmem hheader hknown hhash hdelta, ?_⟩
    simp only [RawEntry.HasBase, hheader]
    obtain rfl : oid' = oid := Except.ok.inj (hoid'.symm.trans hhash)
    exact .inl hmem'
  · cases hb

def Pass.Outstanding (g : GitCodec) (p : PackCodec) (cas : InMemoryCas) (limits : RecvLimits)
    (raws : List RawEntry) (todo : List Nat) (pass : Pass) : Prop :=
  Unpacking.Outstanding g p cas limits raws pass.state (todo ++ pass.pending)

variable {l : List Nat}

theorem Outstanding.raw (h : Outstanding g p cas limits raws s (i :: l)) : ∃ raw, raws[i]? = some raw := by
  have hlt := (List.getElem?_eq_some_iff.mp (h.unresolved i List.mem_cons_self)).1
  rw [h.resolution.length] at hlt
  exact ⟨raws[i], List.getElem?_eq_getElem hlt⟩

variable {pass : Pass} {todo : List Nat}

theorem Pass.Outstanding.defer (h : pass.Outstanding g p cas limits raws (i :: todo)) :
    (pass.defer i).Outstanding g p cas limits raws todo := by
  refine Unpacking.Outstanding.perm h ?_
  rw [Pass.defer, ← List.append_assoc]
  exact (List.perm_append_singleton i (todo ++ pass.pending)).symm

variable {pass' : Pass}

theorem packStep_outstanding (hs : pass.Outstanding g p cas limits raws (i :: todo))
    (h : packStep g p limits raws pass i = .ok pass') : pass'.Outstanding g p cas limits raws todo := by
  obtain ⟨raw, hraw⟩ := Unpacking.Outstanding.raw hs
  simp only [packStep, hraw] at h
  obtain ⟨found, hfound, h⟩ := bind_eq_ok.mp h
  split at h
  · obtain rfl := pure_eq_ok.mp h
    exact hs.defer
  split at h
  · obtain rfl := pure_eq_ok.mp h
    exact hs.defer
  · next b base hbase =>
    obtain ⟨t, ht, h⟩ := bind_eq_ok.mp h
    obtain rfl := pure_eq_ok.mp h
    obtain ⟨data, hdata, hset⟩ := bind_eq_ok.mp ht
    obtain ⟨hres, hhas⟩ :=
      hs.resolution.delta (List.mem_of_getElem? hraw) hfound (Option.join_eq_some_iff.mp hbase) hdata
    exact Unpacking.Outstanding.settle hs hraw hres hhas hset

theorem packStep_idle (h : packStep g p limits raws pass i = .ok pass') :
    pass'.progressed = true ∨ (pass'.state = pass.state ∧ pass'.progressed = pass.progressed) := by
  unfold packStep at h
  split at h
  · obtain rfl := Except.ok.inj h
    exact .inr ⟨rfl, rfl⟩
  obtain ⟨found, -, h⟩ := bind_eq_ok.mp h
  split at h
  · obtain rfl := pure_eq_ok.mp h
    exact .inr ⟨rfl, rfl⟩
  split at h
  · obtain rfl := pure_eq_ok.mp h
    exact .inr ⟨rfl, rfl⟩
  · obtain ⟨t, -, h⟩ := bind_eq_ok.mp h
    obtain rfl := pure_eq_ok.mp h
    exact .inl rfl

theorem packPass_idle (h : l.foldlM (packStep g p limits raws) ⟨s, [], false⟩ = .ok pass)
    (hidle : ¬ pass.progressed = true) :
    pass.state = s := by
  have hall : pass.progressed = true ∨ pass.state = s := by
    refine foldlM_keeps (P := fun _ (pass : Pass) => pass.progressed = true ∨ pass.state = s)
      (fun i l t t' ht hstep => ?_) (.inr rfl) h
    rcases packStep_idle hstep with hp | ⟨hstate, hp⟩
    · exact .inl hp
    · rwa [hstate, hp]
  exact hall.resolve_left hidle

theorem casStep_outstanding (hs : pass.Outstanding g p cas limits raws (i :: todo))
    (h : casStep g p limits cas raws pass i = .ok pass') : pass'.Outstanding g p cas limits raws todo := by
  obtain ⟨raw, hraw⟩ := Unpacking.Outstanding.raw hs
  simp only [casStep, hraw] at h
  split at h
  · next oid hheader =>
    obtain ⟨hlookups, h⟩ := ite_error_eq_ok.mp h
    have hcount : Pass.Outstanding g p cas limits raws (i :: todo)
        { pass with state := { pass.state with casLookups := pass.state.casLookups + 1 } } :=
      ⟨{ hs.resolution with lookups := Nat.not_lt.mp hlookups }, hs.nodup, hs.unresolved, hs.covered⟩
    split at h
    · obtain rfl := Except.ok.inj h
      exact hcount.defer
    · next bytes hbytes =>
      obtain ⟨base, hbase, h⟩ := bind_eq_ok.mp h
      obtain ⟨t, ht, h⟩ := bind_eq_ok.mp h
      obtain rfl := pure_eq_ok.mp h
      obtain ⟨data, hdata, hset⟩ := bind_eq_ok.mp ht
      have hhas : raw.HasBase cas raws pass.state.byOid := by
        simp [RawEntry.HasBase, hheader, InMemoryCas.contains, hbytes]
      exact Unpacking.Outstanding.settle hcount hraw
        (.thin (List.mem_of_getElem? hraw) hheader hbytes hbase hdata) hhas hset
  · obtain rfl := Except.ok.inj h
    exact hs.defer

theorem pass_outstanding {step : Pass → Nat → Except ReceiveError Pass}
    (hstep : ∀ i todo pass pass', Pass.Outstanding g p cas limits raws (i :: todo) pass →
      step pass i = .ok pass' → Pass.Outstanding g p cas limits raws todo pass')
    (hs : Outstanding g p cas limits raws s l) (h : l.foldlM step ⟨s, [], false⟩ = .ok pass) :
    Outstanding g p cas limits raws pass.state pass.pending := by
  have hstart : Pass.Outstanding g p cas limits raws l ⟨s, [], false⟩ := by
    rw [Pass.Outstanding, List.append_nil]
    exact hs
  exact foldlM_keeps (P := Pass.Outstanding g p cas limits raws) hstep hstart h

theorem resolveDeltas_outstanding {passes : Nat} (hs : Outstanding g p cas limits raws s l)
    (h : resolveDeltas g p limits cas raws passes l s = .ok s') : Outstanding g p cas limits raws s' [] := by
  induction passes generalizing l s with
  | zero =>
    cases l with
    | nil =>
      obtain rfl := Except.ok.inj h
      exact hs
    | cons i rest => cases h
  | succ passes ih =>
    cases l with
    | nil =>
      obtain rfl := Except.ok.inj h
      exact hs
    | cons i rest =>
      obtain ⟨pass, hpass, h⟩ := bind_eq_ok.mp h
      have hp := pass_outstanding (fun _ _ _ _ => packStep_outstanding) hs hpass
      split_ifs at h with hprogress
      · exact ih hp h
      · obtain ⟨thin, hthin, h⟩ := bind_eq_ok.mp h
        rw [packPass_idle hpass hprogress] at hthin
        have ht := pass_outstanding (fun _ _ _ _ => casStep_outstanding) hs hthin
        split_ifs at h
        exact ih ht h

theorem resolution_start : Resolution g p cas limits raws (start raws.length) where
  length := List.length_replicate
  sound := fun i object h => by simp [start, List.getElem?_replicate] at h
  indexed := by simp [start]
  found := by simp [start]
  total := rfl
  bytes := Nat.zero_le _
  lookups := Nat.zero_le _

def unresolved (raws : List RawEntry) (s : Unpacking) : List Nat :=
  (List.range raws.length).filter fun i => ((s.resolved[i]?).join).isNone

theorem Resolution.outstanding (hs : Resolution g p cas limits raws s) :
    Outstanding g p cas limits raws s (unresolved raws s) := by
  have hcases (i : Nat) (hi : i < raws.length) :
      s.resolved[i]? = some none ∨ ∃ object, s.resolved[i]? = some (some object) := by
    have hlt : i < s.resolved.length := hs.length ▸ hi
    rw [List.getElem?_eq_getElem hlt]
    cases s.resolved[i] with
    | none => exact .inl rfl
    | some object => exact .inr ⟨object, rfl⟩
  refine ⟨hs, List.nodup_range.filter _, fun i hi => ?_, fun i hi => ?_⟩
  · obtain ⟨hlt, hnone⟩ := List.mem_filter.mp hi
    rcases hcases i (List.mem_range.mp hlt) with hi | ⟨object, hi⟩
    · exact hi
    · simp [hi] at hnone
  · refine (hcases i hi).imp_left fun hnone => List.mem_filter.mpr ⟨List.mem_range.mpr hi, ?_⟩
    simp [hnone]

end Unpacking

/-- The resolution of the entries, with the state it ends in. -/
def unpackState (g : GitCodec) (p : PackCodec) (cas : InMemoryCas) (limits : RecvLimits)
    (raws : List RawEntry) : Except ReceiveError Unpacking := do
  let s ← Unpacking.settleBases g p limits raws.zipIdx (Unpacking.start raws.length)
  Unpacking.resolveDeltas g p limits cas raws limits.maxDeltaPasses (Unpacking.unresolved raws s) s

theorem unpackPack_eq_ok {pack : Bytes} {u : UnpackedPack} (h : unpackPack g p pack cas limits = .ok u) :
    ∃ items raws s, p.entries pack = .ok items ∧ readEntries p limits items 0 0 = .ok raws ∧
      unpackState g p cas limits raws = .ok s ∧ u = ⟨s.objects, s.byOid⟩ := by
  obtain ⟨_, _, h⟩ := bind_eq_ok.mp h
  split at h
  · cases h
  · next items hitems =>
    obtain ⟨raws, hraws, h⟩ := bind_eq_ok.mp h
    obtain ⟨bases, hbases, h⟩ := bind_eq_ok.mp h
    obtain ⟨s, hs, h⟩ := bind_eq_ok.mp h
    obtain rfl := pure_eq_ok.mp h
    exact ⟨items, raws, s, hitems, hraws, bind_eq_ok.mpr ⟨bases, hbases, hs⟩, rfl⟩

theorem unpackState_resolved {s : Unpacking} (h : unpackState g p cas limits raws = .ok s) :
    Unpacking.Outstanding g p cas limits raws s [] := by
  obtain ⟨bases, hbases, hs⟩ := bind_eq_ok.mp h
  have hb : Unpacking.Resolution g p cas limits raws bases := by
    refine Unpacking.settleBases_resolution Unpacking.resolution_start
      (fun r hr => List.mem_zipIdx_iff_getElem?.mp hr) (fun r hr => ?_) ?_ hbases
    · have hlt := (List.getElem?_eq_some_iff.mp (List.mem_zipIdx_iff_getElem?.mp hr)).1
      simp [Unpacking.start, hlt]
    · rw [List.zipIdx_map_snd]
      exact List.nodup_range'
  exact Unpacking.resolveDeltas_outstanding hb.outstanding hs

end

end Hugit
