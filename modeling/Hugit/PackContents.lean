import Hugit.PackUnpack

/-! What an unpacked pack holds: every object once, under its own hash, with the
bytes from which the store reads it back. -/

namespace Hugit

theorem digit_byte {c : Char} (hc : c.isDigit = true) :
    Char.ofNat c.toNat.toUInt8.toNat = c ∧ c.toNat.toUInt8 ≠ 0 ∧ c.toNat.toUInt8 ≠ 32 ∧
      c.toNat.toUInt8 ≠ 43 := by
  have hrange : 48 ≤ c.toNat ∧ c.toNat ≤ 57 := by
    simpa [Char.isDigit, UInt32.le_iff_toNat_le] using hc
  have hb : c.toNat.toUInt8.toNat = c.toNat := by
    simp only [Nat.toUInt8_eq, UInt8.toNat_ofNat']
    omega
  have hne (b : UInt8) (hlt : b.toNat < 48) : c.toNat.toUInt8 ≠ b := by
    rintro rfl
    omega
  exact ⟨by rw [hb, Char.ofNat_toNat], hne 0 (by decide), hne 32 (by decide), hne 43 (by decide)⟩

theorem isDigit_of_mem_digits {n : Nat} {c : Char} (hc : c ∈ Nat.toDigits 10 n) : c.isDigit = true :=
  Nat.isDigit_of_mem_toDigits (by decide) (by decide) hc

theorem parseUsize_digitBytes (n : Nat) : parseUsize (digitBytes n) = some n := by
  have hhead : (digitBytes n).head? ≠ some 43 := by
    intro h
    obtain ⟨c, hc, he⟩ := List.mem_map.mp (List.mem_of_mem_head? h)
    exact (digit_byte (isDigit_of_mem_digits hc)).2.2.2 he
  have hchars : (digitBytes n).map (fun b => Char.ofNat b.toNat) = Nat.toDigits 10 n := by
    rw [digitBytes, List.map_map]
    exact (List.map_congr_left fun c hc => (digit_byte (isDigit_of_mem_digits hc)).1).trans (List.map_id _)
  have hall : (Nat.toDigits 10 n).any (fun c => !c.isDigit) = false := by
    simpa using fun c hc => isDigit_of_mem_digits hc
  simp only [parseUsize, hhead, if_false, hchars, Nat.toDigits_ne_nil, hall, Bool.false_eq_true,
    or_self, Nat.ofDigitChars_ten_toDigits]

theorem ObjectKind.asBytes_ne {kind : ObjectKind} : ∀ b ∈ kind.asBytes, b ≠ 0 ∧ b ≠ 32 := by
  cases kind <;> decide +kernel

theorem ObjectKind.ofBytes_asBytes (kind : ObjectKind) : ofBytes kind.asBytes = some kind := by
  cases kind <;> decide +kernel

theorem parseLooseFraming_encodeLoose (object : GitObject) :
    parseLooseFraming (encodeLoose object) = some object := by
  have hdigit : ∀ b ∈ digitBytes object.data.length, b ≠ 0 := by
    intro b hb
    obtain ⟨c, hc, rfl⟩ := List.mem_map.mp hb
    exact (digit_byte (isDigit_of_mem_digits hc)).2.1
  have hheader : ∀ b ∈ object.kind.asBytes ++ 32 :: digitBytes object.data.length,
      decide (b ≠ 0) = true := by
    intro b hb
    rcases List.mem_append.mp hb with hb | hb
    · simpa using (ObjectKind.asBytes_ne b hb).1
    · rcases List.mem_cons.mp hb with rfl | hb
      · decide
      · simpa using hdigit b hb
  have hkind : ∀ b ∈ object.kind.asBytes, decide (b ≠ 32) = true := fun b hb => by
    simpa using (ObjectKind.asBytes_ne b hb).2
  have hframe : encodeLoose object =
      (object.kind.asBytes ++ 32 :: digitBytes object.data.length) ++ 0 :: object.data := by
    simp [encodeLoose]
  have hbody : (encodeLoose object).dropWhile (· ≠ 0) = 0 :: object.data := by
    rw [hframe, List.dropWhile_append_of_pos hheader]
    rfl
  have hhead : (encodeLoose object).takeWhile (· ≠ 0) =
      object.kind.asBytes ++ 32 :: digitBytes object.data.length := by
    rw [hframe, List.takeWhile_append_of_pos hheader]
    exact List.append_nil _
  have hdigits : (object.kind.asBytes ++ 32 :: digitBytes object.data.length).dropWhile (· ≠ 32) =
      32 :: digitBytes object.data.length := by
    rw [List.dropWhile_append_of_pos hkind]
    rfl
  have htoken : (object.kind.asBytes ++ 32 :: digitBytes object.data.length).takeWhile (· ≠ 32) =
      object.kind.asBytes := by
    rw [List.takeWhile_append_of_pos hkind]
    exact List.append_nil _
  simp only [parseLooseFraming, hbody, hhead, hdigits, htoken, ObjectKind.ofBytes_asBytes,
    parseUsize_digitBytes, Option.bind_eq_bind, Option.bind_some, if_true]

/-- What the store relies on: a finished stream inflates to what was written,
and it starts with the byte that opens a zlib stream. -/
structure PackCodec.Sound (p : PackCodec) : Prop where
  round_trip : ∀ framing bytes, p.finish framing = .ok bytes → p.inflate bytes = .ok framing
  opening : ∀ framing bytes, p.finish framing = .ok bytes → bytes.head? = some 0x78

theorem parseLooseFraming_zlib {bytes : Bytes} (h : bytes.head? = some 0x78) :
    parseLooseFraming bytes = none := by
  obtain ⟨rest, rfl⟩ := List.head?_eq_some_iff.mp h
  have hkind (token : Bytes) : ObjectKind.ofBytes (0x78 :: token) = none := by
    simp [ObjectKind.ofBytes, ObjectKind.asBytes]
  unfold parseLooseFraming
  rw [List.takeWhile_cons_of_pos (by decide)]
  split
  · rfl
  · dsimp only
    rw [List.takeWhile_cons_of_pos (by decide), hkind]
    split <;> rfl

theorem zlibCompress_eq_ok {p : PackCodec} {framing bytes : Bytes} (h : zlibCompress p framing = .ok bytes) :
    p.finish framing = .ok bytes := by
  unfold zlibCompress at h
  split at h
  · cases h
  · split at h
    · cases h
    · next he => rw [he, Except.ok.inj h]

theorem decodeCasObject_zlibCompress {p : PackCodec} (hp : p.Sound) {object : GitObject} {bytes : Bytes}
    (h : zlibCompress p (encodeLoose object) = .ok bytes) : decodeCasObject p bytes = .ok object := by
  have hf := zlibCompress_eq_ok h
  simp [decodeCasObject, parseLooseFraming_zlib (hp.opening _ _ hf), hp.round_trip _ _ hf,
    parseLooseFraming_encodeLoose]

section

variable {g : GitCodec} {p : PackCodec} {limits : RecvLimits}

structure Packed (g : GitCodec) (p : PackCodec) (objects : List CasObject)
    (byOid : List (Oid × GitObject)) : Prop where
  oids : objects.map CasObject.oid = byOid.map Prod.fst
  framed : ∀ o ∈ objects, ∃ object, (o.oid, object) ∈ byOid ∧
    zlibCompress p (encodeLoose object) = .ok o.bytes
  hashed : ∀ e ∈ byOid, g.computeHash e.2.kind e.2.data = .ok e.1
  nodup : (byOid.map Prod.fst).Nodup

namespace Unpacking

variable {s : Unpacking}

theorem finalize_packed {object : GitObject} {r : Oid × Unpacking} (h : finalize g p limits object s = .ok r)
    (hs : Packed g p s.objects s.byOid) :
    Packed g p r.2.objects r.2.byOid := by
  unfold finalize at h
  split at h
  · cases h
  next oid hoid =>
    split_ifs at h with hseen
    · obtain rfl := Except.ok.inj h
      exact hs
    · obtain ⟨_, h⟩ := ite_error_eq_ok.mp h
      obtain ⟨bytes, hbytes, hr⟩ := bind_eq_ok.mp h
      obtain rfl := pure_eq_ok.mp hr
      have hnew : oid ∉ s.byOid.map Prod.fst := by
        simpa [List.lookup_isSome_iff] using hseen
      refine ⟨by simp [hs.oids], ?_, ?_, ?_⟩
      · intro o ho
        rcases List.mem_append.mp ho with ho | ho
        · obtain ⟨old, hold, hframe⟩ := hs.framed o ho
          exact ⟨old, List.mem_append_left _ hold, hframe⟩
        · obtain rfl := List.mem_singleton.mp ho
          exact ⟨object, by simp, hbytes⟩
      · intro e he
        rcases List.mem_append.mp he with he | he
        · exact hs.hashed e he
        · rw [List.mem_singleton.mp he]
          exact hoid
      · rw [List.map_append, List.map_singleton]
        exact hs.nodup.append (List.nodup_singleton _) (by simpa using hnew)

variable {i : Nat} {s' : Unpacking}

theorem settle_packed {object : GitObject} (h : settle g p limits i object s = .ok s')
    (hs : Packed g p s.objects s.byOid) :
    Packed g p s'.objects s'.byOid := by
  obtain ⟨r, hr, he⟩ := bind_eq_ok.mp h
  obtain rfl := pure_eq_ok.mp he
  exact finalize_packed hr hs

theorem settleBases_packed {raws : List (RawEntry × Nat)} (h : settleBases g p limits raws s = .ok s')
    (hs : Packed g p s.objects s.byOid) :
    Packed g p s'.objects s'.byOid := by
  induction raws generalizing s with
  | nil =>
    obtain rfl := Except.ok.inj h
    exact hs
  | cons r raws ih =>
    unfold settleBases at h
    split at h
    · obtain ⟨t, ht, hrest⟩ := bind_eq_ok.mp h
      exact ih hrest (settle_packed ht hs)
    · exact ih h hs

theorem resolve_packed {base : GitObject} {delta : Bytes} (h : resolve g p limits i base delta s = .ok s')
    (hs : Packed g p s.objects s.byOid) :
    Packed g p s'.objects s'.byOid := by
  obtain ⟨data, _, hd⟩ := bind_eq_ok.mp h
  exact settle_packed hd hs

def Pass.Packed (g : GitCodec) (p : PackCodec) (pass : Pass) : Prop :=
  Hugit.Packed g p pass.state.objects pass.state.byOid

variable {raws : List RawEntry}

theorem packStep_packed {pass pass' : Pass} (hs : pass.Packed g p)
    (h : packStep g p limits raws pass i = .ok pass') : pass'.Packed g p := by
  unfold packStep at h
  split at h
  · obtain rfl := Except.ok.inj h
    exact hs
  · obtain ⟨b, _, hb⟩ := bind_eq_ok.mp h
    split at hb
    · obtain rfl := pure_eq_ok.mp hb
      exact hs
    · split at hb
      · obtain rfl := pure_eq_ok.mp hb
        exact hs
      · obtain ⟨s, hr, he⟩ := bind_eq_ok.mp hb
        obtain rfl := pure_eq_ok.mp he
        exact resolve_packed hr hs

theorem casStep_packed {cas : InMemoryCas} {pass pass' : Pass} (hs : pass.Packed g p)
    (h : casStep g p limits cas raws pass i = .ok pass') : pass'.Packed g p := by
  unfold casStep at h
  split at h
  · obtain rfl := Except.ok.inj h
    exact hs
  split at h
  · obtain ⟨_, h⟩ := ite_error_eq_ok.mp h
    split at h
    · obtain rfl := Except.ok.inj h
      exact hs
    · obtain ⟨base, _, h⟩ := bind_eq_ok.mp h
      obtain ⟨s, hr, he⟩ := bind_eq_ok.mp h
      obtain rfl := pure_eq_ok.mp he
      exact resolve_packed hr hs
  · obtain rfl := Except.ok.inj h
    exact hs

theorem resolveDeltas_packed {cas : InMemoryCas} {passes : Nat} {remaining : List Nat}
    (h : resolveDeltas g p limits cas raws passes remaining s = .ok s') (hs : Packed g p s.objects s.byOid) :
    Packed g p s'.objects s'.byOid := by
  induction passes generalizing remaining s with
  | zero =>
    cases remaining with
    | nil =>
      obtain rfl := Except.ok.inj h
      exact hs
    | cons i rest => cases h
  | succ passes ih =>
    cases remaining with
    | nil =>
      obtain rfl := Except.ok.inj h
      exact hs
    | cons i rest =>
      obtain ⟨pass, hpass, h⟩ := bind_eq_ok.mp h
      have hp : pass.Packed g p := foldlM_keeps (P := fun _ => Pass.Packed g p) (fun _ _ _ _ => packStep_packed)
        (show Pass.Packed g p ⟨s, [], false⟩ from hs) hpass
      split_ifs at h
      · exact ih h hp
      · obtain ⟨thin, hthin, h⟩ := bind_eq_ok.mp h
        have ht : thin.Packed g p := foldlM_keeps (P := fun _ => Pass.Packed g p) (fun _ _ _ _ => casStep_packed)
          (show Pass.Packed g p ⟨pass.state, [], false⟩ from hp) hthin
        split_ifs at h
        exact ih h ht

end Unpacking

theorem unpackPack_packed {pack : Bytes} {cas : InMemoryCas} {u : UnpackedPack}
    (h : unpackPack g p pack cas limits = .ok u) : Packed g p u.objects u.byOid := by
  obtain ⟨_, _, h⟩ := bind_eq_ok.mp h
  split at h
  · cases h
  · obtain ⟨raws, _, h⟩ := bind_eq_ok.mp h
    obtain ⟨bases, hbases, h⟩ := bind_eq_ok.mp h
    obtain ⟨s, hs, h⟩ := bind_eq_ok.mp h
    obtain rfl := pure_eq_ok.mp h
    have hstart : Packed g p (Unpacking.start raws.length).objects (Unpacking.start raws.length).byOid :=
      ⟨rfl, by simp [Unpacking.start], by simp [Unpacking.start], by simp [Unpacking.start]⟩
    exact Unpacking.resolveDeltas_packed hs (Unpacking.settleBases_packed hbases hstart)

end

end Hugit
