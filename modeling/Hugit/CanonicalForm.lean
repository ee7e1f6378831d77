import Hugit.CanonicalJson
import Mathlib.Data.List.Sort
import Mathlib.Data.String.Basic

/-! The canonical text of a JSON text: the same for two texts exactly when they
hold the same value up to the order of keys. -/

namespace Hugit

/-- Equal up to the order of the keys in objects, at every depth. -/
inductive Value.SameUpToOrder : Value → Value → Prop
  | null : SameUpToOrder .null .null
  | bool (b : Bool) : SameUpToOrder (.bool b) (.bool b)
  | number (n : Number) : SameUpToOrder (.number n) (.number n)
  | string (s : String) : SameUpToOrder (.string s) (.string s)
  | array {vs ws : List Value} (length : vs.length = ws.length)
      (items : ∀ (i : Nat) v w, vs[i]? = some v → ws[i]? = some w → SameUpToOrder v w) :
      SameUpToOrder (.array vs) (.array ws)
  | object {fs gs : List (String × Value)} (keys : (fs.map Prod.fst).Perm (gs.map Prod.fst))
      (members : ∀ key v w, (key, v) ∈ fs → (key, w) ∈ gs → SameUpToOrder v w) :
      SameUpToOrder (.object fs) (.object gs)

def KeySorted (fields : List (String × Value)) : Prop :=
  fields.Pairwise fun f g => f.1 < g.1

variable {key : String} {v : Value} {fields : List (String × Value)}

theorem mem_insertSorted {f : String × Value} (h : f ∈ Value.insertSorted key v fields) : f.1 = key ∨ f ∈ fields := by
  induction fields with
  | nil =>
    obtain rfl := List.mem_singleton.mp h
    exact .inl rfl
  | cons g fields ih =>
    rw [Value.insertSorted] at h
    split_ifs at h with hlt heq
    · rcases List.mem_cons.mp h with rfl | h
      · exact .inl rfl
      · exact .inr h
    · rcases List.mem_cons.mp h with rfl | h
      · exact .inl rfl
      · exact .inr (List.mem_cons_of_mem _ h)
    · rcases List.mem_cons.mp h with rfl | h
      · exact .inr List.mem_cons_self
      · rcases ih h with hk | hmem
        · exact .inl hk
        · exact .inr (List.mem_cons_of_mem _ hmem)

theorem KeySorted.insertSorted (h : KeySorted fields) (key : String) (v : Value) :
    KeySorted (Value.insertSorted key v fields) := by
  induction fields with
  | nil => exact List.pairwise_singleton _ _
  | cons g fields ih =>
    obtain ⟨hfirst, hrest⟩ := List.pairwise_cons.mp h
    rw [Value.insertSorted]
    split_ifs with hlt heq
    · refine List.pairwise_cons.mpr ⟨fun f hf => ?_, h⟩
      rcases List.mem_cons.mp hf with rfl | hf
      · exact hlt
      · exact lt_trans hlt (hfirst f hf)
    · refine List.pairwise_cons.mpr ⟨fun f hf => ?_, hrest⟩
      dsimp only
      rw [heq]
      exact hfirst f hf
    · refine List.pairwise_cons.mpr ⟨fun f hf => ?_, ih hrest⟩
      rcases mem_insertSorted hf with hk | hf
      · rw [hk]
        exact lt_of_le_of_ne (not_lt.mp hlt) (Ne.symm heq)
      · exact hfirst f hf

theorem canonicalizeFields_sorted {sorted fields : List (String × Value)} (h : KeySorted sorted) :
    KeySorted (canonicalizeFields sorted fields) := by
  induction fields generalizing sorted with
  | nil =>
    rw [canonicalizeFields]
    exact h
  | cons f fields ih =>
    rw [canonicalizeFields]
    exact ih (h.insertSorted _ _)

theorem KeySorted.eq_of_perm {fs gs : List (String × Value)} (hf : KeySorted fs) (hg : KeySorted gs)
    (h : fs.Perm gs) : fs = gs := by
  refine h.eq_of_pairwise (fun f g _ _ hfg hgf => ?_) hf hg
  exact absurd hfg (lt_asymm hgf)

variable {w : Value}

theorem snd_eq_of_mem (h : (fields.map Prod.fst).Nodup) (hv : (key, v) ∈ fields) (hw : (key, w) ∈ fields) : v = w := by
  have hh := (lookup_eq_some_iff h).mpr hv
  rw [(lookup_eq_some_iff h).mpr hw] at hh
  exact (Option.some.inj hh).symm

theorem mem_canonicalizeFields (h : (fields.map Prod.fst).Nodup) :
    (key, v) ∈ canonicalizeFields [] fields ↔ ∃ w, (key, w) ∈ fields ∧ canonicalizeValue w = v := by
  rw [(canonicalizeFields_nil_perm h).mem_iff, List.mem_map]
  constructor
  · rintro ⟨⟨k, w⟩, hmem, heq⟩
    obtain ⟨rfl, rfl⟩ := Prod.mk.inj heq
    exact ⟨w, hmem, rfl⟩
  · rintro ⟨w, hmem, rfl⟩
    exact ⟨(key, w), hmem, rfl⟩

theorem canonicalize_of_same (h : v.SameUpToOrder w) :
    ∀ {depth depth' : Nat}, v.Printable depth → w.Printable depth' →
      canonicalizeValue v = canonicalizeValue w := by
  induction h with
  | null => exact fun _ _ => rfl
  | bool b => exact fun _ _ => rfl
  | number n => exact fun _ _ => rfl
  | string s => exact fun _ _ => rfl
  | @array vs ws hlen _ ih =>
    rintro _ _ (_ | _ | _ | _ | hv | _) (_ | _ | _ | _ | hw | _)
    rw [canonicalizeValue, canonicalizeValue, canonicalizeItems_eq_map, canonicalizeItems_eq_map]
    congr 1
    refine List.ext_getElem (by simpa using hlen) fun i hi hi' => ?_
    rw [List.length_map] at hi hi'
    rw [List.getElem_map, List.getElem_map]
    exact ih i _ _ (List.getElem?_eq_getElem hi) (List.getElem?_eq_getElem hi') (hv _ (List.getElem_mem hi))
      (hw _ (List.getElem_mem hi'))
  | @object fs gs hkeys _ ih =>
    rintro _ _ (_ | _ | _ | _ | _ | ⟨hnd, hv⟩) (_ | _ | _ | _ | _ | ⟨hnd', hw⟩)
    rw [canonicalizeValue, canonicalizeValue]
    congr 1
    have hfs : (canonicalizeFields [] fs).Nodup := ((canonicalizeFields_keys hnd).nodup_iff.mpr hnd).of_map
    have hgs : (canonicalizeFields [] gs).Nodup := ((canonicalizeFields_keys hnd').nodup_iff.mpr hnd').of_map
    refine (canonicalizeFields_sorted .nil).eq_of_perm (canonicalizeFields_sorted .nil) ?_
    refine (List.perm_ext_iff_of_nodup hfs hgs).mpr fun f => ?_
    rw [mem_canonicalizeFields hnd, mem_canonicalizeFields hnd']
    constructor
    · rintro ⟨v, hmem, heq⟩
      obtain ⟨⟨key, w⟩, hw', rfl⟩ := List.mem_map.mp (hkeys.mem_iff.mp (List.mem_map_of_mem hmem))
      exact ⟨w, hw', heq ▸ (ih _ v w hmem hw' (hv _ hmem) (hw _ hw')).symm⟩
    · rintro ⟨w, hmem, heq⟩
      obtain ⟨⟨key, v⟩, hv', rfl⟩ := List.mem_map.mp (hkeys.mem_iff.mpr (List.mem_map_of_mem hmem))
      exact ⟨v, hv', heq ▸ ih _ v w hv' hmem (hv _ hv') (hw _ hmem)⟩

variable {depth : Nat}

theorem same_of_canonicalize (hv : v.Printable depth) :
    ∀ {depth' : Nat} {w : Value}, w.Printable depth' → canonicalizeValue v = canonicalizeValue w →
      v.SameUpToOrder w := by
  induction hv with
  | null =>
    intro _ w _ h
    cases w <;> simp only [canonicalizeValue, reduceCtorEq] at h
    exact .null
  | bool b =>
    intro _ w _ h
    cases w <;> simp only [canonicalizeValue, reduceCtorEq, Value.bool.injEq] at h
    exact h ▸ .bool b
  | @number _ n hn =>
    intro _ w _ h
    cases w <;> simp only [canonicalizeValue, reduceCtorEq, Value.number.injEq] at h
    exact h ▸ .number n
  | string s =>
    intro _ w _ h
    cases w <;> simp only [canonicalizeValue, reduceCtorEq, Value.string.injEq] at h
    exact h ▸ .string s
  | @array _ vs hvs ih =>
    intro _ w hw h
    cases hw with
    | null | bool | number | string | object => simp [canonicalizeValue] at h
    | @array _ ws hws =>
      rw [canonicalizeValue, canonicalizeValue, Value.array.injEq, canonicalizeItems_eq_map,
        canonicalizeItems_eq_map] at h
      refine .array (by simpa using congrArg List.length h) fun i v w hvi hwi => ?_
      have hi := congrArg (·[i]?) h
      simp only [List.getElem?_map, hvi, hwi, Option.map_some, Option.some.injEq] at hi
      exact ih v (List.mem_of_getElem? hvi) (hws w (List.mem_of_getElem? hwi)) hi
  | @object _ fs hnd hfs ih =>
    intro _ w hw h
    cases hw with
    | null | bool | number | string | array => simp [canonicalizeValue] at h
    | @object _ gs hnd' hgs =>
      rw [canonicalizeValue, canonicalizeValue, Value.object.injEq] at h
      refine .object ?_ fun key v w hmem hmem' => ?_
      · have hkeys := canonicalizeFields_keys hnd
        rw [h] at hkeys
        exact hkeys.symm.trans (canonicalizeFields_keys hnd')
      · have hin : (key, canonicalizeValue v) ∈ canonicalizeFields [] gs := by
          rw [← h]
          exact (mem_canonicalizeFields hnd).mpr ⟨v, hmem, rfl⟩
        obtain ⟨w', hw', heq⟩ := (mem_canonicalizeFields hnd').mp hin
        obtain rfl := snd_eq_of_mem hnd' hmem' hw'
        exact ih (key, v) hmem (hgs (key, w) hmem') heq.symm

theorem canonicalize_eq_iff {depth depth' : Nat} (hv : v.Printable depth) (hw : w.Printable depth') :
    canonicalizeValue v = canonicalizeValue w ↔ v.SameUpToOrder w :=
  ⟨same_of_canonicalize hv hw, fun h => canonicalize_of_same h hv hw⟩

theorem same_canonicalize (hv : v.Printable depth) : (canonicalizeValue v).SameUpToOrder v := by
  induction hv with
  | null => exact .null
  | bool b => exact .bool b
  | @number _ n hn => exact .number n
  | string s => exact .string s
  | @array _ vs hvs ih =>
    rw [canonicalizeValue, canonicalizeItems_eq_map]
    refine .array (by simp) fun i v w hvi hwi => ?_
    rw [List.getElem?_map, hwi, Option.map_some, Option.some.injEq] at hvi
    exact hvi ▸ ih w (List.mem_of_getElem? hwi)
  | @object _ fs hnd hfs ih =>
    rw [canonicalizeValue]
    refine .object (canonicalizeFields_keys hnd) fun key v w hmem hmem' => ?_
    obtain ⟨w', hw', rfl⟩ := (mem_canonicalizeFields hnd).mp hmem
    obtain rfl := snd_eq_of_mem hnd hmem' hw'
    exact ih (key, w) hmem'

theorem canonicalizeValue_idem (hv : v.Printable depth) :
    canonicalizeValue (canonicalizeValue v) = canonicalizeValue v :=
  (canonicalize_eq_iff hv.canonicalize hv).mpr (same_canonicalize hv)

theorem Crates.Json.print_inj {c : Crates} (hc : c.Json) (hv : v.Printable 127) (hw : w.Printable 127)
    (h : c.print v = c.print w) : v = w := by
  have hread := hc.reads_back v hv
  rw [h, hc.reads_back w hw] at hread
  exact (Option.some.inj hread).symm

/-- Two texts have the same canonical text exactly when they hold the same value
up to key order, and a canonical text is its own. -/
theorem canonicalJson_canonical {c : Crates} (hc : c.Parses) {a b : String} {v w : Value}
    (ha : c.fromStr a = some v) (hb : c.fromStr b = some w) :
    (canonicalJson c a = canonicalJson c b ↔ v.SameUpToOrder w) ∧
      ∃ text, canonicalJson c a = some text ∧ canonicalJson c text = some text := by
  have hv := hc.parsed_printable a v ha
  have hw := hc.parsed_printable b w hb
  have hcanon : canonicalJson c a = some (c.print (canonicalizeValue v)) := by rw [canonicalJson, ha, Option.map_some]
  refine ⟨?_, c.print (canonicalizeValue v), hcanon, ?_⟩
  · rw [hcanon, canonicalJson, hb, Option.map_some, Option.some.injEq, ← canonicalize_eq_iff hv hw]
    exact ⟨fun h => hc.toJson.print_inj hv.canonicalize hw.canonicalize h, fun h => congrArg c.print h⟩
  · rw [canonicalJson_print hc.toJson hv.canonicalize, canonicalizeValue_idem hv]

def reordered (first second : String × Value) : Value :=
  .object [first, second]

/-- Two texts that list their members in different orders. -/
theorem canonicalJson_reordered :
    canonicalJson reference (reference.print (reordered ("b", .bool true) ("a", .array [.string "x"]))) =
        canonicalJson reference (reference.print (reordered ("a", .array [.string "x"]) ("b", .bool true))) ∧
      ∃ text, canonicalJson reference (reference.print (reordered ("b", .bool true) ("a", .array [.string "x"]))) =
        some text ∧ canonicalJson reference text = some text := by
  have hitems : (Value.array [.string "x"]).Printable 126 :=
    .array (List.forall_mem_singleton.mpr (.string "x"))
  have hba : (reordered ("b", .bool true) ("a", .array [.string "x"])).Printable 127 :=
    .object (by decide) (List.forall_mem_cons.mpr ⟨.bool true, List.forall_mem_singleton.mpr hitems⟩)
  have hab : (reordered ("a", .array [.string "x"]) ("b", .bool true)).Printable 127 :=
    .object (by decide) (List.forall_mem_cons.mpr ⟨hitems, List.forall_mem_singleton.mpr (.bool true)⟩)
  obtain ⟨hiff, hself⟩ := canonicalJson_canonical reference_parses (reference_json.reads_back _ hba)
    (reference_json.reads_back _ hab)
  refine ⟨hiff.mpr (.object (.swap _ _ _) fun key v w hv hw => ?_), hself⟩
  have hsame : v = w := snd_eq_of_mem (by decide) ((List.Perm.swap _ _ _).mem_iff.mp hv) hw
  subst hsame
  simp only [List.mem_cons, Prod.mk.injEq, List.not_mem_nil, or_false] at hv
  rcases hv with ⟨-, rfl⟩ | ⟨-, rfl⟩
  · exact .bool true
  · refine .array rfl fun i v w hv hw => ?_
    rw [hv] at hw
    obtain rfl := Option.some.inj hw
    obtain rfl := List.mem_singleton.mp (List.mem_of_getElem? hv)
    exact .string "x"

end Hugit
