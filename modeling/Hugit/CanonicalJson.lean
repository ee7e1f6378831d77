import Hugit.Tamper

/-! Canonical JSON: sorting the keys changes no member, so a canonical text is
read back with the members it was written from. -/

namespace Hugit

/-- What `serde_json` guarantees: every value it can hold is read back. -/
structure Crates.Json (c : Crates) : Prop where
  sound : c.Sound
  reads_back : ∀ v : Value, v.Printable 127 → c.fromStr (c.print v) = some v

theorem reference_json : reference.Json :=
  ⟨reference_sound, fun _ hv => readJson_printJson hv⟩

structure Crates.Parses (c : Crates) : Prop extends c.Json where
  parsed_printable : ∀ text v, c.fromStr text = some v → v.Printable 127

theorem reference_parses : reference.Parses :=
  ⟨reference_json, fun _ _ h => readJson_printable h⟩

variable {v : Value}

theorem canonicalJson_print {c : Crates} (hc : c.Json) (hv : v.Printable 127) :
    canonicalJson c (c.print v) = some (c.print (canonicalizeValue v)) := by
  rw [canonicalJson, hc.reads_back v hv, Option.map_some]

def optText : Option String → Value
  | some text => .string text
  | none => .null

variable {depth : Nat}

theorem optText_printable (text : Option String) : (optText text).Printable depth := by
  cases text with
  | none => exact .null
  | some text => exact .string text

theorem lookup_of_perm {fs gs : List (String × Value)} (h : fs.Perm gs) (hnd : (fs.map Prod.fst).Nodup)
    (key : String) : fs.lookup key = gs.lookup key := by
  have hnd' : (gs.map Prod.fst).Nodup := (h.map Prod.fst).nodup_iff.mp hnd
  ext v
  rw [lookup_eq_some_iff hnd, lookup_eq_some_iff hnd', h.mem_iff]

variable {fields : List (String × Value)}

theorem insertSorted_perm {key : String} (hk : key ∉ fields.map Prod.fst) (v : Value) :
    (Value.insertSorted key v fields).Perm ((key, v) :: fields) := by
  induction fields with
  | nil => exact .refl _
  | cons f fields ih =>
    obtain ⟨k, w⟩ := f
    simp only [List.map_cons, List.mem_cons, not_or] at hk
    rw [Value.insertSorted, if_neg hk.1]
    split_ifs
    · exact .refl _
    · exact ((ih hk.2).cons _).trans (.swap _ _ _)

def canonicalMember (f : String × Value) : String × Value :=
  (f.1, canonicalizeValue f.2)

theorem canonicalizeItems_eq_map (items : List Value) :
    canonicalizeItems items = items.map canonicalizeValue := by
  induction items with
  | nil => rw [canonicalizeItems, List.map_nil]
  | cons v vs ih => rw [canonicalizeItems, List.map_cons, ih]

theorem canonicalizeFields_perm {sorted fields : List (String × Value)}
    (hnd : ((sorted ++ fields).map Prod.fst).Nodup) :
    (canonicalizeFields sorted fields).Perm (sorted ++ fields.map canonicalMember) := by
  induction fields generalizing sorted with
  | nil =>
    rw [canonicalizeFields, List.map_nil, List.append_nil]
  | cons f fields ih =>
    obtain ⟨k, v⟩ := f
    have hmid : (sorted ++ (k, v) :: fields).Perm ((k, v) :: (sorted ++ fields)) := List.perm_middle
    have hperm : ((sorted ++ (k, v) :: fields).map Prod.fst).Perm (k :: (sorted ++ fields).map Prod.fst) :=
      hmid.map Prod.fst
    obtain ⟨hk, hrest⟩ := List.nodup_cons.mp (hperm.nodup_iff.mp hnd)
    have hfresh : k ∉ sorted.map Prod.fst := fun hmem =>
      hk (by rw [List.map_append]; exact List.mem_append_left _ hmem)
    have hins := insertSorted_perm hfresh (canonicalizeValue v)
    have hnd' : ((Value.insertSorted k (canonicalizeValue v) sorted ++ fields).map Prod.fst).Nodup := by
      have hh := (hins.append_right fields).map Prod.fst
      exact hh.nodup_iff.mpr (List.nodup_cons.mpr ⟨hk, hrest⟩)
    rw [canonicalizeFields, List.map_cons]
    refine (ih hnd').trans ?_
    refine (hins.append_right _).trans ?_
    exact List.perm_middle.symm

theorem canonicalizeFields_nil_perm (hnd : (fields.map Prod.fst).Nodup) :
    (canonicalizeFields [] fields).Perm (fields.map canonicalMember) :=
  canonicalizeFields_perm hnd

theorem canonicalizeFields_keys (hnd : (fields.map Prod.fst).Nodup) :
    ((canonicalizeFields [] fields).map Prod.fst).Perm (fields.map Prod.fst) := by
  have hh := (canonicalizeFields_nil_perm hnd).map Prod.fst
  simpa [canonicalMember, Function.comp_def] using hh

theorem Value.Printable.canonicalize (hv : v.Printable depth) : (canonicalizeValue v).Printable depth := by
  induction hv with
  | null => exact .null
  | bool b => exact .bool b
  | number hn => exact .number hn
  | string s => exact .string s
  | array h ih =>
    rw [canonicalizeValue, canonicalizeItems_eq_map]
    refine .array fun v hv => ?_
    obtain ⟨w, hw, rfl⟩ := List.mem_map.mp hv
    exact ih w hw
  | object hnd h ih =>
    rw [canonicalizeValue]
    refine .object ((canonicalizeFields_keys hnd).nodup_iff.mpr hnd) fun f hf => ?_
    obtain ⟨g, hg, rfl⟩ := List.mem_map.mp ((canonicalizeFields_nil_perm hnd).mem_iff.mp hf)
    exact ih g hg

theorem get_canonicalizeValue (hv : v.Printable depth) (key : String) :
    (canonicalizeValue v).get key = (v.get key).map canonicalizeValue := by
  cases hv with
  | null | bool | number | string => simp [canonicalizeValue, Value.get]
  | array => simp [canonicalizeValue, Value.get]
  | @object _ fields hnd h =>
    have hkeys := (canonicalizeFields_keys hnd).nodup_iff.mpr hnd
    have hlookup : (fields.map canonicalMember).lookup key = (fields.lookup key).map canonicalizeValue := by
      clear hnd h hkeys
      induction fields with
      | nil => rfl
      | cons f fields ih =>
        obtain ⟨k, w⟩ := f
        cases hk : key == k
        · simpa [canonicalMember, List.lookup_cons, hk] using ih
        · simp [canonicalMember, List.lookup_cons, hk]
    rw [canonicalizeValue]
    simp only [Value.get]
    rw [lookup_of_perm (canonicalizeFields_nil_perm hnd) hkeys, hlookup]

theorem asStr_canonicalizeValue (v : Value) : (canonicalizeValue v).asStr = v.asStr := by
  cases v <;> simp [canonicalizeValue, Value.asStr]

theorem fieldStr_canonicalizeValue (hv : v.Printable depth) (key : String) :
    (canonicalizeValue v).fieldStr key = v.fieldStr key := by
  rw [Value.fieldStr, Value.fieldStr, get_canonicalizeValue hv]
  cases v.get key with
  | none => rfl
  | some w => exact asStr_canonicalizeValue w

end Hugit
