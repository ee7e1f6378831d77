import Hugit.JsonRoundTrip

/-! Records as JSON values. A record is written as an object and read from an
object by key or from an array by position. -/

namespace Hugit

namespace Value

def fieldsOf (keys : List String) (closed : Bool) : Value → Option (List Value)
  | object fields =>
    if closed = true ∧ ∃ f ∈ fields, f.1 ∉ keys then none else keys.mapM fun key => fields.lookup key
  | array items => if items.length = keys.length then some items else none
  | _ => none

def unitVariant : Value → Option String
  | string name => some name
  | object [(name, null)] => some name
  | _ => none

theorem lookup_zip_cons_of_ne {key k : String} (h : key ≠ k) (v : Value) (keys : List String) (vs : List Value) :
    ((k :: keys).zip (v :: vs)).lookup key = (keys.zip vs).lookup key := by
  rw [List.zip_cons_cons, List.lookup_cons, beq_eq_false_iff_ne.mpr h]

theorem mapM_congr {α β : Type} {f g : α → Option β} {as : List α} (h : ∀ a ∈ as, f a = g a) :
    as.mapM f = as.mapM g := by
  induction as with
  | nil => rfl
  | cons a as ih =>
    rw [List.mapM_cons, List.mapM_cons, h a List.mem_cons_self, ih fun b hb => h b (List.mem_cons_of_mem a hb)]

theorem mapM_of_forall₂ {α β : Type} {f : α → Option β} {as : List α} {bs : List β}
    (h : List.Forall₂ (fun a b => f a = some b) as bs) : as.mapM f = some bs := by
  induction h with
  | nil => rfl
  | cons hab _ ih =>
    rw [List.mapM_cons, hab, ih]
    rfl

theorem mapM_lookup_zip {keys : List String} (hnd : keys.Nodup) {vs : List Value} (hl : vs.length = keys.length) :
    keys.mapM (fun key => (keys.zip vs).lookup key) = some vs := by
  induction keys generalizing vs with
  | nil =>
    obtain rfl := List.length_eq_zero_iff.mp hl
    rfl
  | cons key keys ih =>
    obtain ⟨hfresh, hnd⟩ := List.nodup_cons.mp hnd
    cases vs with
    | nil => cases hl
    | cons v vs =>
      have hrest : keys.mapM (fun k => ((key :: keys).zip (v :: vs)).lookup k) = some vs := by
        rw [← ih hnd (Nat.succ.inj hl)]
        refine mapM_congr fun k hk => ?_
        have hne : k ≠ key := fun he => hfresh (he ▸ hk)
        exact lookup_zip_cons_of_ne hne v keys vs
      rw [List.mapM_cons, hrest, List.zip_cons_cons, List.lookup_cons_self]
      rfl

theorem fieldsOf_object {keys : List String} (hnd : keys.Nodup) {vs : List Value} (hl : vs.length = keys.length)
    (closed : Bool) : (object (keys.zip vs)).fieldsOf keys closed = some vs := by
  have hknown : ¬ (closed = true ∧ ∃ f ∈ keys.zip vs, f.1 ∉ keys) := by
    rintro ⟨_, f, hf, hne⟩
    exact hne (List.of_mem_zip hf).1
  rw [fieldsOf, if_neg hknown, mapM_lookup_zip hnd hl]

end Value

structure Serde (α : Type) where
  toValue : α → Value
  ofValue : Value → Option α

namespace Serde

def str : Serde String :=
  ⟨.string, Value.asStr⟩

def bool : Serde Bool :=
  ⟨.bool, Value.asBool⟩

def natU64 : Serde Nat :=
  ⟨fun n => .number (.posInt n), Value.asU64⟩

def u64 : Serde UInt64 where
  toValue n := .number (.posInt n.toNat)
  ofValue v := v.asU64.bind fun n => if n < 2 ^ 64 then some (UInt64.ofNat n) else none

def asArray : Value → Option (List Value)
  | .array items => some items
  | _ => none

def vec {α : Type} (s : Serde α) : Serde (List α) where
  toValue items := .array (items.map s.toValue)
  ofValue v := (asArray v).bind fun items => items.mapM s.ofValue

def ofNullable {α : Type} (s : Serde α) : Value → Option (Option α)
  | .null => some none
  | v => (s.ofValue v).map some

def option {α : Type} (s : Serde α) : Serde (Option α) where
  toValue o := (o.map s.toValue).getD .null
  ofValue := s.ofNullable

def record {α : Type} (keys : List String) (closed : Bool) (fields : α → List Value)
    (build : List Value → Option α) : Serde α where
  toValue a := .object (keys.zip (fields a))
  ofValue v := (v.fieldsOf keys closed).bind build

/-- The value is read back, and nests no deeper than the bound. -/
structure Reads {α : Type} (s : Serde α) (depth : Nat) (a : α) : Prop where
  reads : s.ofValue (s.toValue a) = some a
  printable : (s.toValue a).Printable depth

theorem str_reads (depth : Nat) (text : String) : str.Reads depth text :=
  ⟨rfl, .string text⟩

theorem bool_reads (depth : Nat) (b : Bool) : bool.Reads depth b :=
  ⟨rfl, .bool b⟩

theorem natU64_reads (depth : Nat) {n : Nat} (h : n < 2 ^ 64) : natU64.Reads depth n :=
  ⟨rfl, .number h⟩

theorem u64_reads (depth : Nat) (n : UInt64) : u64.Reads depth n := by
  refine ⟨?_, .number n.toNat_lt⟩
  show (if n.toNat < 2 ^ 64 then some (UInt64.ofNat n.toNat) else none) = some n
  rw [if_pos n.toNat_lt, UInt64.ofNat_toNat]

theorem vec_reads {α : Type} {s : Serde α} {depth : Nat} {items : List α} (h : ∀ a ∈ items, s.Reads depth a) :
    s.vec.Reads (depth + 1) items := by
  constructor
  · have hmap : (items.map s.toValue).mapM s.ofValue = some items := by
      induction items with
      | nil => rfl
      | cons a items ih =>
        have ha := (h a List.mem_cons_self).reads
        rw [List.map_cons, List.mapM_cons, ha, ih fun b hb => h b (List.mem_cons_of_mem a hb)]
        rfl
    exact hmap
  · refine .array fun v hv => ?_
    obtain ⟨a, ha, rfl⟩ := List.mem_map.mp hv
    exact (h a ha).printable

theorem option_reads {α : Type} {s : Serde α} {depth : Nat} {o : Option α}
    (h : ∀ a ∈ o, s.Reads depth a ∧ s.toValue a ≠ .null) : s.option.Reads depth o := by
  cases o with
  | none => exact ⟨rfl, .null⟩
  | some a =>
    obtain ⟨⟨hread, hprint⟩, hnull⟩ := h a rfl
    refine ⟨?_, hprint⟩
    change s.ofNullable (s.toValue a) = some (some a)
    rw [ofNullable, hread]
    · rfl
    · exact hnull

theorem record_reads {α : Type} {keys : List String} {closed : Bool} {fields : α → List Value}
    {build : List Value → Option α} {depth : Nat} {a : α} (hnd : keys.Nodup)
    (hl : (fields a).length = keys.length) (hb : build (fields a) = some a)
    (hp : ∀ v ∈ fields a, v.Printable depth) : (record keys closed fields build).Reads (depth + 1) a := by
  constructor
  · show (Value.fieldsOf keys closed (.object (keys.zip (fields a)))).bind build = some a
    rw [Value.fieldsOf_object hnd hl, Option.bind_some, hb]
  · refine .object ?_ fun f hf => hp _ (List.of_mem_zip hf).2
    rwa [List.map_fst_zip hl.ge]

end Serde

end Hugit
