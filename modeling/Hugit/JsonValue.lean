import Hugit.Framing

/-! JSON values with insertion-ordered objects, and the lookups made on them. -/

namespace Hugit

/-- A number that is no machine integer is kept as its literal: nothing here
computes with it. -/
inductive Number where
  | posInt (n : Nat)
  | negInt (magnitude : Nat)
  | float (literal : String)
  deriving DecidableEq

inductive Value where
  | null
  | bool (b : Bool)
  | number (n : Number)
  | string (s : String)
  | array (items : List Value)
  | object (fields : List (String × Value))

def okOr {α ε : Type*} (o : Option α) (e : ε) : Except ε α :=
  match o with
  | some a => .ok a
  | none => .error e

@[simp] theorem okOr_some {α ε : Type*} (a : α) (e : ε) : okOr (some a) e = .ok a := rfl

@[simp] theorem okOr_none {α ε : Type*} (e : ε) : okOr (none : Option α) e = .error e := rfl

theorem okOr_eq_ok {α ε : Type*} {o : Option α} {e : ε} {a : α} : okOr o e = .ok a ↔ o = some a := by
  cases o <;> simp

theorem lookup_eq_some_iff {fields : List (String × Value)} (hnd : (fields.map Prod.fst).Nodup)
    {key : String} {v : Value} : fields.lookup key = some v ↔ (key, v) ∈ fields := by
  induction fields with
  | nil => simp
  | cons f fields ih =>
    obtain ⟨k, w⟩ := f
    rw [List.map_cons, List.nodup_cons] at hnd
    by_cases hk : key = k
    · subst hk
      have hfresh : (key, v) ∉ fields := fun hmem => hnd.1 (List.mem_map.mpr ⟨_, hmem, rfl⟩)
      simp [hfresh, eq_comm]
    · have hb : (key == k) = false := by simpa using hk
      simp [List.lookup_cons, hb, hk, ih hnd.2]

namespace Value

def get (v : Value) (key : String) : Option Value :=
  match v with
  | object fields => fields.lookup key
  | _ => none

def asStr : Value → Option String
  | string s => some s
  | _ => none

def asBool : Value → Option Bool
  | bool b => some b
  | _ => none

def asU64 : Value → Option Nat
  | number (.posInt n) => some n
  | _ => none

def fieldStr (v : Value) (key : String) : Option String :=
  (v.get key).bind asStr

@[simp] theorem get_nil (key : String) : (object []).get key = none := rfl

@[simp] theorem get_cons (k : String) (v : Value) (fields : List (String × Value)) (key : String) :
    (object ((k, v) :: fields)).get key = if key = k then some v else (object fields).get key := by
  by_cases h : key = k
  · simp [get, h]
  · have hb : (key == k) = false := by simpa using h
    simp [get, List.lookup_cons, h, hb]

@[simp] theorem asStr_string (s : String) : (string s).asStr = some s := rfl

@[simp] theorem asU64_posInt (n : Nat) : (number (.posInt n)).asU64 = some n := rfl

def insertSorted (key : String) (v : Value) : List (String × Value) → List (String × Value)
  | [] => [(key, v)]
  | (k, w) :: rest =>
    if key < k then (key, v) :: (k, w) :: rest
    else if key = k then (key, v) :: rest
    else (k, w) :: insertSorted key v rest

theorem insertSorted_of_lt {key k : String} (h : key < k) (v w : Value)
    (rest : List (String × Value)) :
    insertSorted key v ((k, w) :: rest) = (key, v) :: (k, w) :: rest :=
  if_pos h

theorem insertSorted_of_gt {key k : String} (h : k < key) (v w : Value)
    (rest : List (String × Value)) :
    insertSorted key v ((k, w) :: rest) = (k, w) :: insertSorted key v rest := by
  have hlt : ¬ key < k := String.lt_asymm h
  have hne : key ≠ k := fun he => String.lt_irrefl k (he ▸ h)
  rw [insertSorted, if_neg hlt, if_neg hne]

theorem asStr_eq_some {v : Value} {text : String} (h : v.asStr = some text) : v = .string text := by
  cases v with
  | string t => rw [Option.some.inj h]
  | null | bool _ | number _ | array _ | object _ => cases h

theorem asBool_eq_some {v : Value} {b : Bool} (h : v.asBool = some b) : v = .bool b := by
  cases v with
  | bool b' => rw [Option.some.inj h]
  | null | string _ | number _ | array _ | object _ => cases h

/-- Values that survive printing and parsing unchanged by every JSON library:
one object with distinct keys whose members are texts or unsigned 64-bit integers. -/
def IsLeaf : Value → Prop
  | string _ => True
  | number (.posInt n) => n < 2 ^ 64
  | _ => False

def Flat : Value → Prop
  | object fields => (fields.map Prod.fst).Nodup ∧ ∀ f ∈ fields, f.2.IsLeaf
  | _ => False

end Value

end Hugit
