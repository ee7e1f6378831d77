import Hugit.CanonicalJson
import Hugit.JsonLimits
import Hugit.TextRedaction

/-! The scrubbing of a payload before it is stored. How a text is scrubbed is
decided by the key it stands under; keys themselves are never touched. -/

namespace Hugit

/-- What scrubbing asks of other crates: JSON, the measures of a token and
whether a text is a serialized list of policy gates. -/
structure Scrubber where
  crates : Crates
  measures : Measures
  isGateList : String → Bool

inductive ScrubMode where
  | freeText
  | verbatim
  | structural
  | serializedPolicyGates
  deriving DecidableEq

def isDigestKey (key : String) : Bool :=
  ["memo_key", "tree_hash", "commit", "target", "from", "to", "merged_from", "shas", "dock_id",
    "hash"].contains key || "_digest".toList.isSuffixOf key.toList

def isIdentifierKey (key : String) : Bool :=
  ["campaign", "intent_id", "pr_id", "run_id", "id", "commit_ids", "target", "from", "to", "old", "new",
    "merged_from", "local_oid", "remote_oid"].contains key

def splitWhitespace (text : List Char) : List (List Char) :=
  (text.splitOnP isWhitespace).filter (· ≠ [])

def isDigestValue (key : String) (value : String) : Bool :=
  if key = "shas" then value ≠ "" && (splitWhitespace value.toList).all isDigestShaped
  else isDigestShaped value.toList

namespace Scrubber

def scrubMode (s : Scrubber) (key : String) (value : Value) : ScrubMode :=
  if (key = "old" ∨ key = "new") ∧ (value.asStr.any s.isGateList) = true then .serializedPolicyGates
  else if isIdentifierKey key then .structural
  else if isDigestKey key then
    match value with
    | .string text => if isDigestValue key text then .verbatim else .freeText
    | _ => .freeText
  else .freeText

def scrubLeaf (s : Scrubber) (gates : Value → Value) (text : String) : ScrubMode → String
  | .freeText => redactText s.measures text
  | .structural => structuralSecretScrub s.measures text
  | .verbatim => text
  | .serializedPolicyGates =>
    if s.isGateList text then
      match s.crates.fromStr text with
      | some v => s.crates.print (gates v)
      | none => text
    else redactText s.measures text

mutual

def scrubValue (s : Scrubber) (gates : Value → Value) : ScrubMode → Value → Value
  | mode, .string text => .string (s.scrubLeaf gates text mode)
  | mode, .array items => .array (scrubItems s gates mode items)
  | _, .object fields => .object (scrubFields s gates fields)
  | _, v => v

def scrubItems (s : Scrubber) (gates : Value → Value) : ScrubMode → List Value → List Value
  | _, [] => []
  | mode, v :: vs => scrubValue s gates mode v :: scrubItems s gates mode vs

def scrubFields (s : Scrubber) (gates : Value → Value) : List (String × Value) → List (String × Value)
  | [] => []
  | (key, v) :: fields => (key, scrubValue s gates (s.scrubMode key v) v) :: scrubFields s gates fields

end

def scrubNested (s : Scrubber) : Nat → Value → Value
  | 0 => s.scrubValue id .freeText
  | depth + 1 => s.scrubValue (scrubNested s depth) .freeText

end Scrubber

namespace Scrubber

/-- A text inside a serialized list is shorter than the list, so the nesting is
at most the length of the longest text. -/
def scrubPayload (s : Scrubber) (v : Value) : Value :=
  s.scrubNested (longestText v) v

variable (s : Scrubber) (gates : Value → Value)

theorem scrubItems_eq_map (mode : ScrubMode) (items : List Value) :
    s.scrubItems gates mode items = items.map (s.scrubValue gates mode) := by
  induction items with
  | nil => rw [scrubItems, List.map_nil]
  | cons v vs ih => rw [scrubItems, List.map_cons, ih]

def scrubMember (f : String × Value) : String × Value :=
  (f.1, s.scrubValue gates (s.scrubMode f.1 f.2) f.2)

theorem scrubFields_eq_map (fields : List (String × Value)) :
    s.scrubFields gates fields = fields.map (s.scrubMember gates) := by
  induction fields with
  | nil => rw [scrubFields, List.map_nil]
  | cons f fields ih =>
    obtain ⟨key, v⟩ := f
    rw [scrubFields, List.map_cons, ih]
    rfl

theorem scrubFields_keys (fields : List (String × Value)) :
    (s.scrubFields gates fields).map Prod.fst = fields.map Prod.fst := by
  simp [scrubFields_eq_map, scrubMember, Function.comp_def]

theorem scrubValue_printable {depth : Nat} {v : Value} (hv : v.Printable depth) (mode : ScrubMode) :
    (s.scrubValue gates mode v).Printable depth := by
  induction hv generalizing mode with
  | null => simpa [scrubValue] using Value.Printable.null
  | bool b => simpa [scrubValue] using Value.Printable.bool b
  | number hn => simpa [scrubValue] using Value.Printable.number hn
  | string text =>
    rw [scrubValue]
    exact .string _
  | array h ih =>
    rw [scrubValue, scrubItems_eq_map]
    refine .array fun v hv => ?_
    obtain ⟨w, hw, rfl⟩ := List.mem_map.mp hv
    exact ih w hw mode
  | object hnd h ih =>
    rw [scrubValue]
    refine .object (by rwa [scrubFields_keys]) fun f hf => ?_
    rw [scrubFields_eq_map] at hf
    obtain ⟨g, hg, rfl⟩ := List.mem_map.mp hf
    exact ih g hg _

theorem scrubPayload_eq (v : Value) : ∃ gates, s.scrubPayload v = s.scrubValue gates .freeText v := by
  rw [scrubPayload]
  cases longestText v with
  | zero => exact ⟨id, rfl⟩
  | succ depth => exact ⟨s.scrubNested depth, rfl⟩

theorem scrubPayload_printable {depth : Nat} {v : Value} (hv : v.Printable depth) :
    (s.scrubPayload v).Printable depth := by
  obtain ⟨gates, he⟩ := s.scrubPayload_eq v
  rw [he]
  exact s.scrubValue_printable gates hv .freeText

theorem get_scrubValue (mode : ScrubMode) (v : Value) (key : String) :
    (s.scrubValue gates mode v).get key =
      (v.get key).map fun w => s.scrubValue gates (s.scrubMode key w) w := by
  cases v with
  | null | bool | number | string | array => simp [scrubValue, Value.get]
  | object fields =>
    rw [scrubValue, scrubFields_eq_map, Value.get, Value.get]
    induction fields with
    | nil => rfl
    | cons f fields ih =>
      obtain ⟨k, w⟩ := f
      rw [List.map_cons, scrubMember, List.lookup_cons, List.lookup_cons, ih]
      by_cases hk : key = k
      · subst hk
        simp
      · have hb : (key == k) = false := by simpa using hk
        simp [hb]

theorem fieldStr_scrubValue (mode : ScrubMode) (v : Value) {key : String}
    (hk : ∀ text, s.scrubMode key (.string text) = .freeText) :
    (s.scrubValue gates mode v).fieldStr key = (v.fieldStr key).map (redactText s.measures) := by
  rw [Value.fieldStr, get_scrubValue, Value.fieldStr]
  cases v.get key with
  | none => rfl
  | some w => cases w <;> simp [scrubValue, Value.asStr, scrubLeaf, hk]

end Scrubber

end Hugit
