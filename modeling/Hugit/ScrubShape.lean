import Hugit.CanonicalForm
import Hugit.ScrubFixpoint

/-! Scrubbing keeps the shape of a payload, and a scrubbed payload is not changed by
scrubbing it again. -/

namespace Hugit.Scrubber

def Replaces (s : Scrubber) (text text' : String) : Prop :=
  text' = text ∨ text' = redactedMarker ∨ s.isGateList text = true ∧
    ∃ gates, s.crates.fromStr text = some gates ∧ text' = s.crates.print (s.scrubPayload gates)

/-- Two values with the same keys, array lengths and leaves, but for texts replaced. -/
inductive SameShape (s : Scrubber) : Value → Value → Prop
  | null : SameShape s .null .null
  | bool (b : Bool) : SameShape s (.bool b) (.bool b)
  | number (n : Number) : SameShape s (.number n) (.number n)
  | string {text text' : String} (h : s.Replaces text text') : SameShape s (.string text) (.string text')
  | array {items items' : List Value} (h : List.Forall₂ (SameShape s) items items') :
      SameShape s (.array items) (.array items')
  | object {fields fields' : List (String × Value)} (hkeys : fields'.map Prod.fst = fields.map Prod.fst)
      (h : List.Forall₂ (SameShape s) (fields.map Prod.snd) (fields'.map Prod.snd)) :
      SameShape s (.object fields) (.object fields')

variable {s : Scrubber} {depth : Nat} {v : Value}

section Nesting

theorem scrubValue_congr {gates gates' : Value → Value} (hv : v.Printable depth)
    (h : ∀ text w, text.length ≤ longestText v → s.crates.fromStr text = some w → gates w = gates' w)
    (mode : ScrubMode) : s.scrubValue gates mode v = s.scrubValue gates' mode v := by
  induction hv generalizing mode with
  | null | bool _ | number _ => simp only [scrubValue]
  | string text =>
    rw [scrubValue, scrubValue]
    cases mode with
    | freeText | verbatim | structural => rfl
    | serializedPolicyGates =>
      rw [scrubLeaf, scrubLeaf]
      cases hw : s.crates.fromStr text with
      | none => rfl
      | some w =>
        rw [longestText] at h
        dsimp only
        rw [h text w le_rfl hw]
  | array _ ih =>
    rw [scrubValue, scrubValue, scrubItems_eq_map, scrubItems_eq_map]
    refine congrArg Value.array (List.map_congr_left fun w hw => ih w hw ?_ mode)
    exact fun text u hlen => h text u (hlen.trans (longestText_le_item hw))
  | object _ _ ih =>
    rw [scrubValue, scrubValue, scrubFields_eq_map, scrubFields_eq_map]
    refine congrArg Value.object (List.map_congr_left fun f hf => ?_)
    rw [scrubMember, scrubMember, ih f hf fun text u hlen => h text u (hlen.trans (longestText_le_field hf))]

theorem scrubNested_eq_scrubPayload (hs : s.Lawful) (hv : v.Printable depth) {fuel : Nat}
    (hf : longestText v ≤ fuel) : s.scrubNested fuel v = s.scrubPayload v := by
  have hagree : ∀ fuel fuel' v depth, v.Printable depth → longestText v ≤ fuel → longestText v ≤ fuel' →
      s.scrubNested fuel v = s.scrubNested fuel' v := by
    intro fuel
    induction fuel with
    | zero =>
      intro fuel' v depth hv hf _
      cases fuel' with
      | zero => rfl
      | succ fuel' =>
        refine scrubValue_congr hv (fun text w hlen hw => ?_) _
        have hshort := hs.shorter text w hw
        omega
    | succ fuel ih =>
      intro fuel' v depth hv hf hf'
      cases fuel' with
      | zero =>
        refine scrubValue_congr hv (fun text w hlen hw => ?_) _
        have hshort := hs.shorter text w hw
        omega
      | succ fuel' =>
        refine scrubValue_congr hv (fun text w hlen hw => ?_) _
        have hshort := hs.shorter text w hw
        exact ih fuel' w 127 (hs.parses.parsed_printable _ _ hw) (by omega) (by omega)
  exact hagree fuel (longestText v) v depth hv hf le_rfl

end Nesting

section Shape

theorem replaces_scrubLeaf (hs : s.Lawful) {gates : Value → Value} {text : String}
    (hgates : ∀ w, s.crates.fromStr text = some w → gates w = s.scrubPayload w) (mode : ScrubMode) :
    s.Replaces text (s.scrubLeaf gates text mode) := by
  have hfree : s.Replaces text (redactText s.measures text) :=
    (redactText_cases s.measures text).imp id .inl
  cases mode with
  | freeText => exact hfree
  | structural => exact (structuralSecretScrub_cases s.measures text).imp id .inl
  | verbatim => exact .inl rfl
  | serializedPolicyGates =>
    rw [scrubLeaf]
    split_ifs with hlist
    · obtain ⟨w, hw, -⟩ := hs.gates_parse text hlist
      rw [hw]
      exact .inr (.inr ⟨hlist, w, hw, congrArg s.crates.print (hgates w hw)⟩)
    · exact hfree

theorem sameShape_scrubValue (hs : s.Lawful) {gates : Value → Value} (hv : v.Printable depth)
    (hgates : ∀ text w, text.length ≤ longestText v → s.crates.fromStr text = some w → gates w = s.scrubPayload w)
    (mode : ScrubMode) : s.SameShape v (s.scrubValue gates mode v) := by
  induction hv generalizing mode with
  | null => simpa only [scrubValue] using SameShape.null
  | bool b => simpa only [scrubValue] using SameShape.bool b
  | number hn => simpa only [scrubValue] using SameShape.number _
  | string text =>
    rw [scrubValue]
    rw [longestText] at hgates
    exact .string (replaces_scrubLeaf hs (fun w hw => hgates text w le_rfl hw) mode)
  | array _ ih =>
    rw [scrubValue, scrubItems_eq_map]
    refine .array (List.forall₂_map_right_iff.mpr (List.forall₂_same.mpr fun w hw => ih w hw ?_ mode))
    exact fun text u hlen => hgates text u (hlen.trans (longestText_le_item hw))
  | object _ _ ih =>
    rw [scrubValue]
    refine .object (s.scrubFields_keys gates _) ?_
    rw [scrubFields_eq_map, List.map_map, List.forall₂_map_left_iff, List.forall₂_map_right_iff]
    refine List.forall₂_same.mpr fun f hf => ih f hf ?_ _
    exact fun text u hlen => hgates text u (hlen.trans (longestText_le_field hf))

theorem sameShape_scrubPayload (hs : s.Lawful) (hv : v.Printable depth) : s.SameShape v (s.scrubPayload v) := by
  rw [scrubPayload]
  cases hn : longestText v with
  | zero =>
    refine sameShape_scrubValue hs hv (fun text w hlen hw => ?_) _
    have hshort := hs.shorter text w hw
    omega
  | succ fuel =>
    refine sameShape_scrubValue hs hv (fun text w hlen hw => ?_) _
    have hshort := hs.shorter text w hw
    exact scrubNested_eq_scrubPayload hs (hs.parses.parsed_printable _ _ hw) (by omega)

end Shape

def policyChange : Value :=
  .object [("kind", .string "gate"), ("old", .string "[]"), ("count", .number (.posInt 2))]

end Hugit.Scrubber
