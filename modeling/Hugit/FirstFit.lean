import Mathlib.Data.List.Induction
import Mathlib.Data.List.Perm.Basic

/-! First-fit placement: each item joins the first lane whose items all fit it,
or opens a lane behind them. -/

namespace Hugit

variable {α : Type} (fits : α → α → Bool)

def placeFirst (x : α) : List (List α) → List (List α)
  | [] => [[x]]
  | lane :: lanes =>
    if lane.all (fits · x) then (lane ++ [x]) :: lanes else lane :: placeFirst x lanes

def firstFit (xs : List α) : List (List α) :=
  xs.foldl (fun lanes x => placeFirst fits x lanes) []

theorem firstFit_concat (xs : List α) (x : α) :
    firstFit fits (xs ++ [x]) = placeFirst fits x (firstFit fits xs) := by
  rw [firstFit, List.foldl_append]
  rfl

/-- The lanes before the one that takes the item each hold something it does not
fit. A new lane is taken for an empty one. -/
theorem placeFirst_split (x : α) (lanes : List (List α)) :
    ∃ before lane after, placeFirst fits x lanes = before ++ (lane ++ [x]) :: after ∧
      (lanes = before ++ lane :: after ∨ lanes = before ∧ lane = [] ∧ after = []) ∧
      (∀ y ∈ lane, fits y x = true) ∧ ∀ l ∈ before, ∃ y ∈ l, fits y x = false := by
  induction lanes with
  | nil => exact ⟨[], [], [], rfl, .inr ⟨rfl, rfl, rfl⟩, by simp, by simp⟩
  | cons lane lanes ih =>
    by_cases hfit : lane.all (fits · x) = true
    · refine ⟨[], lane, lanes, by simp [placeFirst, hfit], .inl rfl, ?_, by simp⟩
      exact List.all_eq_true.mp hfit
    · obtain ⟨before, l, after, hplace, hsplit, hl, hbefore⟩ := ih
      refine ⟨lane :: before, l, after, by simp [placeFirst, hfit, hplace], ?_, hl, ?_⟩
      · rcases hsplit with rfl | ⟨rfl, rfl, rfl⟩
        · exact .inl rfl
        · exact .inr ⟨rfl, rfl, rfl⟩
      · have hno : ∃ y ∈ lane, fits y x = false := by simpa using hfit
        exact List.forall_mem_cons.mpr ⟨hno, hbefore⟩

/-- Each item of the second lane came after one of the first that it does not fit. -/
def Blocks (xs lane behind : List α) : Prop :=
  ∀ x ∈ behind, ∃ y ∈ lane, [y, x].Sublist xs ∧ fits y x = false

/-- The lanes hold each item once, in its order, with items that fit each other,
and each lane blocks those behind it. -/
structure Fitted (xs : List α) (lanes : List (List α)) : Prop where
  perm : lanes.flatten.Perm xs
  nonempty : [] ∉ lanes
  sublist : ∀ lane ∈ lanes, lane.Sublist xs
  fitted : ∀ lane ∈ lanes, lane.Pairwise fun y x => fits y x = true
  blocked : lanes.Pairwise (Blocks fits xs)

variable {fits}

theorem Blocks.append {xs lane behind : List α} (h : Blocks fits xs lane behind) (ys : List α) :
    Blocks fits (xs ++ ys) lane behind := by
  intro x hx
  obtain ⟨y, hy, hsub, hno⟩ := h x hx
  exact ⟨y, hy, hsub.trans (List.sublist_append_left _ _), hno⟩

theorem Fitted.place {xs : List α} {lanes : List (List α)} (h : Fitted fits xs lanes) (x : α) :
    Fitted fits (xs ++ [x]) (placeFirst fits x lanes) := by
  obtain ⟨before, lane, after, hplace, hsplit, hlane, hbefore⟩ := placeFirst_split fits x lanes
  have hold : ∀ l ∈ before ++ after, l ∈ lanes := by
    rcases hsplit with rfl | ⟨rfl, rfl, rfl⟩ <;> simp +contextual [or_imp]
  have hin : lane = [] ∨ lane ∈ lanes := by
    rcases hsplit with rfl | ⟨rfl, rfl, rfl⟩ <;> simp
  have hmem : ∀ l ∈ before ++ (lane ++ [x]) :: after, l ∈ lanes ∨ l = lane ++ [x] := by
    intro l hl
    rcases List.mem_append.mp hl with hl | hl
    · exact .inl (hold l (List.mem_append_left _ hl))
    · rcases List.mem_cons.mp hl with rfl | hl
      · exact .inr rfl
      · exact .inl (hold l (List.mem_append_right _ hl))
  have hsub : lane.Sublist xs := by
    rcases hin with rfl | hin
    · exact List.nil_sublist _
    · exact h.sublist lane hin
  rw [hplace]
  refine ⟨?_, ?_, ?_, ?_, ?_⟩
  · have hflat : (before ++ (lane ++ [x]) :: after).flatten.Perm (lanes.flatten ++ [x]) := by
      rcases hsplit with rfl | ⟨rfl, rfl, rfl⟩
      · simp only [List.flatten_append, List.flatten_cons, List.append_assoc]
        exact (List.perm_append_comm.append_left lane).append_left before.flatten
      · simp
    exact hflat.trans (h.perm.append_right [x])
  · intro hnil
    rcases hmem [] hnil with hl | hl
    · exact h.nonempty hl
    · simp at hl
  · intro l hl
    rcases hmem l hl with hl | rfl
    · exact (h.sublist l hl).trans (List.sublist_append_left _ _)
    · exact hsub.append (List.Sublist.refl _)
  · intro l hl
    rcases hmem l hl with hl | rfl
    · exact h.fitted l hl
    · refine List.pairwise_append.mpr ⟨?_, by simp, by simpa using hlane⟩
      rcases hin with rfl | hin
      · exact List.Pairwise.nil
      · exact h.fitted lane hin
  · -- the item goes behind lanes that block it; what it joins blocks the same lanes as before
    have hpairs : (before ++ lane :: after).Pairwise (Blocks fits (xs ++ [x])) := by
      have hh := h.blocked.imp fun hb => hb.append [x]
      rcases hsplit with rfl | ⟨rfl, rfl, rfl⟩
      · exact hh
      · exact List.pairwise_append.mpr ⟨hh, by simp, by simp [Blocks]⟩
    obtain ⟨hpre, hpost, hcross⟩ := List.pairwise_append.mp hpairs
    obtain ⟨hafter, hrest⟩ := List.pairwise_cons.mp hpost
    refine List.pairwise_append.mpr ⟨hpre, List.pairwise_cons.mpr ⟨?_, hrest⟩, ?_⟩
    · intro l hl y hy
      obtain ⟨z, hz, hfacts⟩ := hafter l hl y hy
      exact ⟨z, List.mem_append_left _ hz, hfacts⟩
    · intro l hl target ht
      rcases List.mem_cons.mp ht with rfl | ht
      · intro y hy
        rcases List.mem_append.mp hy with hy | hy
        · exact hcross l hl lane List.mem_cons_self y hy
        · obtain rfl : y = x := by simpa using hy
          obtain ⟨z, hz, hno⟩ := hbefore l hl
          have hzs : z ∈ xs := (h.sublist l (hold l (List.mem_append_left _ hl))).subset hz
          exact ⟨z, hz, (List.singleton_sublist.mpr hzs).append (List.Sublist.refl [y]), hno⟩
      · exact hcross l hl target (List.mem_cons_of_mem _ ht)

variable (fits)

theorem firstFit_fitted (xs : List α) : Fitted fits xs (firstFit fits xs) := by
  induction xs using List.reverseRecOn with
  | nil => exact ⟨List.Perm.refl _, by simp [firstFit], by simp [firstFit], by simp [firstFit], List.Pairwise.nil⟩
  | append_singleton xs x ih =>
    rw [firstFit_concat]
    exact ih.place x

end Hugit
