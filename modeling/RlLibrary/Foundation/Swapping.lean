import Mathlib.Logic.Function.Basic
import RlLibrary.Foundation.Machine

/-!
A cell in which each of several parties puts the value `v` for a while, and afterwards what it has
found there. When their times overlap, the value from the beginning can get lost.
-/

namespace RlLibrary.Foundation

/-- The content of the cell, and what those have found who are to put it back. -/
structure SharedCell (θ α : Type*) where
  value : α
  found : θ → Option α

inductive Swap (θ : Type*) where
  | swapIn (i : θ)
  | putBack (i : θ)

def swapping {θ α : Type*} [DecidableEq θ] (v : α) : Machine (SharedCell θ α) (Swap θ) where
  enabled s e := match e with
    | .swapIn i => s.found i = none
    | .putBack i => s.found i ≠ none
  next s e := match e with
    | .swapIn i => ⟨v, Function.update s.found i (some s.value)⟩
    | .putBack i => ⟨(s.found i).getD s.value, Function.update s.found i none⟩

namespace SharedCell

variable {θ α : Type*} {v a : α} {s : SharedCell θ α}

structure Among (v a : α) (s : SharedCell θ α) : Prop where
  value : s.value = a ∨ s.value = v
  found : ∀ i x, s.found i = some x → x = a ∨ x = v

structure Sound (v a : α) (s : SharedCell θ α) : Prop extends Among v a s where
  single : ∀ i, s.found i = some a → s.value = v ∧ ∀ j, s.found j = some a → j = i

def Kept (a : α) (s : SharedCell θ α) : Prop := s.value = a ∨ ∃ i, s.found i = some a

def Overwrites (v a : α) (s : SharedCell θ α) : Swap θ → Prop
  | .swapIn _ => False
  | .putBack i => s.value = a ∧ s.found i = some v

theorem sound_start (v : α) {s : SharedCell θ α} (hout : ∀ i, s.found i = none) : s.Sound v s.value :=
  ⟨⟨Or.inl rfl, fun i x hx => by simp [hout i] at hx⟩, fun i hi => by simp [hout i] at hi⟩

theorem kept_out (hout : ∀ i, s.found i = none) : s.Kept a ↔ s.value = a := by
  refine or_iff_left ?_
  rintro ⟨i, hi⟩
  rw [hout i] at hi
  cases hi

def Alone (v a : α) (s : SharedCell θ α) : Prop :=
  (s.value = a ∧ ∀ i, s.found i = none) ∨
    ∃ i, s.value = v ∧ s.found i = some a ∧ ∀ j, j ≠ i → s.found j = none

theorem alone_kept (h : s.Alone v a) : s.Kept a := by
  rcases h with ⟨hv, _⟩ | ⟨i, _, hi, _⟩
  · exact Or.inl hv
  · exact Or.inr ⟨i, hi⟩

variable [DecidableEq θ] {e : Swap θ}

theorem among_next (h : s.Among v a) (he : (swapping v).enabled s e) :
    ((swapping v).next s e).Among v a := by
  cases e with
  | swapIn i =>
    refine ⟨Or.inr rfl, fun j x hx => ?_⟩
    by_cases hji : j = i
    · subst hji
      simp only [swapping, Function.update_self, Option.some.injEq] at hx
      exact hx ▸ h.value
    · simp only [swapping, Function.update_of_ne hji] at hx
      exact h.found j x hx
  | putBack i =>
    obtain ⟨x, hx⟩ := Option.ne_none_iff_exists'.mp he
    refine ⟨?_, fun j y hy => ?_⟩
    · simp only [swapping, hx, Option.getD_some]
      exact h.found i x hx
    · by_cases hji : j = i
      · simp [swapping, hji] at hy
      · simp only [swapping, Function.update_of_ne hji] at hy
        exact h.found j y hy

theorem sound_next (hne : a ≠ v) (h : s.Sound v a) (he : (swapping v).enabled s e) :
    ((swapping v).next s e).Sound v a := by
  refine ⟨among_next h.toAmong he, ?_⟩
  cases e with
  | swapIn i =>
    refine fun j hj => ⟨rfl, fun k hk => ?_⟩
    by_cases hji : j = i
    · -- who has found it now leaves it with no other
      subst hji
      simp only [swapping, Function.update_self, Option.some.injEq] at hj
      by_contra hkj
      simp only [swapping, Function.update_of_ne hkj] at hk
      exact hne (hj.symm.trans (h.single k hk).1)
    · simp only [swapping, Function.update_of_ne hji] at hj
      by_cases hki : k = i
      · subst hki
        simp only [swapping, Function.update_self, Option.some.injEq] at hk
        exact absurd (hk.symm.trans (h.single j hj).1) hne
      · simp only [swapping, Function.update_of_ne hki] at hk
        exact (h.single j hj).2 k hk
  | putBack i =>
    obtain ⟨x, hx⟩ := Option.ne_none_iff_exists'.mp he
    have hvalue : ((swapping v).next s (.putBack i)).value = x := by simp [swapping, hx]
    refine fun j hj => ?_
    by_cases hji : j = i
    · simp [swapping, hji] at hj
    simp only [swapping, Function.update_of_ne hji] at hj
    refine ⟨?_, fun k hk => ?_⟩
    · rw [hvalue]
      refine (h.found i x hx).resolve_left fun hxa => ?_
      exact hji ((h.single j hj).2 i (hxa ▸ hx)).symm
    · by_cases hki : k = i
      · simp [swapping, hki] at hk
      · simp only [swapping, Function.update_of_ne hki] at hk
        exact (h.single j hj).2 k hk

theorem kept_next (hne : a ≠ v) (h : s.Sound v a) (he : (swapping v).enabled s e) :
    ((swapping v).next s e).Kept a ↔ s.Kept a ∧ ¬ s.Overwrites v a e := by
  cases e with
  | swapIn i =>
    have hfree : s.found i = none := he
    refine ⟨fun hkept => ⟨?_, id⟩, fun hkept => ?_⟩
    · rcases hkept with hv | ⟨j, hj⟩
      · exact absurd hv.symm hne
      · by_cases hji : j = i
        · subst hji
          simp only [swapping, Function.update_self, Option.some.injEq] at hj
          exact Or.inl hj
        · simp only [swapping, Function.update_of_ne hji] at hj
          exact Or.inr ⟨j, hj⟩
    · rcases hkept.1 with hv | ⟨j, hj⟩
      · exact Or.inr ⟨i, by simp [swapping, hv]⟩
      · have hji : j ≠ i := by
          rintro rfl
          rw [hfree] at hj
          cases hj
        exact Or.inr ⟨j, by simp only [swapping, Function.update_of_ne hji, hj]⟩
  | putBack i =>
    obtain ⟨x, hx⟩ := Option.ne_none_iff_exists'.mp he
    have hvalue : ((swapping v).next s (.putBack i)).value = x := by simp [swapping, hx]
    constructor
    · intro hkept
      rcases hkept with hxa | ⟨j, hj⟩
      · rw [hvalue] at hxa
        subst hxa
        refine ⟨Or.inr ⟨i, hx⟩, fun hover => ?_⟩
        exact hne (Option.some.inj (hx.symm.trans hover.2))
      · by_cases hji : j = i
        · simp [swapping, hji] at hj
        · simp only [swapping, Function.update_of_ne hji] at hj
          exact ⟨Or.inr ⟨j, hj⟩, fun hover => hne (hover.1.symm.trans (h.single j hj).1)⟩
    · rintro ⟨hkept, hover⟩
      rcases h.found i x hx with rfl | rfl
      · exact Or.inl hvalue
      · rcases hkept with hv | ⟨j, hj⟩
        · exact absurd ⟨hv, hx⟩ hover
        · have hji : j ≠ i := by
            rintro rfl
            rw [hx, Option.some.injEq] at hj
            exact hne hj.symm
          exact Or.inr ⟨j, by simp only [swapping, Function.update_of_ne hji, hj]⟩

theorem alone_next (h : s.Alone v a) (he : (swapping v).enabled s e)
    (hone : ∀ i j, ((swapping v).next s e).found i ≠ none → ((swapping v).next s e).found j ≠ none → i = j) :
    ((swapping v).next s e).Alone v a := by
  cases e with
  | swapIn i =>
    have hfree : s.found i = none := he
    rcases h with ⟨hv, hout⟩ | ⟨j, _, hj, _⟩
    · refine Or.inr ⟨i, rfl, by simp [swapping, hv], fun j hji => ?_⟩
      simp only [swapping, Function.update_of_ne hji, hout]
    · have hji : j ≠ i := by
        rintro rfl
        rw [hfree] at hj
        cases hj
      exact absurd (hone j i (by simp [swapping, Function.update_of_ne hji, hj]) (by simp [swapping])) hji
  | putBack i =>
    rcases h with ⟨_, hout⟩ | ⟨j, _, hj, hothers⟩
    · exact absurd (hout i) he
    · obtain rfl : i = j := by
        by_contra hij
        exact he (hothers i hij)
      refine Or.inl ⟨by simp [swapping, hj], fun k => ?_⟩
      by_cases hki : k = i
      · simp [swapping, hki]
      · simp only [swapping, Function.update_of_ne hki, hothers k hki]

def crossing (i j : θ) : List (Swap θ) := [.swapIn i, .swapIn j, .putBack i, .putBack j]

theorem exec_crossing (hout : ∀ k, s.found k = none) {i j : θ} (hij : i ≠ j) :
    ((swapping v).exec s (crossing i j)).value = v ∧
      ∀ k, ((swapping v).exec s (crossing i j)).found k = none := by
  refine ⟨by simp [crossing, swapping, Function.update_of_ne hij.symm], fun k => ?_⟩
  simp only [crossing, swapping, Machine.exec_cons, Machine.exec_nil]
  by_cases hkj : k = j
  · rw [hkj, Function.update_self]
  · rw [Function.update_of_ne hkj]
    by_cases hki : k = i
    · rw [hki, Function.update_self]
    · rw [Function.update_of_ne hki, Function.update_of_ne hkj, Function.update_of_ne hki, hout k]

theorem crossing_loses (hout : ∀ k, s.found k = none) {i j : θ} (hij : i ≠ j) {later : List (Swap θ)}
    (hv : (swapping v).Valid s (crossing i j ++ later)) :
    ((swapping v).exec s (crossing i j ++ later)).value = v := by
  have hsound := sound_start v hout
  obtain ⟨hcross, hlater⟩ := (Machine.valid_append _ _ _ _).mp hv
  by_cases hne : s.value = v
  · have hamong := Machine.exec_invariant (fun _ _ h he => among_next h he) hsound.toAmong hv
    rcases hamong.value with hvalue | hvalue
    · exact hvalue.trans hne
    · exact hvalue
  · obtain ⟨hlost, hnone⟩ := exec_crossing (v := v) hout hij
    have hstart : ((swapping v).exec s (crossing i j)).Sound v s.value ∧
        ¬ ((swapping v).exec s (crossing i j)).Kept s.value := by
      refine ⟨Machine.exec_invariant (fun _ _ h he => sound_next hne h he) hsound hcross, ?_⟩
      rw [kept_out hnone, hlost]
      exact fun h => hne h.symm
    have hend := Machine.exec_invariant (P := fun t => t.Sound v s.value ∧ ¬ t.Kept s.value)
      (fun _ _ h he => ⟨sound_next hne h.1 he, fun hkept => h.2 ((kept_next hne h.1 he).mp hkept).1⟩)
      hstart hlater
    rw [Machine.exec_append]
    exact hend.1.value.resolve_left fun hvalue => hend.2 (Or.inl hvalue)

end SharedCell

end RlLibrary.Foundation
