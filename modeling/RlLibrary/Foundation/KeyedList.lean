import Mathlib.Data.List.Nodup
import Mathlib.Data.List.Count

namespace RlLibrary.Foundation

variable {α κ : Type*} [DecidableEq κ]

def locate (key : α → κ) (k : κ) : List α → Option (List α × α × List α)
  | [] => none
  | x :: xs => if key x = k then some ([], x, xs)
      else (locate key k xs).map (fun r => (x :: r.1, r.2.1, r.2.2))

theorem locate_eq_some {key : α → κ} {k : κ} {xs before after : List α} {x : α}
    (h : locate key k xs = some (before, x, after)) :
    xs = before ++ x :: after ∧ key x = k ∧ k ∉ before.map key := by
  induction xs generalizing before with
  | nil => simp [locate] at h
  | cons y ys ih =>
    by_cases hy : key y = k
    · simp only [locate, hy, ↓reduceIte, Option.some.injEq, Prod.mk.injEq] at h
      obtain ⟨rfl, rfl, rfl⟩ := h
      exact ⟨rfl, hy, List.not_mem_nil⟩
    · simp only [locate, hy, ↓reduceIte, Option.map_eq_some_iff, Prod.mk.injEq] at h
      obtain ⟨⟨front, z, rest⟩, hr, rfl, rfl, rfl⟩ := h
      obtain ⟨rfl, hk, hn⟩ := ih hr
      refine ⟨rfl, hk, ?_⟩
      simp only [List.map_cons, List.mem_cons, not_or]
      exact ⟨fun he => hy he.symm, hn⟩

theorem locate_split {key : α → κ} {before : List α} {x : α} (h : key x ∉ before.map key)
    (after : List α) : locate key (key x) (before ++ x :: after) = some (before, x, after) := by
  induction before with
  | nil => simp [locate]
  | cons y ys ih =>
    simp only [List.map_cons, List.mem_cons, not_or] at h
    simp [locate, Ne.symm h.1, ih h.2]

theorem locate_isSome {key : α → κ} {k : κ} {xs : List α} (h : k ∈ xs.map key) :
    ∃ before x after, locate key k xs = some (before, x, after) := by
  induction xs with
  | nil => simp at h
  | cons y ys ih =>
    by_cases hy : key y = k
    · exact ⟨[], y, ys, by simp [locate, hy]⟩
    · have hk : k ∈ ys.map key := by
        simp only [List.map_cons, List.mem_cons] at h
        exact h.resolve_left (fun he => hy he.symm)
      obtain ⟨before, x, after, hr⟩ := ih hk
      exact ⟨y :: before, x, after, by simp [locate, hy, hr]⟩

theorem locate_eq_none {key : α → κ} {k : κ} {xs : List α} :
    locate key k xs = none ↔ k ∉ xs.map key := by
  constructor
  · intro h hk
    obtain ⟨before, x, after, hr⟩ := locate_isSome hk
    rw [hr] at h
    cases h
  · intro h
    cases hr : locate key k xs with
    | none => rfl
    | some r =>
      obtain ⟨rfl, hk, _⟩ := locate_eq_some hr
      exact absurd (by simp [hk]) h

theorem locate_filter {key : α → κ} {k : κ} {xs before after : List α} {x : α}
    (hd : (xs.map key).Nodup) (h : locate key k xs = some (before, x, after)) :
    before ++ after = xs.filter (fun y => key y ≠ k) := by
  obtain ⟨rfl, hk, hn⟩ := locate_eq_some h
  have hafter : k ∉ after.map key := by
    simp only [List.map_append, List.map_cons, List.nodup_append, List.nodup_cons] at hd
    exact hk ▸ hd.2.1.1
  have keep (ys : List α) (hy : k ∉ ys.map key) : ys.filter (fun y => key y ≠ k) = ys := by
    apply List.filter_eq_self.mpr
    intro y hm
    simp only [decide_eq_true_eq]
    rintro rfl
    exact hy (List.mem_map_of_mem hm)
  have hx : decide (key x ≠ k) = false := by simp [hk]
  rw [List.filter_append, List.filter_cons, hx, keep before hn, keep after hafter]
  rfl

theorem locate_mem {key : α → κ} {k : κ} {xs before after : List α} {x : α}
    (h : locate key k xs = some (before, x, after)) : x ∈ xs := by
  rw [(locate_eq_some h).1]
  simp

theorem mem_cut {key : α → κ} {k : κ} {xs before after : List α} {x y : α}
    (h : locate key k xs = some (before, x, after)) (hy : y ∈ xs) (hne : y ≠ x) :
    y ∈ before ++ after := by
  rw [(locate_eq_some h).1] at hy
  simp only [List.mem_append, List.mem_cons] at hy ⊢
  rcases hy with hy | rfl | hy
  · exact Or.inl hy
  · exact absurd rfl hne
  · exact Or.inr hy

theorem count_cut {key : α → κ} {k : κ} {xs before after : List α} {x : α}
    (h : locate key k xs = some (before, x, after)) (j : κ) :
    (xs.map key).count j = ((before ++ after).map key).count j + if j = k then 1 else 0 := by
  obtain ⟨rfl, rfl, _⟩ := locate_eq_some h
  simp only [List.map_append, List.map_cons, List.count_append, List.count_cons, beq_iff_eq]
  by_cases hj : j = key x
  · simp [hj, Nat.add_assoc]
  · simp [hj, Ne.symm hj]

theorem count_replace {key : α → κ} {k : κ} {xs before after : List α} {x y : α}
    (h : locate key k xs = some (before, x, after)) (j : κ) :
    ((before ++ y :: after).map key).count j + (if j = k then 1 else 0) =
      (xs.map key).count j + if j = key y then 1 else 0 := by
  rw [count_cut h j]
  simp only [List.map_append, List.map_cons, List.count_append, List.count_cons, beq_iff_eq]
  by_cases hj : j = key y
  · simp [hj]; omega
  · simp [hj, Ne.symm hj]

end RlLibrary.Foundation
