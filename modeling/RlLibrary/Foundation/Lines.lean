import Mathlib.Data.List.Basic

namespace RlLibrary.Foundation

variable {α : Type*} {a b x y : List α} {c : α}

theorem cut_first (ha : c ∉ a) (hb : c ∉ b) (h : a ++ c :: x = b ++ c :: y) : a = b ∧ x = y := by
  induction a generalizing b with
  | nil =>
    cases b with
    | nil => exact ⟨rfl, List.tail_eq_of_cons_eq h⟩
    | cons d b =>
      rw [List.nil_append, List.cons_append] at h
      exact absurd (List.head_eq_of_cons_eq h ▸ List.mem_cons_self) hb
  | cons d a ih =>
    rw [List.mem_cons, not_or] at ha
    cases b with
    | nil =>
      rw [List.nil_append, List.cons_append] at h
      exact absurd (List.head_eq_of_cons_eq h).symm ha.1
    | cons e b =>
      rw [List.mem_cons, not_or] at hb
      rw [List.cons_append, List.cons_append, List.cons_eq_cons] at h
      obtain ⟨rfl, h⟩ := h
      obtain ⟨rfl, hrest⟩ := ih ha.2 hb.2 h
      exact ⟨rfl, hrest⟩

theorem cut_last (hx : c ∉ x) (hy : c ∉ y) (h : a ++ c :: x = b ++ c :: y) : a = b ∧ x = y := by
  have hreverse := congrArg List.reverse h
  simp only [List.reverse_append, List.reverse_cons, List.append_assoc, List.singleton_append] at hreverse
  obtain ⟨hback, hfront⟩ := cut_first (by simpa using hx) (by simpa using hy) hreverse
  exact ⟨List.reverse_injective hfront, List.reverse_injective hback⟩

def IsLine (stop : α) (line : List α) : Prop := ∃ body, stop ∉ body ∧ line = body ++ [stop]

theorem lines_injective {ls ms : List (List α)} (hls : ∀ l ∈ ls, IsLine c l) (hms : ∀ l ∈ ms, IsLine c l)
    (h : ls.flatten = ms.flatten) : ls = ms := by
  induction ls generalizing ms with
  | nil =>
    cases ms with
    | nil => rfl
    | cons m ms =>
      obtain ⟨body, _, rfl⟩ := hms m List.mem_cons_self
      simp at h
  | cons l ls ih =>
    obtain ⟨body, hbody, rfl⟩ := hls l List.mem_cons_self
    cases ms with
    | nil => simp at h
    | cons m ms =>
      obtain ⟨body', hbody', rfl⟩ := hms m List.mem_cons_self
      simp only [List.flatten_cons, List.append_assoc, List.singleton_append] at h
      obtain ⟨rfl, hrest⟩ := cut_first hbody hbody' h
      rw [ih (fun l hl => hls l (List.mem_cons_of_mem _ hl)) (fun m hm => hms m (List.mem_cons_of_mem _ hm))
        hrest]

end RlLibrary.Foundation
