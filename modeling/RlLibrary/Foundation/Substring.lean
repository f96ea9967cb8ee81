import Mathlib.Data.List.Infix

namespace RlLibrary.Foundation

variable {α : Type*} [DecidableEq α]

def cutAt (needle : List α) : List α → Option (List α × List α)
  | [] => if needle = [] then some ([], []) else none
  | x :: xs =>
    if needle.isPrefixOf (x :: xs) then some ([], x :: xs)
    else (cutAt needle xs).map (fun r => (x :: r.1, r.2))

theorem cutAt_isSome {needle hay : List α} : (cutAt needle hay).isSome = true ↔ needle <:+: hay := by
  induction hay with
  | nil =>
    by_cases hn : needle = []
    · simp [cutAt, hn]
    · simp [cutAt, hn]
  | cons x xs ih =>
    by_cases hp : needle.isPrefixOf (x :: xs) = true
    · have hprefix : needle <+: x :: xs := List.isPrefixOf_iff_prefix.mp hp
      simp [cutAt, hp, hprefix.isInfix]
    · have hprefix : ¬ needle <+: x :: xs := fun h => hp (List.isPrefixOf_iff_prefix.mpr h)
      rw [List.infix_cons_iff, ← ih]
      simp [cutAt, hp, hprefix]

theorem cutAt_eq_some {needle hay before rest : List α}
    (h : cutAt needle hay = some (before, rest)) : hay = before ++ rest ∧ needle <+: rest := by
  induction hay generalizing before with
  | nil =>
    simp only [cutAt, Option.ite_none_right_eq_some, Option.some.injEq, Prod.mk.injEq] at h
    obtain ⟨rfl, rfl, rfl⟩ := h
    exact ⟨rfl, List.prefix_rfl⟩
  | cons x xs ih =>
    by_cases hp : needle.isPrefixOf (x :: xs) = true
    · simp only [cutAt, hp, ↓reduceIte, Option.some.injEq, Prod.mk.injEq] at h
      obtain ⟨rfl, rfl⟩ := h
      exact ⟨rfl, List.isPrefixOf_iff_prefix.mp hp⟩
    · simp only [cutAt, hp, Bool.false_eq_true, ↓reduceIte, Option.map_eq_some_iff,
        Prod.mk.injEq] at h
      obtain ⟨⟨front, tail⟩, hr, rfl, rfl⟩ := h
      obtain ⟨rfl, hn⟩ := ih hr
      exact ⟨rfl, hn⟩

theorem exists_cutAt {needle hay : List α} (h : needle <:+: hay) :
    ∃ before rest, cutAt needle hay = some (before, rest) := by
  obtain ⟨⟨before, rest⟩, hr⟩ := Option.isSome_iff_exists.mp (cutAt_isSome.mpr h)
  exact ⟨before, rest, hr⟩

theorem cutAt_eq_none {needle hay : List α} : cutAt needle hay = none ↔ ¬ needle <:+: hay := by
  rw [← cutAt_isSome, Option.not_isSome_iff_eq_none]

theorem cutAt_append {needle hay before rest : List α}
    (h : cutAt needle hay = some (before, rest)) (more : List α) :
    cutAt needle (hay ++ more) = some (before, rest ++ more) := by
  induction hay generalizing before with
  | nil =>
    simp only [cutAt, Option.ite_none_right_eq_some, Option.some.injEq, Prod.mk.injEq] at h
    obtain ⟨rfl, rfl, rfl⟩ := h
    cases more <;> simp [cutAt]
  | cons x xs ih =>
    by_cases hp : needle.isPrefixOf (x :: xs) = true
    · have hlong : needle.isPrefixOf (x :: (xs ++ more)) = true := by
        rw [List.isPrefixOf_iff_prefix] at hp ⊢
        exact hp.trans (List.prefix_append (x :: xs) more)
      simp only [cutAt, hp, ↓reduceIte, Option.some.injEq, Prod.mk.injEq] at h
      obtain ⟨rfl, rfl⟩ := h
      simp [cutAt, hlong]
    · simp only [cutAt, hp, Bool.false_eq_true, ↓reduceIte, Option.map_eq_some_iff,
        Prod.mk.injEq] at h
      obtain ⟨⟨front, tail⟩, hr, rfl, rfl⟩ := h
      -- an occurrence further on is long enough that one at `x` would not reach into `more`
      have hlength : needle.length ≤ (x :: xs).length := by
        obtain ⟨rfl, hn⟩ := cutAt_eq_some hr
        have hle := hn.length_le
        simp only [List.length_cons, List.length_append]
        omega
      have hnot : ¬ needle.isPrefixOf (x :: (xs ++ more)) = true := by
        rw [List.isPrefixOf_iff_prefix] at hp ⊢
        intro hlong
        exact hp (List.prefix_of_prefix_length_le hlong (List.prefix_append (x :: xs) more) hlength)
      simp [cutAt, hnot, ih hr]

theorem cutAt_first {needle hay before rest : List α}
    (h : cutAt needle hay = some (before, rest)) {m : ℕ} (hm : needle <:+: hay.take m) :
    before.length + needle.length ≤ m := by
  obtain ⟨before', rest', hcut⟩ := exists_cutAt hm
  have hwhole := cutAt_append hcut (hay.drop m)
  rw [List.take_append_drop, h] at hwhole
  simp only [Option.some.injEq, Prod.mk.injEq] at hwhole
  obtain ⟨heq, hn⟩ := cutAt_eq_some hcut
  have hlength := congrArg List.length heq
  have hle := hn.length_le
  rw [hwhole.1]
  simp only [List.length_append, List.length_take] at hlength
  omega

theorem cutAt_run {needle front : List α} {c : α} (h : c ∉ front) (back : List α) :
    cutAt (c :: needle) (front ++ c :: (needle ++ back)) = some (front, c :: (needle ++ back)) := by
  induction front with
  | nil =>
    have hp : (c :: needle).isPrefixOf (c :: (needle ++ back)) = true :=
      List.isPrefixOf_iff_prefix.mpr (List.prefix_append (c :: needle) back)
    rw [List.nil_append, cutAt, if_pos hp]
  | cons x front ih =>
    rw [List.mem_cons, not_or] at h
    have hp : ¬ (c :: needle).isPrefixOf (x :: (front ++ c :: (needle ++ back))) = true := by
      rw [List.isPrefixOf_iff_prefix, List.cons_prefix_cons]
      exact fun hp => h.1 hp.1
    rw [List.cons_append, cutAt, if_neg hp, ih h.2]
    rfl

omit [DecidableEq α] in
theorem prefix_split {needle a b : List α} {c : α} (hc : c ∉ needle) (h : needle <+: a ++ c :: b) :
    needle <+: a := by
  rcases List.prefix_or_prefix_of_prefix h (List.prefix_append a (c :: b)) with hp | ⟨rest, rfl⟩
  · exact hp
  · cases rest with
    | nil => rw [List.append_nil]
    | cons d rest =>
      have hd := (List.cons_prefix_cons.mp ((List.prefix_append_right_inj a).mp h)).1
      exact absurd (by simp [hd]) hc

omit [DecidableEq α] in
theorem infix_split {needle a b : List α} {c : α} (hc : c ∉ needle) (h : needle <:+: a ++ c :: b) :
    needle <:+: a ∨ needle <:+: b := by
  induction a with
  | nil =>
    rcases List.infix_cons_iff.mp h with hp | hin
    · exact Or.inl (prefix_split hc (a := []) hp).isInfix
    · exact Or.inr hin
  | cons x a ih =>
    rcases List.infix_cons_iff.mp h with hp | hin
    · exact Or.inl (prefix_split hc hp).isInfix
    · exact (ih hin).imp_left fun ha => ha.trans (List.suffix_cons x a).isInfix

theorem cutAt_start {needle : List α} (hne : needle ≠ []) (back : List α) :
    cutAt needle (needle ++ back) = some ([], needle ++ back) := by
  obtain ⟨x, xs, hxs⟩ := List.exists_cons_of_ne_nil hne
  have hp : needle.isPrefixOf (needle ++ back) = true :=
    List.isPrefixOf_iff_prefix.mpr (List.prefix_append needle back)
  rw [hxs, List.cons_append] at hp ⊢
  rw [cutAt, if_pos hp]

theorem cutAt_behind {needle a : List α} {c : α} (hne : needle ≠ []) (hc : c ∉ needle)
    (ha : ¬ needle <:+: a) (back : List α) :
    cutAt needle (a ++ c :: (needle ++ back)) = some (a ++ [c], needle ++ back) := by
  induction a with
  | nil =>
    have hp : ¬ needle.isPrefixOf (c :: (needle ++ back)) = true := by
      rw [List.isPrefixOf_iff_prefix]
      exact fun hp => hne (List.prefix_nil.mp (prefix_split hc (a := []) hp))
    rw [List.nil_append, cutAt, if_neg hp, cutAt_start hne]
    rfl
  | cons x a ih =>
    have hp : ¬ needle.isPrefixOf (x :: (a ++ c :: (needle ++ back))) = true := by
      rw [List.isPrefixOf_iff_prefix]
      exact fun hp => ha (prefix_split hc (a := x :: a) hp).isInfix
    have hrest := ih fun hin => ha (hin.trans (List.suffix_cons x a).isInfix)
    rw [List.cons_append, cutAt, if_neg hp, hrest]
    rfl

omit [DecidableEq α] in
theorem infix_after {needle a b : List α} {c : α} (hc : c ∉ a) (h : c :: needle <:+: a ++ b) :
    c :: needle <:+: b := by
  induction a with
  | nil => exact h
  | cons x a ih =>
    rw [List.mem_cons, not_or] at hc
    rcases List.infix_cons_iff.mp h with hp | hin
    · exact absurd (List.cons_prefix_cons.mp hp).1 hc.1
    · exact ih hc.2 hin

theorem cutAt_shortest {needle hay before rest front back : List α}
    (h : cutAt needle hay = some (before, rest)) (hs : hay = front ++ needle ++ back) :
    before.length ≤ front.length := by
  have hin : needle <:+: hay.take (front.length + needle.length) := by
    rw [hs, ← List.length_append, List.take_left]
    exact (List.suffix_append front needle).isInfix
  have hfirst := cutAt_first h hin
  omega

structure Leftmost (needle hay front back : List α) : Prop where
  split : hay = front ++ needle ++ back
  shortest : ∀ front' back', hay = front' ++ needle ++ back' → front.length ≤ front'.length

theorem Leftmost.cutAt {needle hay front back : List α} (h : Leftmost needle hay front back) :
    cutAt needle hay = some (front, needle ++ back) := by
  have hin : needle <:+: hay := ⟨front, back, h.split.symm⟩
  obtain ⟨before, rest, hcut⟩ := exists_cutAt hin
  obtain ⟨hhay, tail, rfl⟩ := cutAt_eq_some hcut
  have hsplit : hay = before ++ needle ++ tail := by rw [hhay, List.append_assoc]
  have hle := h.shortest before tail hsplit
  have hge := cutAt_shortest hcut h.split
  have hwhole : before ++ (needle ++ tail) = front ++ (needle ++ back) := by
    rw [← hhay, h.split, List.append_assoc]
  obtain ⟨rfl, hrest⟩ := List.append_inj hwhole (Nat.le_antisymm hge hle)
  rw [hcut, hrest]

end RlLibrary.Foundation
