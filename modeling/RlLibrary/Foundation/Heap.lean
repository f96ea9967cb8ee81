import Mathlib.Data.Nat.Notation
import Mathlib.Logic.Function.Basic

namespace RlLibrary.Foundation

abbrev Addr := ℕ

abbrev Heap := Addr → Option ℕ

namespace Heap

def allocate (h : Heap) (a : Addr) (n : ℕ) : Heap := Function.update h a (some n)

def release (h : Heap) (a : Addr) : Heap := Function.update h a none

def resize (h : Heap) (p q : Addr) (n : ℕ) : Heap := (h.release p).allocate q n

@[simp] theorem allocate_self (h : Heap) (a : Addr) (n : ℕ) : h.allocate a n a = some n := by
  simp [allocate]

@[simp] theorem allocate_other (h : Heap) {a b : Addr} (n : ℕ) (hb : b ≠ a) :
    h.allocate a n b = h b := by simp [allocate, hb]

@[simp] theorem release_self (h : Heap) (a : Addr) : h.release a a = none := by simp [release]

@[simp] theorem release_other (h : Heap) {a b : Addr} (hb : b ≠ a) : h.release a b = h b := by
  simp [release, hb]

theorem release_allocate (h : Heap) {a : Addr} (n : ℕ) (ha : h a = none) :
    (h.allocate a n).release a = h := by
  simp only [allocate, release, Function.update_idem]
  rw [← ha, Function.update_eq_self]

def Movable (h : Heap) (p q : Addr) : Prop := q = p ∨ h q = none

instance (h : Heap) (p q : Addr) : Decidable (h.Movable p q) :=
  inferInstanceAs (Decidable (_ ∨ _))

theorem Movable.free {h : Heap} {p q : Addr} (hm : h.Movable p q) : h.release p q = none := by
  by_cases hq : q = p
  · rw [hq, release_self]
  · rw [release_other h hq]
    exact hm.resolve_left hq

theorem release_resize (h : Heap) {p q : Addr} (n : ℕ) (hm : h.Movable p q) :
    (h.resize p q n).release q = h.release p := release_allocate _ n hm.free

def hide (h : Heap) (hidden : List Addr) : Heap := fun a => if a ∈ hidden then none else h a

theorem hide_nil (h : Heap) : h.hide [] = h := by
  funext a
  simp [hide]

theorem hide_allocate (h : Heap) {hidden : List Addr} {p : Addr} (n : ℕ) (hp : p ∉ hidden) :
    (h.allocate p n).hide hidden = (h.hide hidden).allocate p n := by
  funext a
  by_cases ha : a = p
  · subst ha
    simp [hide, hp]
  · simp [hide, ha]

theorem hide_release (h : Heap) (hidden : List Addr) (p : Addr) :
    (h.release p).hide hidden = (h.hide hidden).release p := by
  funext a
  by_cases ha : a = p
  · subst ha
    simp [hide]
  · simp [hide, ha]

theorem hide_resize (h : Heap) {hidden : List Addr} {p q : Addr} (n : ℕ) (hq : q ∉ hidden) :
    (h.resize p q n).hide hidden = (h.hide hidden).resize p q n := by
  rw [resize, hide_allocate _ n hq, hide_release, resize]

theorem hide_push (h : Heap) (hidden : List Addr) {a : Addr} (n : ℕ) (ha : h a = none) :
    (h.allocate a n).hide (a :: hidden) = h.hide hidden := by
  funext b
  by_cases hb : b = a
  · subst hb
    simp [hide, ha]
  · simp [hide, hb]

theorem hide_cut (h : Heap) (before after : List Addr) (a : Addr) :
    (h.release a).hide (before ++ after) = h.hide (before ++ a :: after) := by
  funext b
  by_cases hb : b = a
  · subst hb
    simp [hide]
  · simp [hide, hb]

end Heap

end RlLibrary.Foundation
