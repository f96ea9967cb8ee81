import Mathlib.Data.List.Basic
import RlLibrary.Foundation.LinkedList

namespace RlLibrary.Foundation

structure Chain (α : Type*) where
  header : Option Addr
  cells : Cells α

inductive Place where
  | header
  | next (a : Addr)

variable {α : Type*} {addr : α → Addr}

namespace Linked

variable {cells : Cells α} {header v : Option Addr} {xs ys zs : List α} {x x' : α}

theorem split (h : Linked addr cells header (xs ++ x :: ys)) :
    ∃ next, cells (addr x) = some ⟨x, next⟩ ∧ Linked addr cells next ys := by
  induction xs generalizing header with
  | nil =>
    cases h with
    | cons hcell hitems => exact ⟨_, hcell, hitems⟩
  | cons y xs ih =>
    cases h with
    | cons hcell hitems => exact ih hitems

theorem relink (h : Linked addr cells header (xs ++ x :: ys)) (hx : addr x' = addr x)
    (hv : Linked addr cells v zs) (hzs : addr x ∉ zs.map addr) :
    Linked addr (Function.update cells (addr x) (some ⟨x', v⟩)) header (xs ++ x' :: zs) := by
  induction xs generalizing header with
  | nil =>
    cases h with
    | cons hcell hitems =>
      rw [← hx] at hzs ⊢
      exact .cons (Function.update_self ..) (hv.update hzs _)
  | cons y xs ih =>
    have hnodup := h.nodup
    cases h with
    | cons hcell hitems =>
      have hne : addr y ≠ addr x := by
        intro he
        rw [List.cons_append, List.map_cons, List.nodup_cons, he] at hnodup
        exact hnodup.1 (List.mem_map_of_mem (List.mem_append_right xs List.mem_cons_self))
      refine .cons ?_ (ih hitems)
      rw [Function.update_of_ne hne]
      exact hcell

end Linked

def Place.behind (addr : α → Addr) (items : List α) : Place :=
  match items.getLast? with
  | none => .header
  | some x => .next (addr x)

theorem Place.behind_snoc (items : List α) (x : α) :
    Place.behind addr (items ++ [x]) = .next (addr x) := by
  rw [behind, List.getLast?_concat]

namespace Chain

/-- `none` where the place is in a cell that is not live. -/
def load (c : Chain α) : Place → Option (Option Addr)
  | .header => some c.header
  | .next a => (c.cells a).map Cell.next

def store (c : Chain α) (v : Option Addr) : Place → Option (Chain α)
  | .header => some { c with header := v }
  | .next a => (c.cells a).map fun cell =>
      { c with cells := Function.update c.cells a (some { cell with next := v }) }

structure Holds (addr : α → Addr) (c : Chain α) (items : List α) : Prop where
  linked : Linked addr c.cells c.header items
  exact : ∀ a, c.cells a = none ↔ a ∉ items.map addr

variable {c : Chain α} {before rest after : List α} {x x' : α}

theorem Holds.load (h : c.Holds addr (before ++ rest)) :
    ∃ v, c.load (.behind addr before) = some v ∧ Linked addr c.cells v rest := by
  rcases List.eq_nil_or_concat' before with rfl | ⟨front, x, rfl⟩
  · exact ⟨c.header, rfl, h.linked⟩
  · rw [List.append_assoc, List.singleton_append] at h
    obtain ⟨next, hcell, hrest⟩ := h.linked.split
    refine ⟨next, ?_, hrest⟩
    rw [Place.behind_snoc, Chain.load, hcell]
    rfl

theorem Holds.push (h : c.Holds addr rest) (hx : c.cells (addr x) = none) :
    (⟨some (addr x), Function.update c.cells (addr x) (some ⟨x, c.header⟩)⟩ : Chain α).Holds addr
      (x :: rest) where
  linked := .cons (Function.update_self ..) (h.linked.update ((h.exact _).mp hx) _)
  exact a := by
    by_cases ha : a = addr x
    · subst ha
      simp
    · simp [ha, h.exact]

theorem Holds.unlink {next : Option Addr} (h : c.Holds addr (before ++ x :: after))
    (hcell : c.cells (addr x) = some ⟨x, next⟩) :
    ∃ c', c.store next (.behind addr before) = some c' ∧
      ({ c' with cells := c'.cells.free (addr x) } : Chain α).Holds addr (before ++ after) := by
  obtain ⟨next', hcell', hafter⟩ := h.linked.split
  rw [hcell, Option.some_inj, Cell.mk.injEq] at hcell'
  rw [← hcell'.2] at hafter
  have hnodup := h.linked.nodup
  rw [List.map_append, List.map_cons, List.nodup_middle, List.nodup_cons, ← List.map_append] at hnodup
  have hexact : ∀ {cells : Cells α}, (∀ a, cells a = none ↔ c.cells a = none) →
      ∀ a, cells.free (addr x) a = none ↔ a ∉ (before ++ after).map addr := by
    intro cells hsame a
    by_cases ha : a = addr x
    · subst ha
      exact iff_of_true (Function.update_self ..) hnodup.1
    · rw [Cells.free, Function.update_of_ne ha, hsame, h.exact]
      simp [ha]
  rcases List.eq_nil_or_concat' before with rfl | ⟨front, y, rfl⟩
  · exact ⟨_, rfl, hafter.update hnodup.1 none, hexact fun a => Iff.rfl⟩
  · have hlinked := h.linked
    rw [List.append_assoc, List.singleton_append] at hlinked
    obtain ⟨_, hy, _⟩ := hlinked.split
    rw [List.append_assoc, List.singleton_append, List.map_append, List.map_cons] at hnodup
    have hyafter : addr y ∉ after.map addr := by
      have := hnodup.2
      rw [List.nodup_middle, List.nodup_cons] at this
      exact fun hm => this.1 (List.mem_append_right _ hm)
    refine ⟨{ c with cells := Function.update c.cells (addr y) (some ⟨y, next⟩) }, ?_, ?_, ?_⟩
    · rw [Place.behind_snoc, Chain.store, hy]
      rfl
    · have hrelinked := hlinked.relink rfl hafter hyafter
      rw [List.append_assoc, List.singleton_append]
      refine hrelinked.update ?_ none
      rw [List.map_append, List.map_cons]
      exact hnodup.1
    · refine hexact fun a => ?_
      by_cases ha : a = addr y
      · subst ha
        simp [hy]
      · simp [ha]

theorem Holds.replace {next : Option Addr} (h : c.Holds addr (before ++ x :: after))
    (hcell : c.cells (addr x) = some ⟨x, next⟩) (hx : addr x' = addr x) :
    ({ c with cells := Function.update c.cells (addr x) (some ⟨x', next⟩) } : Chain α).Holds addr
      (before ++ x' :: after) where
  linked := by
    obtain ⟨_, hcell', hafter⟩ := h.linked.split
    rw [hcell, Option.some_inj, Cell.mk.injEq] at hcell'
    rw [← hcell'.2] at hafter
    have hnodup := h.linked.nodup
    rw [List.map_append, List.map_cons, List.nodup_middle, List.nodup_cons] at hnodup
    exact h.linked.relink hx hafter fun hm => hnodup.1 (List.mem_append_right _ hm)
  exact a := by
    have hexact := h.exact a
    rw [List.map_append, List.map_cons] at hexact ⊢
    rw [hx, ← hexact]
    by_cases ha : a = addr x
    · subst ha
      simp [hcell]
    · simp [ha]

end Chain

end RlLibrary.Foundation
