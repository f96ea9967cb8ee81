import Mathlib.Data.List.Nodup
import RlLibrary.Foundation.Heap

namespace RlLibrary.Foundation

structure Cell (α : Type*) where
  item : α
  next : Option Addr

abbrev Cells (α : Type*) := Addr → Option (Cell α)

variable {α β : Type*}

namespace Cells

def free (cells : Cells α) (a : Addr) : Cells α := Function.update cells a none

def freeAll (cells : Cells α) (as : List Addr) : Cells α :=
  fun a => if a ∈ as then none else cells a

theorem freeAll_nil (cells : Cells α) : cells.freeAll [] = cells := by
  funext a
  simp [freeAll]

theorem freeAll_free (cells : Cells α) (a : Addr) (as : List Addr) :
    (cells.free a).freeAll as = cells.freeAll (a :: as) := by
  funext b
  by_cases hb : b = a
  · subst hb
    simp [freeAll, free]
  · simp [freeAll, free, hb]

end Cells

inductive Linked (addr : α → Addr) (cells : Cells α) : Option Addr → List α → Prop
  | nil : Linked addr cells none []
  | cons {x : α} {next : Option Addr} {items : List α} (hcell : cells (addr x) = some ⟨x, next⟩)
      (hitems : Linked addr cells next items) : Linked addr cells (some (addr x)) (x :: items)

namespace Linked

variable {addr : α → Addr} {cells : Cells α} {header : Option Addr} {items : List α}

theorem unique {items' : List α} (h : Linked addr cells header items)
    (h' : Linked addr cells header items') : items = items' := by
  induction h generalizing items' with
  | nil =>
    cases h'
    rfl
  | @cons x next items hcell hitems ih =>
    generalize hheader : some (addr x) = header at h'
    cases h' with
    | nil => cases hheader
    | cons hcell' hitems' =>
      rw [Option.some_inj] at hheader
      rw [hheader, hcell', Option.some_inj] at hcell
      cases hcell
      rw [ih hitems']

theorem tail_of_mem (h : Linked addr cells header items) {x : α} (hx : x ∈ items) :
    ∃ rest, Linked addr cells (some (addr x)) (x :: rest) ∧ (x :: rest).length ≤ items.length := by
  induction h with
  | nil => cases hx
  | cons hcell hitems ih =>
    rcases List.mem_cons.mp hx with rfl | hx
    · exact ⟨_, .cons hcell hitems, Nat.le_refl _⟩
    · obtain ⟨rest, hrest, hlength⟩ := ih hx
      exact ⟨rest, hrest, Nat.le_succ_of_le hlength⟩

theorem nodup (h : Linked addr cells header items) : (items.map addr).Nodup := by
  induction h with
  | nil => exact List.nodup_nil
  | @cons x next items hcell hitems ih =>
    rw [List.map_cons, List.nodup_cons]
    refine ⟨fun hmem => ?_, ih⟩
    obtain ⟨y, hy, haddr⟩ := List.mem_map.mp hmem
    obtain ⟨rest, hrest, hlength⟩ := hitems.tail_of_mem hy
    rw [haddr] at hrest
    have heq := hrest.unique (.cons hcell hitems)
    have hsame := congrArg List.length heq
    simp only [List.length_cons] at hlength hsame
    omega

theorem frame (h : Linked addr cells header items) {cells' : Cells α}
    (hsame : ∀ x ∈ items, cells' (addr x) = cells (addr x)) : Linked addr cells' header items := by
  induction h with
  | nil => exact .nil
  | @cons x next items hcell hitems ih =>
    apply Linked.cons
    · rw [hsame x List.mem_cons_self, hcell]
    · exact ih fun y hy => hsame y (List.mem_cons_of_mem x hy)

theorem update (h : Linked addr cells header items) {a : Addr} (ha : a ∉ items.map addr)
    (c : Option (Cell α)) : Linked addr (Function.update cells a c) header items := by
  apply h.frame
  intro x hx
  have hne : addr x ≠ a := fun he => ha (he ▸ List.mem_map_of_mem hx)
  rw [Function.update_of_ne hne]

end Linked

theorem exists_linked {addr : α → Addr} {items : List α} (h : (items.map addr).Nodup) :
    ∃ cells header, Linked addr cells header items := by
  induction items with
  | nil => exact ⟨fun _ => none, none, .nil⟩
  | cons x items ih =>
    rw [List.map_cons, List.nodup_cons] at h
    obtain ⟨cells, header, hitems⟩ := ih h.2
    exact ⟨_, _, .cons (Function.update_self ..) (hitems.update h.1 (some ⟨x, header⟩))⟩

structure Draining (α β : Type*) where
  cells : Cells α
  freed : List Addr
  locals : β

/-- `while (node != NULL)`: read the cell, go on to its successor, free it. A cell that is read or
freed when it is not live is a fault, `none`. -/
def drain (visit : β → α → β) : ℕ → Option Addr → Draining α β → Option (Draining α β)
  | _, none, d => some d
  | 0, some _, _ => none
  | fuel + 1, some a, d =>
    match d.cells a with
    | none => none
    | some cell =>
      drain visit fuel cell.next ⟨d.cells.free a, d.freed ++ [a], visit d.locals cell.item⟩

theorem drain_linked (visit : β → α → β) {addr : α → Addr} {cells : Cells α} {header : Option Addr}
    {items : List α} (h : Linked addr cells header items) {fuel : ℕ} (hfuel : items.length ≤ fuel)
    (freed : List Addr) (b : β) : drain visit fuel header ⟨cells, freed, b⟩ =
      some ⟨cells.freeAll (items.map addr), freed ++ items.map addr, items.foldl visit b⟩ := by
  induction items generalizing cells header fuel freed b with
  | nil =>
    cases h
    simp only [drain, List.map_nil, Cells.freeAll_nil, List.append_nil, List.foldl_nil]
  | cons x items ih =>
    have hnodup := h.nodup
    rw [List.map_cons, List.nodup_cons] at hnodup
    obtain ⟨fuel, rfl⟩ := Nat.exists_eq_add_of_lt (Nat.lt_of_lt_of_le (Nat.succ_pos _) hfuel)
    cases h with
    | cons hcell hitems =>
      have hrest : Linked addr (cells.free (addr x)) _ items := hitems.update hnodup.1 none
      simp only [drain, hcell]
      rw [ih hrest (by simpa using hfuel), Cells.freeAll_free, List.map_cons, List.append_assoc,
        List.singleton_append, List.foldl_cons]

end RlLibrary.Foundation
