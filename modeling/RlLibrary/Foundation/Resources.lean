import Mathlib.Data.List.Basic

namespace RlLibrary.Foundation

inductive Event (ρ : Type*) where
  | acquired (r : ρ)
  | used (r : ρ)
  | released (r : ρ)
  deriving DecidableEq

structure Traced (ρ : Type*) (α : Type) where
  value : α
  events : List (Event ρ)

def Event.map {ρ σ : Type*} (g : ρ → σ) : Event ρ → Event σ
  | .acquired r => .acquired (g r)
  | .used r => .used (g r)
  | .released r => .released (g r)

namespace Traced

variable {ρ : Type*} {α β : Type}

instance : Monad (Traced ρ) where
  pure a := ⟨a, []⟩
  bind x f := ⟨(f x.value).value, x.events ++ (f x.value).events⟩

theorem bind_value (x : Traced ρ α) (f : α → Traced ρ β) :
    (x >>= f).value = (f x.value).value := rfl

def acquire (r : ρ) : Traced ρ Unit := ⟨(), [.acquired r]⟩

def use (r : ρ) : Traced ρ Unit := ⟨(), [.used r]⟩

def release (r : ρ) : Traced ρ Unit := ⟨(), [.released r]⟩

def among {σ : Type*} (g : ρ → σ) (x : Traced ρ α) : Traced σ α := ⟨x.value, x.events.map (.map g)⟩

variable [DecidableEq ρ]

/-- What is held after the events; `none` when something is used or released that is not held. -/
def replay : List (Event ρ) → List ρ → Option (List ρ)
  | [], held => some held
  | .acquired r :: es, held => replay es (r :: held)
  | .used r :: es, held => if r ∈ held then replay es held else none
  | .released r :: es, held => if r ∈ held then replay es (held.erase r) else none

def Keeps (x : Traced ρ α) (before after : List ρ) : Prop :=
  replay x.events before = some after

def ReleasesAll (x : Traced ρ α) : Prop := x.Keeps [] []

variable {x y : Traced ρ α} {f : α → Traced ρ β} {r : ρ} {held before after : List ρ}

theorem replay_append (es fs : List (Event ρ)) (held : List ρ) :
    replay (es ++ fs) held = (replay es held).bind (replay fs) := by
  induction es generalizing held with
  | nil => rfl
  | cons e es ih =>
    cases e with
    | acquired r => exact ih (r :: held)
    | used r =>
      by_cases hr : r ∈ held
      · simp only [List.cons_append, replay, hr, ↓reduceIte, ih]
      · simp only [List.cons_append, replay, hr, ↓reduceIte, Option.bind_none]
    | released r =>
      by_cases hr : r ∈ held
      · simp only [List.cons_append, replay, hr, ↓reduceIte, ih]
      · simp only [List.cons_append, replay, hr, ↓reduceIte, Option.bind_none]

theorem keeps_pure (a : α) (held : List ρ) : (pure a : Traced ρ α).Keeps held held := rfl

theorem Keeps.bind (middle : List ρ) (hx : x.Keeps before middle) (hf : (f x.value).Keeps middle after) :
    (x >>= f).Keeps before after := by
  have hreplay := replay_append x.events (f x.value).events before
  rw [Keeps] at hx hf
  rw [hx, Option.bind_some, hf] at hreplay
  exact hreplay

theorem Keeps.ite {c : Prop} [Decidable c] (hx : x.Keeps before after)
    (hy : y.Keeps before after) : (if c then x else y).Keeps before after := by
  split_ifs
  · exact hx
  · exact hy

theorem Keeps.acquire (h : y.Keeps (r :: held) after) :
    (Traced.acquire r >>= fun _ => y).Keeps held after := h

theorem Keeps.use (hr : r ∈ held) (h : y.Keeps held after) :
    (Traced.use r >>= fun _ => y).Keeps held after := by
  apply Keeps.bind held _ h
  simp only [Keeps, Traced.use, replay, hr, ↓reduceIte]

theorem Keeps.release (hr : r ∈ held) (h : y.Keeps (held.erase r) after) :
    (Traced.release r >>= fun _ => y).Keeps held after := by
  apply Keeps.bind (held.erase r) _ h
  simp only [Keeps, Traced.release, replay, hr, ↓reduceIte]

theorem Keeps.use_only (h : y.Keeps [r] after) : (Traced.use r >>= fun _ => y).Keeps [r] after :=
  h.use List.mem_cons_self

theorem Keeps.release_only (h : y.Keeps [] after) :
    (Traced.release r >>= fun _ => y).Keeps [r] after := by
  apply Keeps.release List.mem_cons_self
  rwa [List.erase_cons_head]

theorem keeps_leave (r : ρ) (a : α) : (do release r; pure a : Traced ρ α).Keeps [r] [] :=
  (keeps_pure a []).release_only

theorem replay_frame {es : List (Event ρ)} (others : List ρ) (h : replay es before = some after) :
    replay es (before ++ others) = some (after ++ others) := by
  induction es generalizing before with
  | nil =>
    cases h
    rfl
  | cons e es ih =>
    cases e with
    | acquired r => exact ih h
    | used r =>
      by_cases hr : r ∈ before
      · simp only [replay, hr, ↓reduceIte] at h
        simpa only [replay, List.mem_append_left others hr, ↓reduceIte] using ih h
      · simp only [replay, hr, ↓reduceIte, reduceCtorEq] at h
    | released r =>
      by_cases hr : r ∈ before
      · simp only [replay, hr, ↓reduceIte] at h
        simpa only [replay, List.mem_append_left others hr, ↓reduceIte,
          List.erase_append_left others hr] using ih h
      · simp only [replay, hr, ↓reduceIte, reduceCtorEq] at h

theorem Keeps.frame (others : List ρ) (h : x.Keeps before after) :
    x.Keeps (before ++ others) (after ++ others) := replay_frame others h

section Kinds

variable {σ : Type*} [DecidableEq σ] {g : ρ → σ}

theorem replay_among (hg : Function.Injective g) (es : List (Event ρ)) (held : List ρ) :
    replay (es.map (.map g)) (held.map g) = (replay es held).map (List.map g) := by
  induction es generalizing held with
  | nil => rfl
  | cons e es ih =>
    cases e with
    | acquired r => exact ih (r :: held)
    | used r =>
      simp only [List.map_cons, Event.map, replay, List.mem_map_of_injective hg]
      split_ifs
      · exact ih held
      · rfl
    | released r =>
      simp only [List.map_cons, Event.map, replay, List.mem_map_of_injective hg]
      split_ifs
      · rw [← List.map_erase hg]
        exact ih _
      · rfl

theorem Keeps.among (hg : Function.Injective g) (h : x.Keeps before after) :
    (x.among g).Keeps (before.map g) (after.map g) := by
  rw [Keeps, Traced.among, replay_among hg, h]
  rfl

end Kinds

end Traced

end RlLibrary.Foundation
