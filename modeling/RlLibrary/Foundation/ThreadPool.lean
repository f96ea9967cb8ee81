import Mathlib.Data.Fintype.Card
import RlLibrary.Foundation.Machine

/-!
Threads over a shared state: in one step one thread changes the shared state and its own
program point. Safety of a pool is shown thread by thread.
-/

namespace RlLibrary.Foundation

structure ThreadCode (ι σ L α : Type*) where
  ready : ι → σ → L → α → Prop
  step : ι → σ → L → α → σ × L

namespace ThreadCode

variable {ι σ L α : Type*} [DecidableEq ι]

def pool (T : ThreadCode ι σ L α) : Machine (σ × (ι → L)) (ι × α) where
  enabled c i := T.ready i.1 c.1 (c.2 i.1) i.2
  next c i :=
    let r := T.step i.1 c.1 (c.2 i.1) i.2
    (r.1, Function.update c.2 i.1 r.2)

/-- `I` speaks about the pool, `A t` about thread `t` alone: the thread that moves keeps
both, and keeps the assertion of every other thread. -/
structure Modular (T : ThreadCode ι σ L α) (g : σ × (ι → L) → ι × α → Prop)
    (I : σ × (ι → L) → Prop) (A : ι → σ → L → Prop) : Prop where
  shared : ∀ c i, I c → A i.1 c.1 (c.2 i.1) → T.pool.enabled c i → g c i → I (T.pool.next c i)
  own : ∀ c i, I c → A i.1 c.1 (c.2 i.1) → T.pool.enabled c i → g c i →
    A i.1 (T.step i.1 c.1 (c.2 i.1) i.2).1 (T.step i.1 c.1 (c.2 i.1) i.2).2
  frame : ∀ c i u, I c → A i.1 c.1 (c.2 i.1) → T.pool.enabled c i → g c i → u ≠ i.1 →
    A u c.1 (c.2 u) → A u (T.step i.1 c.1 (c.2 i.1) i.2).1 (c.2 u)

theorem Modular.next {T : ThreadCode ι σ L α} {g : σ × (ι → L) → ι × α → Prop}
    {I : σ × (ι → L) → Prop} {A : ι → σ → L → Prop} (h : T.Modular g I A)
    {c : σ × (ι → L)} {i : ι × α} (hI : I c) (hA : ∀ t, A t c.1 (c.2 t))
    (he : (T.pool.restrict g).enabled c i) :
    I (T.pool.next c i) ∧ ∀ t, A t (T.pool.next c i).1 ((T.pool.next c i).2 t) := by
  refine ⟨h.shared c i hI (hA _) he.1 he.2, fun u => ?_⟩
  by_cases hu : u = i.1
  · subst hu
    have hown := h.own c i hI (hA _) he.1 he.2
    simpa only [pool, Function.update_self] using hown
  · have hframe := h.frame c i u hI (hA _) he.1 he.2 hu (hA u)
    simpa only [pool, Function.update_of_ne hu] using hframe

theorem Modular.run {T : ThreadCode ι σ L α} {g : σ × (ι → L) → ι × α → Prop}
    {I : σ × (ι → L) → Prop} {A : ι → σ → L → Prop} (h : T.Modular g I A)
    {c : σ × (ι → L)} {is : List (ι × α)} (hI : I c) (hA : ∀ t, A t c.1 (c.2 t))
    (hv : (T.pool.restrict g).Valid c is) :
    I (T.pool.exec c is) ∧ ∀ t, A t (T.pool.exec c is).1 ((T.pool.exec c is).2 t) := by
  rw [← Machine.restrict_exec T.pool g]
  apply Machine.exec_invariant (P := fun c => I c ∧ ∀ t, A t c.1 (c.2 t)) _ ⟨hI, hA⟩ hv
  intro c i hc he
  exact h.next hc.1 hc.2 he

end ThreadCode

section Count

variable {ι L : Type*} [Fintype ι] [DecidableEq ι]

def threadCount (points : ι → L) (P : L → Prop) [DecidablePred P] : ℕ :=
  (Finset.univ.filter (fun t => P (points t))).card

theorem threadCount_split (points : ι → L) (t : ι) (P : L → Prop) [DecidablePred P] :
    threadCount points P =
      ((Finset.univ.erase t).filter (fun u => P (points u))).card +
        if P (points t) then 1 else 0 := by
  have huniv : (Finset.univ : Finset ι) = insert t (Finset.univ.erase t) :=
    (Finset.insert_erase (Finset.mem_univ t)).symm
  rw [threadCount]
  nth_rewrite 1 [huniv]
  rw [Finset.filter_insert]
  by_cases ht : P (points t)
  · have hm : t ∉ (Finset.univ.erase t).filter (fun u => P (points u)) := by simp
    rw [if_pos ht, if_pos ht, Finset.card_insert_of_notMem hm]
  · rw [if_neg ht, if_neg ht, Nat.add_zero]

theorem threadCount_move (points : ι → L) (t : ι) (x : L) (P : L → Prop) [DecidablePred P] :
    threadCount (Function.update points t x) P + (if P (points t) then 1 else 0) =
      threadCount points P + if P x then 1 else 0 := by
  have hrest : (Finset.univ.erase t).filter (fun u => P (Function.update points t x u)) =
      (Finset.univ.erase t).filter (fun u => P (points u)) := by
    apply Finset.filter_congr
    intro u hu
    rw [Function.update_of_ne (Finset.ne_of_mem_erase hu)]
  rw [threadCount_split _ t, threadCount_split points t, hrest, Function.update_self]
  omega

omit [DecidableEq ι] in
theorem threadCount_eq_zero {points : ι → L} {P : L → Prop} [DecidablePred P]
    (h : ∀ t, ¬ P (points t)) : threadCount points P = 0 := by
  simp [threadCount, h]

omit [DecidableEq ι] in
theorem threadCount_pos {points : ι → L} {P : L → Prop} [DecidablePred P] {t : ι}
    (h : P (points t)) : 0 < threadCount points P :=
  Finset.card_pos.mpr ⟨t, by simpa using h⟩

end Count

end RlLibrary.Foundation
