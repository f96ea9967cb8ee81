import Mathlib.Algebra.Order.BigOperators.Group.Finset
import RlLibrary.Foundation.Sections

namespace RlLibrary.Foundation

structure Locked (κ ι σ : Type*) where
  owner : κ → Option ι
  value : σ

namespace Sections

variable {κ ι σ Q P A R : Type*} [DecidableEq κ]

def grouped (S : κ → Sections σ Q P A R) (group : ι → κ) :
    ThreadCode ι (Locked κ ι σ) (Phase Q P A R) (Action Q A) where
  ready t g phase action :=
    match phase, action with
    | .idle _, .call _ => True
    | .waiting _ _, .lock => g.owner (group t) = none
    | .inside _ _ p, .step a => (S (group t)).ready g.value p a
    | .leaving _ _ _, .unlock => True
    | _, _ => False
  step t g phase action :=
    match phase, action with
    | .idle _, .call q =>
      match (S (group t)).enter q with
      | .inl p => (g, .waiting q p)
      | .inr r => (g, .idle (some r))
    | .waiting q p, .lock => ({ g with owner := Function.update g.owner (group t) (some t) }, .inside q [] p)
    | .inside q as p, .step a =>
      match (S (group t)).step g.value p a with
      | (s, .inl p) => ({ g with value := s }, .inside q (as ++ [a]) p)
      | (s, .inr r) => ({ g with value := s }, .leaving q (as ++ [a]) r)
    | .leaving _ _ r, .unlock => ({ g with owner := Function.update g.owner (group t) none }, .idle (some r))
    | phase, _ => (g, phase)

def groupsAt (s : σ) : Locked κ ι σ × (ι → Phase Q P A R) := (⟨fun _ => none, s⟩, fun _ => .idle none)

inductive GroupMoves (S : Sections σ Q P A R) (k : κ) (t : ι) (g : Locked κ ι σ) :
    Phase Q P A R → Action Q A → Locked κ ι σ → Phase Q P A R → Prop where
  | asks {last : Option R} {q : Q} {p : P} (hq : S.enter q = .inl p) :
      GroupMoves S k t g (.idle last) (.call q) g (.waiting q p)
  | refused {last : Option R} {q : Q} {r : R} (hq : S.enter q = .inr r) :
      GroupMoves S k t g (.idle last) (.call q) g (.idle (some r))
  | locks {q : Q} {p : P} (hfree : g.owner k = none) :
      GroupMoves S k t g (.waiting q p) .lock { g with owner := Function.update g.owner k (some t) } (.inside q [] p)
  | goesOn {q : Q} {as : List A} {a : A} {p p' : P} {s : σ} (hready : S.ready g.value p a)
      (hstep : S.step g.value p a = (s, .inl p')) :
      GroupMoves S k t g (.inside q as p) (.step a) { g with value := s } (.inside q (as ++ [a]) p')
  | ends {q : Q} {as : List A} {a : A} {p : P} {r : R} {s : σ} (hready : S.ready g.value p a)
      (hstep : S.step g.value p a = (s, .inr r)) :
      GroupMoves S k t g (.inside q as p) (.step a) { g with value := s } (.leaving q (as ++ [a]) r)
  | unlocks {q : Q} {as : List A} {r : R} :
      GroupMoves S k t g (.leaving q as r) .unlock { g with owner := Function.update g.owner k none } (.idle (some r))

variable {S : κ → Sections σ Q P A R} {group : ι → κ} {t u : ι} {k : κ} {g g' : Locked κ ι σ}
  {phase phase' other : Phase Q P A R} {action : Action Q A}

theorem grouped_moves (h : (grouped S group).ready t g phase action) :
    GroupMoves (S (group t)) (group t) t g phase action ((grouped S group).step t g phase action).1
      ((grouped S group).step t g phase action).2 := by
  cases phase with
  | idle last =>
    cases action with
    | call q =>
      cases hq : (S (group t)).enter q with
      | inl p =>
        simp only [grouped, hq]
        exact .asks hq
      | inr r =>
        simp only [grouped, hq]
        exact .refused hq
    | _ => exact h.elim
  | waiting q p =>
    cases action with
    | lock => exact .locks h
    | _ => exact h.elim
  | inside q as p =>
    cases action with
    | step a =>
      rcases hstep : (S (group t)).step g.value p a with ⟨s, p' | r⟩
      · simp only [grouped, hstep]
        exact .goesOn h hstep
      · simp only [grouped, hstep]
        exact .ends h hstep
    | _ => exact h.elim
  | leaving q as r =>
    cases action with
    | unlock => exact .unlocks
    | _ => exact h.elim

def HasLock (k : κ) (t : ι) (g : Locked κ ι σ) : Phase Q P A R → Prop
  | .idle _ => g.owner k ≠ some t
  | .waiting _ _ => g.owner k ≠ some t
  | .inside _ _ _ => g.owner k = some t
  | .leaving _ _ _ => g.owner k = some t

theorem GroupMoves.hasLock {S : Sections σ Q P A R} (h : GroupMoves S k t g phase action g' phase')
    (hp : HasLock k t g phase) : HasLock k t g' phase' := by
  cases h with
  | asks hq => exact hp
  | refused hq => exact hp
  | locks hfree => simp [HasLock]
  | goesOn hready hstep => exact hp
  | ends hready hstep => exact hp
  | unlocks => simp [HasLock]

theorem GroupMoves.others {S : Sections σ Q P A R} (h : GroupMoves S k t g phase action g' phase')
    (hp : HasLock k t g phase) (hne : u ≠ t) (j : κ) : g'.owner j = some u ↔ g.owner j = some u := by
  have hsome : (some t : Option ι) ≠ some u := fun h => hne (Option.some_inj.mp h).symm
  cases h with
  | locks hfree =>
    by_cases hj : j = k
    · subst hj
      simp [hfree, hne.symm]
    · simp only [Function.update_of_ne hj]
  | unlocks =>
    by_cases hj : j = k
    · subst hj
      have howner : g.owner j = some t := hp
      simp [howner, hne.symm]
    · simp only [Function.update_of_ne hj]
  | _ => exact Iff.rfl

theorem GroupMoves.elsewhere {S : Sections σ Q P A R} (h : GroupMoves S k t g phase action g' phase') {j : κ}
    (hj : j ≠ k) : g'.owner j = g.owner j := by
  cases h with
  | locks hfree => exact Function.update_of_ne hj _ _
  | unlocks => exact Function.update_of_ne hj _ _
  | _ => rfl

structure LocksHeld (group : ι → κ) (c : Locked κ ι σ × (ι → Phase Q P A R)) : Prop where
  owner : ∀ k t, c.1.owner k = some t → group t = k
  phase : ∀ t, HasLock (group t) t c.1 (c.2 t)

variable [DecidableEq ι] {c : Locked κ ι σ × (ι → Phase Q P A R)}

theorem LocksHeld.move {phases : ι → Phase Q P A R} (h : LocksHeld group (g, phases))
    (hmove : GroupMoves (S (group t)) (group t) t g (phases t) action g' phase') :
    LocksHeld group (g', Function.update phases t phase') := by
  have hlock : HasLock (group t) t g (phases t) := h.phase t
  constructor
  · intro j u hu
    by_cases hut : u = t
    · by_contra hj
      have hj' : j ≠ group t := fun he => hj (by rw [hut, he])
      have howner : g.owner j = some u := (hmove.elsewhere hj') ▸ hu
      exact hj (h.owner j u howner)
    · exact h.owner j u ((hmove.others hlock hut j).mp hu)
  · intro u
    change HasLock (group u) u g' (Function.update phases t phase' u)
    by_cases hut : u = t
    · subst hut
      rw [Function.update_self]
      exact hmove.hasLock hlock
    · have hothers := hmove.others hlock hut (group u)
      have hu : HasLock (group u) u g (phases u) := h.phase u
      rw [Function.update_of_ne hut]
      generalize phases u = other at hu
      cases other <;> simpa only [HasLock, ne_eq, hothers] using hu

theorem LocksHeld.next {i : ι × Action Q A} (h : LocksHeld group c)
    (he : (grouped S group).pool.enabled c i) : LocksHeld group ((grouped S group).pool.next c i) :=
  h.move (grouped_moves he)

omit [DecidableEq κ] [DecidableEq ι] in
theorem locksHeld_groupsAt (s : σ) : LocksHeld group (groupsAt (Q := Q) (P := P) (A := A) (R := R) s) :=
  ⟨fun k t h => (by cases h), fun t h => (by cases h)⟩

def load (weight : Phase Q P A R → ℕ) (c : Locked κ ι σ × (ι → Phase Q P A R)) (k : κ) : ℕ :=
  match c.1.owner k with
  | none => 0
  | some t => weight (c.2 t)

section Load

variable {weight : Phase Q P A R → ℕ} {phases : ι → Phase Q P A R}

theorem load_elsewhere (h : LocksHeld group (g, phases))
    (hmove : GroupMoves (S (group t)) (group t) t g (phases t) action g' phase') {j : κ} (hj : j ≠ group t) :
    load weight (g', Function.update phases t phase') j = load weight (g, phases) j := by
  simp only [load, hmove.elsewhere hj]
  cases howner : g.owner j with
  | none => rfl
  | some u =>
    have hut : u ≠ t := by
      rintro rfl
      exact hj (h.owner j u howner).symm
    simp only [Function.update_of_ne hut]

theorem load_group (hidle : ∀ last, weight (.idle last) = 0) (hwaiting : ∀ q p, weight (.waiting q p) = 0)
    (h : LocksHeld group (g, phases))
    (hmove : GroupMoves (S (group t)) (group t) t g (phases t) action g' phase') :
    load weight (g', Function.update phases t phase') (group t) + weight (phases t) =
      load weight (g, phases) (group t) + weight phase' := by
  have hlock : HasLock (group t) t g (phases t) := h.phase t
  have hsame (howner : g.owner (group t) ≠ some t) : load weight (g, Function.update phases t phase') (group t) =
      load weight (g, phases) (group t) := by
    cases hu : g.owner (group t) with
    | none => simp only [load, hu]
    | some u =>
      have hut : u ≠ t := by
        rintro rfl
        exact howner hu
      simp only [load, hu, Function.update_of_ne hut]
  have hown (howner : g'.owner (group t) = some t) :
      load weight (g', Function.update phases t phase') (group t) = weight phase' := by
    simp only [load, howner, Function.update_self]
  have hbefore (howner : g.owner (group t) = some t) : load weight (g, phases) (group t) = weight (phases t) := by
    simp only [load, howner]
  generalize hphase : phases t = phase at hmove hlock hbefore
  cases hmove with
  | asks hq => rw [hsame hlock, hidle, hwaiting]
  | refused hq => rw [hsame hlock, hidle, hidle]
  | locks hfree =>
    have hnone : load weight (g, phases) (group t) = 0 := by
      simp only [load, hfree]
    rw [hown (Function.update_self ..), hwaiting, hnone, Nat.add_comm]
  | goesOn hready hstep => rw [hown hlock, hbefore hlock, Nat.add_comm]
  | ends hready hstep => rw [hown hlock, hbefore hlock, Nat.add_comm]
  | @unlocks q as r =>
    have hnone : load weight (⟨Function.update g.owner (group t) none, g.value⟩,
        Function.update phases t (.idle (some r))) (group t) = 0 := by
      simp only [load, Function.update_self]
    rw [hnone, hbefore hlock, hidle, Nat.add_comm]

theorem sum_load_move [Fintype κ] (hidle : ∀ last, weight (.idle last) = 0)
    (hwaiting : ∀ q p, weight (.waiting q p) = 0) (h : LocksHeld group (g, phases))
    (hmove : GroupMoves (S (group t)) (group t) t g (phases t) action g' phase') :
    (∑ k, load weight (g', Function.update phases t phase') k) + weight (phases t) =
      (∑ k, load weight (g, phases) k) + weight phase' := by
  have hrest : ∑ k ∈ Finset.univ.erase (group t), load weight (g', Function.update phases t phase') k =
      ∑ k ∈ Finset.univ.erase (group t), load weight (g, phases) k :=
    Finset.sum_congr rfl fun j hj => load_elsewhere h hmove (Finset.ne_of_mem_erase hj)
  have hgroup := load_group hidle hwaiting h hmove
  rw [← Finset.add_sum_erase _ _ (Finset.mem_univ (group t)), hrest,
    ← Finset.add_sum_erase _ (load weight (g, phases)) (Finset.mem_univ (group t))]
  omega

end Load

section OneGroup

variable {S : Sections σ Q P A R} {run : List (ι × Action Q A)}

def asGroup (d : Guarded ι σ Q A R × (ι → Phase Q P A R)) : Locked Unit ι σ × (ι → Phase Q P A R) :=
  (⟨fun _ => d.1.owner, d.1.value⟩, d.2)

theorem asGroup_enabled (d : Guarded ι σ Q A R × (ι → Phase Q P A R)) (i : ι × Action Q A) :
    (grouped (fun _ : Unit => S) fun _ => ()).pool.enabled (asGroup d) i ↔ S.code.pool.enabled d i :=
  Iff.rfl

theorem asGroup_next (d : Guarded ι σ Q A R × (ι → Phase Q P A R)) (i : ι × Action Q A) :
    (grouped (fun _ : Unit => S) fun _ => ()).pool.next (asGroup d) i = asGroup (S.code.pool.next d i) := by
  obtain ⟨t, action⟩ := i
  have hset (o : Option ι) : Function.update (fun _ : Unit => d.1.owner) () o = fun _ => o := by
    funext u
    exact Function.update_self ..
  simp only [ThreadCode.pool, code, grouped, asGroup, hset]
  generalize d.2 t = phase
  cases phase with
  | idle last =>
    cases action with
    | call q => cases hq : S.enter q <;> simp only [hq]
    | _ => rfl
  | waiting q p => cases action <;> rfl
  | inside q as p =>
    cases action with
    | step a => rcases hstep : S.step d.1.value p a with ⟨s, p' | r⟩ <;> simp only [hstep]
    | _ => rfl
  | leaving q as r => cases action <;> rfl

theorem asGroup_exec (d : Guarded ι σ Q A R × (ι → Phase Q P A R)) :
    ((grouped (fun _ : Unit => S) fun _ => ()).pool.Valid (asGroup d) run ↔ S.code.pool.Valid d run) ∧
      (grouped (fun _ : Unit => S) fun _ => ()).pool.exec (asGroup d) run = asGroup (S.code.pool.exec d run) := by
  induction run generalizing d with
  | nil => exact ⟨Iff.rfl, rfl⟩
  | cons i run ih =>
    obtain ⟨hvalid, hexec⟩ := ih (S.code.pool.next d i)
    rw [← asGroup_next] at hvalid hexec
    exact ⟨and_congr (asGroup_enabled d i) hvalid, hexec⟩

theorem one_group (s : σ) (run : List (ι × Action Q A)) :
    ((grouped (fun _ : Unit => S) fun _ => ()).pool.Valid (groupsAt s) run ↔
        S.code.pool.Valid (startWith s) run) ∧
      (grouped (fun _ : Unit => S) fun _ => ()).pool.exec (groupsAt s) run =
        asGroup (S.code.pool.exec (startWith s) run) :=
  asGroup_exec (startWith s)

end OneGroup

end Sections

end RlLibrary.Foundation
