import Mathlib.Data.List.Basic
import RlLibrary.Foundation.ThreadPool

/-!
Sections of many steps under one lock. Whatever the interleaving, what the lock protects changes
as if every section ran alone, in the order in which the threads took the lock.
-/

namespace RlLibrary.Foundation

structure Sections (σ Q P A R : Type*) where
  enter : Q → P ⊕ R
  ready : σ → P → A → Prop
  step : σ → P → A → σ × (P ⊕ R)

namespace Sections

inductive Phase (Q P A R : Type*) where
  | idle (last : Option R)
  | waiting (request : Q) (point : P)
  | inside (request : Q) (answers : List A) (point : P)
  | leaving (request : Q) (answers : List A) (result : R)

inductive Phase.Open {Q P A R : Type*} : Phase Q P A R → Q → List A → P ⊕ R → Prop where
  | inside {q : Q} {as : List A} {p : P} : Open (.inside q as p) q as (.inl p)
  | leaving {q : Q} {as : List A} {r : R} : Open (.leaving q as r) q as (.inr r)

inductive Action (Q A : Type*) where
  | call (request : Q)
  | lock
  | step (answer : A)
  | unlock

structure Visit (ι Q A R : Type*) where
  thread : ι
  request : Q
  answers : List A
  result : R

/-- `visits`, the latest first, `base`, the value after them, and what a phase keeps besides its
point are bookkeeping: no step reads them. -/
structure Guarded (ι σ Q A R : Type*) where
  owner : Option ι
  value : σ
  base : σ
  visits : List (Visit ι Q A R)

variable {ι σ Q P A R : Type*} (S : Sections σ Q P A R)

def alone : Machine (σ × (P ⊕ R)) A where
  enabled c a :=
    match c.2 with
    | .inl p => S.ready c.1 p a
    | .inr _ => False
  next c a :=
    match c.2 with
    | .inl p => S.step c.1 p a
    | .inr _ => c

def limit (g : A → Prop) : Sections σ Q P A R :=
  ⟨S.enter, fun s p a => S.ready s p a ∧ g a, S.step⟩

inductive Serial (s₀ : σ) : List (Visit ι Q A R) → σ → Prop where
  | start : Serial s₀ [] s₀
  | visit {visits : List (Visit ι Q A R)} {v : Visit ι Q A R} {s s' : σ} (h : Serial s₀ visits s)
      (hv : S.alone.Valid (s, S.enter v.request) v.answers)
      (hend : S.alone.exec (s, S.enter v.request) v.answers = (s', .inr v.result)) :
      Serial s₀ (v :: visits) s'

def code : ThreadCode ι (Guarded ι σ Q A R) (Phase Q P A R) (Action Q A) where
  ready _ g phase action :=
    match phase, action with
    | .idle _, .call _ => True
    | .waiting _ _, .lock => g.owner = none
    | .inside _ _ p, .step a => S.ready g.value p a
    | .leaving _ _ _, .unlock => True
    | _, _ => False
  step t g phase action :=
    match phase, action with
    | .idle _, .call q =>
      match S.enter q with
      | .inl p => (g, .waiting q p)
      | .inr r => (g, .idle (some r))
    | .waiting q p, .lock => ({ g with owner := some t }, .inside q [] p)
    | .inside q as p, .step a =>
      match S.step g.value p a with
      | (s, .inl p) => ({ g with value := s }, .inside q (as ++ [a]) p)
      | (s, .inr r) => ({ g with value := s }, .leaving q (as ++ [a]) r)
    | .leaving q as r, .unlock => (⟨none, g.value, g.value, ⟨t, q, as, r⟩ :: g.visits⟩, .idle (some r))
    | phase, _ => (g, phase)

def startWith (s₀ : σ) : Guarded ι σ Q A R × (ι → Phase Q P A R) :=
  (⟨none, s₀, s₀, []⟩, fun _ => .idle none)

inductive Moves (t : ι) (g : Guarded ι σ Q A R) :
    Phase Q P A R → Guarded ι σ Q A R → Phase Q P A R → Prop where
  | asks {last : Option R} {q : Q} {p : P} (hq : S.enter q = .inl p) :
      Moves t g (.idle last) g (.waiting q p)
  | refused {last : Option R} {q : Q} {r : R} (hq : S.enter q = .inr r) :
      Moves t g (.idle last) g (.idle (some r))
  | locks {q : Q} {p : P} (hfree : g.owner = none) :
      Moves t g (.waiting q p) { g with owner := some t } (.inside q [] p)
  | goesOn {q : Q} {as : List A} {a : A} {p p' : P} {s : σ} (hready : S.ready g.value p a)
      (hstep : S.step g.value p a = (s, .inl p')) :
      Moves t g (.inside q as p) { g with value := s } (.inside q (as ++ [a]) p')
  | ends {q : Q} {as : List A} {a : A} {p : P} {r : R} {s : σ} (hready : S.ready g.value p a)
      (hstep : S.step g.value p a = (s, .inr r)) :
      Moves t g (.inside q as p) { g with value := s } (.leaving q (as ++ [a]) r)
  | unlocks {q : Q} {as : List A} {r : R} :
      Moves t g (.leaving q as r) ⟨none, g.value, g.value, ⟨t, q, as, r⟩ :: g.visits⟩ (.idle (some r))

theorem code_moves {t : ι} {g : Guarded ι σ Q A R} {phase : Phase Q P A R} {action : Action Q A}
    (h : S.code.ready t g phase action) :
    S.Moves t g phase (S.code.step t g phase action).1 (S.code.step t g phase action).2 := by
  cases phase with
  | idle last =>
    cases action with
    | call q =>
      cases hq : S.enter q with
      | inl p =>
        simp only [code, hq]
        exact .asks hq
      | inr r =>
        simp only [code, hq]
        exact .refused hq
    | _ => exact h.elim
  | waiting q p =>
    cases action with
    | lock => exact .locks h
    | _ => exact h.elim
  | inside q as p =>
    cases action with
    | step a =>
      rcases hstep : S.step g.value p a with ⟨s, p' | r⟩
      · simp only [code, hstep]
        exact .goesOn h hstep
      · simp only [code, hstep]
        exact .ends h hstep
    | _ => exact h.elim
  | leaving q as r =>
    cases action with
    | unlock => exact .unlocks
    | _ => exact h.elim

section Serializing

variable [DecidableEq ι]

def Consistent (s₀ : σ) (g : Guarded ι σ Q A R) : Prop :=
  S.Serial s₀ g.visits g.base ∧ (g.owner = none → g.value = g.base)

def Returned (t : ι) (g : Guarded ι σ Q A R) (r : R) : Prop :=
  (∃ q, S.enter q = .inr r) ∨
    ∃ v, g.visits.find? (fun v => v.thread = t) = some v ∧ v.result = r

def Follows (t : ι) (g : Guarded ι σ Q A R) : Phase Q P A R → Prop
  | .idle last => g.owner ≠ some t ∧ ∀ r ∈ last, S.Returned t g r
  | .waiting q p => g.owner ≠ some t ∧ S.enter q = .inl p
  | .inside q as p => g.owner = some t ∧ S.alone.Valid (g.base, S.enter q) as ∧
      S.alone.exec (g.base, S.enter q) as = (g.value, .inl p)
  | .leaving q as r => g.owner = some t ∧ S.alone.Valid (g.base, S.enter q) as ∧
      S.alone.exec (g.base, S.enter q) as = (g.value, .inr r)

variable {S} {s₀ : σ} {t u : ι} {g g' : Guarded ι σ Q A R} {phase phase' : Phase Q P A R}

theorem Moves.consistent (h : S.Moves t g phase g' phase') (hg : S.Consistent s₀ g)
    (hp : S.Follows t g phase) : S.Consistent s₀ g' := by
  cases h with
  | asks hq => exact hg
  | refused hq => exact hg
  | locks hfree => exact ⟨hg.1, fun hnone => by cases hnone⟩
  | goesOn hready hstep =>
    refine ⟨hg.1, fun hnone => ?_⟩
    rw [hp.1] at hnone
    cases hnone
  | ends hready hstep =>
    refine ⟨hg.1, fun hnone => ?_⟩
    rw [hp.1] at hnone
    cases hnone
  | unlocks => exact ⟨.visit hg.1 hp.2.1 hp.2.2, fun _ => rfl⟩

theorem alone_snoc {c : σ × (P ⊕ R)} {s s' : σ} {p : P} {next : P ⊕ R} {as : List A} {a : A}
    (hv : S.alone.Valid c as) (hexec : S.alone.exec c as = (s, .inl p)) (hready : S.ready s p a)
    (hstep : S.step s p a = (s', next)) :
    S.alone.Valid c (as ++ [a]) ∧ S.alone.exec c (as ++ [a]) = (s', next) := by
  rw [Machine.valid_append, Machine.exec_append, hexec]
  exact ⟨⟨hv, hready, trivial⟩, hstep⟩

theorem Moves.follows (h : S.Moves t g phase g' phase') (hg : S.Consistent s₀ g)
    (hp : S.Follows t g phase) : S.Follows t g' phase' := by
  cases h with
  | asks hq => exact ⟨hp.1, hq⟩
  | refused hq =>
    refine ⟨hp.1, ?_⟩
    rintro _ ⟨rfl⟩
    exact Or.inl ⟨_, hq⟩
  | locks hfree =>
    refine ⟨rfl, trivial, ?_⟩
    rw [hp.2, hg.2 hfree]
    rfl
  | goesOn hready hstep => exact ⟨hp.1, alone_snoc hp.2.1 hp.2.2 hready hstep⟩
  | ends hready hstep => exact ⟨hp.1, alone_snoc hp.2.1 hp.2.2 hready hstep⟩
  | unlocks =>
    refine ⟨fun howner => (by cases howner), ?_⟩
    rintro _ ⟨rfl⟩
    exact Or.inr ⟨_, List.find?_cons_of_pos (decide_eq_true rfl), rfl⟩

theorem Moves.frame (h : S.Moves t g phase g' phase') (hp : S.Follows t g phase) (hne : u ≠ t)
    {other : Phase Q P A R} (hu : S.Follows u g other) : S.Follows u g' other := by
  have hother : g.owner = some t → g.owner ≠ some u := by
    intro ht hu
    rw [ht, Option.some_inj] at hu
    exact hne hu.symm
  cases h with
  | asks hq => exact hu
  | refused hq => exact hu
  | locks hfree =>
    have hu' : (some t : Option ι) ≠ some u := fun he => hne (Option.some_inj.mp he).symm
    cases other with
    | idle last => exact ⟨hu', hu.2⟩
    | waiting q p => exact ⟨hu', hu.2⟩
    | inside q as p => exact absurd hu.1 (by rw [hfree]; exact (Option.some_ne_none u).symm)
    | leaving q as r => exact absurd hu.1 (by rw [hfree]; exact (Option.some_ne_none u).symm)
  | goesOn hready hstep =>
    cases other with
    | idle last => exact hu
    | waiting q p => exact hu
    | inside q as p => exact absurd hu.1 (hother hp.1)
    | leaving q as r => exact absurd hu.1 (hother hp.1)
  | ends hready hstep =>
    cases other with
    | idle last => exact hu
    | waiting q p => exact hu
    | inside q as p => exact absurd hu.1 (hother hp.1)
    | leaving q as r => exact absurd hu.1 (hother hp.1)
  | unlocks =>
    have hnone : (none : Option ι) ≠ some u := (Option.some_ne_none u).symm
    cases other with
    | idle last =>
      refine ⟨hnone, fun r hr => (hu.2 r hr).imp_right ?_⟩
      rintro ⟨v, hv, hresult⟩
      refine ⟨v, ?_, hresult⟩
      rw [List.find?_cons_of_neg (by simpa using hne.symm)]
      exact hv
    | waiting q p => exact ⟨hnone, hu.2⟩
    | inside q as p => exact absurd hu.1 (hother hp.1)
    | leaving q as r => exact absurd hu.1 (hother hp.1)

variable (S) in
theorem code_modular (s₀ : σ) : (S.code (ι := ι)).Modular (fun _ _ => True)
    (fun c => S.Consistent s₀ c.1) (fun t g phase => S.Follows t g phase) where
  shared _ _ hg hp he _ := (S.code_moves he).consistent hg hp
  own _ _ hg hp he _ := (S.code_moves he).follows hg hp
  frame _ _ _ _ hp he _ hne hu := (S.code_moves he).frame hp hne hu

variable {run : List (ι × Action Q A)}

theorem serializes (hv : S.code.pool.Valid (startWith s₀) run) :
    S.Consistent s₀ (S.code.pool.exec (startWith s₀) run).1 ∧
      ∀ t, S.Follows t (S.code.pool.exec (startWith s₀) run).1
        ((S.code.pool.exec (startWith s₀) run).2 t) := by
  apply (S.code_modular s₀).run
  · exact ⟨.start, fun _ => rfl⟩
  · exact fun t => ⟨(Option.some_ne_none t).symm, fun r hr => by cases hr⟩
  · exact (Machine.valid_restrict _ fun _ _ _ => trivial).mpr hv

theorem Follows.of_owner (h : S.Follows t g phase) (ht : g.owner = some t) :
    ∃ q as next, phase.Open q as next ∧ S.alone.Valid (g.base, S.enter q) as ∧
      S.alone.exec (g.base, S.enter q) as = (g.value, next) := by
  cases phase with
  | idle last => exact absurd ht h.1
  | waiting q p => exact absurd ht h.1
  | inside q as p => exact ⟨q, as, _, .inside, h.2⟩
  | leaving q as r => exact ⟨q, as, _, .leaving, h.2⟩

theorem Follows.owner (h : S.Follows t g phase) {q : Q} {as : List A} {next : P ⊕ R}
    (hopen : phase.Open q as next) : g.owner = some t := by
  cases hopen with
  | inside => exact h.1
  | leaving => exact h.1

theorem value_invariant {I : σ → Prop} {J : σ × (P ⊕ R) → Prop}
    (henter : ∀ s q, I s → J (s, S.enter q))
    (hstep : ∀ c a, J c → S.alone.enabled c a → J (S.alone.next c a)) (hvalue : ∀ c, J c → I c.1)
    (h₀ : I s₀) (hv : S.code.pool.Valid (startWith s₀) run) :
    I (S.code.pool.exec (startWith s₀) run).1.value := by
  obtain ⟨hg, hp⟩ := serializes hv
  generalize S.code.pool.exec (startWith s₀) run = c at hg hp
  have hbase : ∀ {visits : List (Visit ι Q A R)} {s : σ}, S.Serial s₀ visits s → I s := by
    intro visits s h
    induction h with
    | start => exact h₀
    | @visit visits v s s' h hv hend ih =>
      have hJ := Machine.exec_invariant hstep (henter s v.request ih) hv
      rw [hend] at hJ
      exact hvalue _ hJ
  cases howner : c.1.owner with
  | none =>
    rw [hg.2 howner]
    exact hbase hg.1
  | some t =>
    obtain ⟨q, as, next, _, hv, hexec⟩ := (hp t).of_owner howner
    have hJ := Machine.exec_invariant hstep (henter c.1.base q (hbase hg.1)) hv
    rw [hexec] at hJ
    exact hvalue _ hJ

end Serializing

end Sections

end RlLibrary.Foundation
