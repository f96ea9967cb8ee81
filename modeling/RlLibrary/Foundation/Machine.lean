import Mathlib.Data.List.Induction
import Mathlib.Order.Basic

/-!
Guarded deterministic machines. The label of a step carries every choice of the
environment, so a run is a list of labels and its state is a fold.
-/

namespace RlLibrary.Foundation

structure Machine (σ ι : Type*) where
  enabled : σ → ι → Prop
  next : σ → ι → σ

namespace Machine

variable {σ τ ι κ ω : Type*}

def exec (M : Machine σ ι) (s : σ) (is : List ι) : σ := is.foldl M.next s

def Valid (M : Machine σ ι) : σ → List ι → Prop
  | _, [] => True
  | s, i :: is => M.enabled s i ∧ M.Valid (M.next s i) is

instance decidableValid (M : Machine σ ι) [∀ s i, Decidable (M.enabled s i)] :
    (s : σ) → (is : List ι) → Decidable (M.Valid s is)
  | _, [] => .isTrue trivial
  | s, i :: is =>
    haveI := decidableValid M (M.next s i) is
    inferInstanceAs (Decidable (_ ∧ _))

def replies (M : Machine σ ι) (reply : σ → ι → ω) : σ → List ι → List ω
  | _, [] => []
  | s, i :: is => reply s i :: M.replies reply (M.next s i) is

/-- What the steps of a run come to on another machine. -/
def labels (M : Machine σ ι) (label : σ → ι → Option κ) : σ → List ι → List κ
  | _, [] => []
  | s, i :: is => (label s i).toList ++ M.labels label (M.next s i) is

def Reachable (M : Machine σ ι) (s₀ s : σ) : Prop := ∃ is, M.Valid s₀ is ∧ M.exec s₀ is = s

def restrict (M : Machine σ ι) (g : σ → ι → Prop) : Machine σ ι :=
  ⟨fun s i => M.enabled s i ∧ g s i, M.next⟩

@[simp] theorem exec_nil (M : Machine σ ι) (s : σ) : M.exec s [] = s := rfl

@[simp] theorem exec_cons (M : Machine σ ι) (s : σ) (i : ι) (is : List ι) :
    M.exec s (i :: is) = M.exec (M.next s i) is := rfl

theorem exec_append (M : Machine σ ι) (s : σ) (is js : List ι) :
    M.exec s (is ++ js) = M.exec (M.exec s is) js := List.foldl_append ..

@[simp] theorem restrict_next (M : Machine σ ι) (g : σ → ι → Prop) :
    (M.restrict g).next = M.next := rfl

theorem restrict_exec (M : Machine σ ι) (g : σ → ι → Prop) (s : σ) (is : List ι) :
    (M.restrict g).exec s is = M.exec s is := rfl

theorem restrict_replies (M : Machine σ ι) (g : σ → ι → Prop) (reply : σ → ι → ω) (s : σ)
    (is : List ι) : (M.restrict g).replies reply s is = M.replies reply s is := by
  induction is generalizing s with
  | nil => rfl
  | cons i is ih => simp only [replies, ih, restrict_next]

theorem restrict_labels (M : Machine σ ι) (g : σ → ι → Prop) (label : σ → ι → Option κ) (s : σ)
    (is : List ι) : (M.restrict g).labels label s is = M.labels label s is := by
  induction is generalizing s with
  | nil => rfl
  | cons i is ih => simp only [labels, ih, restrict_next]

theorem valid_restrict (M : Machine σ ι) {g : σ → ι → Prop}
    (hg : ∀ s i, M.enabled s i → g s i) {s : σ} {is : List ι} :
    (M.restrict g).Valid s is ↔ M.Valid s is := by
  induction is generalizing s with
  | nil => exact Iff.rfl
  | cons i is ih =>
    have hfirst : (M.restrict g).enabled s i ↔ M.enabled s i := and_iff_left_of_imp (hg s i)
    exact and_congr hfirst ih

theorem valid_of_enabled (M : Machine σ ι) (henabled : ∀ s i, M.enabled s i) (s : σ) (is : List ι) :
    M.Valid s is := by
  induction is generalizing s with
  | nil => trivial
  | cons i is ih => exact ⟨henabled s i, ih _⟩

theorem labels_append (M : Machine σ ι) (label : σ → ι → Option κ) (s : σ) (is js : List ι) :
    M.labels label s (is ++ js) = M.labels label s is ++ M.labels label (M.exec s is) js := by
  induction is generalizing s with
  | nil => rfl
  | cons i is ih => simp only [List.cons_append, labels, exec_cons, ih, List.append_assoc]

theorem valid_append (M : Machine σ ι) (s : σ) (is js : List ι) :
    M.Valid s (is ++ js) ↔ M.Valid s is ∧ M.Valid (M.exec s is) js := by
  induction is generalizing s with
  | nil => simp [Valid]
  | cons i is ih => simp only [List.cons_append, Valid, exec_cons, ih, and_assoc]

theorem valid_of_prefix (M : Machine σ ι) {s : σ} {pre is : List ι} (hpre : pre <+: is)
    (hv : M.Valid s is) : M.Valid s pre := by
  obtain ⟨rest, rfl⟩ := hpre
  exact ((M.valid_append s pre rest).mp hv).1

theorem exec_invariant {M : Machine σ ι} {P : σ → Prop}
    (hstep : ∀ s i, P s → M.enabled s i → P (M.next s i)) {s : σ} {is : List ι}
    (hs : P s) (hv : M.Valid s is) : P (M.exec s is) := by
  induction is generalizing s with
  | nil => exact hs
  | cons i is ih => exact ih (hstep s i hs hv.1) hv.2

/-- What can only get lost, and by certain steps, is there at the end if it was there at the beginning
and none of these steps was taken. -/
theorem exec_iff {M : Machine σ ι} {I P : σ → Prop} {Q : σ → ι → Prop}
    (hI : ∀ s i, I s → M.enabled s i → I (M.next s i))
    (hP : ∀ s i, I s → M.enabled s i → (P (M.next s i) ↔ P s ∧ Q s i)) {s : σ} {is : List ι}
    (hs : I s) (hv : M.Valid s is) :
    P (M.exec s is) ↔ P s ∧ ∀ pre i, pre ++ [i] <+: is → Q (M.exec s pre) i := by
  induction is generalizing s with
  | nil => simp
  | cons i is ih =>
    rw [exec_cons, ih (hI s i hs hv.1) hv.2, hP s i hs hv.1, and_assoc]
    refine and_congr_right fun _ => ⟨fun h pre j hpre => ?_, fun h => ⟨h [] i ⟨is, rfl⟩, fun pre j hpre => ?_⟩⟩
    · cases pre with
      | nil =>
        obtain ⟨rfl, _⟩ := List.cons_prefix_cons.mp hpre
        exact h.1
      | cons k pre =>
        obtain ⟨rfl, hrest⟩ := List.cons_prefix_cons.mp hpre
        exact h.2 pre j hrest
    · exact h (i :: pre) j (List.cons_prefix_cons.mpr ⟨rfl, hpre⟩)

theorem prefix_invariant (M : Machine σ ι) {P : σ → Prop} {s : σ} {is : List ι} (hs : P s)
    (hstep : ∀ pre i, pre ++ [i] <+: is → P (M.exec s pre) → P (M.next (M.exec s pre) i)) :
    ∀ pre, pre <+: is → P (M.exec s pre) := by
  intro pre hpre
  induction pre using List.reverseRecOn with
  | nil => exact hs
  | append_singleton pre i ih =>
    have hbefore := ih ((List.prefix_append _ _).trans hpre)
    rw [exec_append]
    exact hstep pre i hpre hbefore

theorem Reachable.invariant {M : Machine σ ι} {P : σ → Prop} {s₀ s : σ}
    (hstep : ∀ s i, P s → M.enabled s i → P (M.next s i)) (h₀ : P s₀)
    (h : M.Reachable s₀ s) : P s := by
  obtain ⟨is, hv, rfl⟩ := h
  exact exec_invariant hstep h₀ hv

theorem Reachable.refl (M : Machine σ ι) (s : σ) : M.Reachable s s := ⟨[], trivial, rfl⟩

theorem Reachable.exec {M : Machine σ ι} {s₀ s : σ} {is : List ι} (h : M.Reachable s₀ s)
    (hv : M.Valid s is) : M.Reachable s₀ (M.exec s is) := by
  obtain ⟨js, hj, rfl⟩ := h
  exact ⟨js ++ is, (M.valid_append _ _ _).mpr ⟨hj, hv⟩, M.exec_append _ _ _⟩

theorem simulate {M : Machine σ ι} {N : Machine τ ι} {R : σ → τ → Prop}
    (hstep : ∀ s t i, R s t → M.enabled s i → R (M.next s i) (N.next t i))
    {s : σ} {t : τ} {is : List ι} (hR : R s t) (hv : M.Valid s is) :
    R (M.exec s is) (N.exec t is) := by
  induction is generalizing s t with
  | nil => exact hR
  | cons i is ih => exact ih (hstep s t i hR hv.1) hv.2

/-- Simulation by part of the run: the other machine takes the same labels, but for some that are
not visible. -/
theorem simulate_erased {M : Machine σ ι} {N : Machine τ ι} {R : σ → τ → Prop} {visible : ι → Bool}
    (hstep : ∀ s t i, R s t → M.enabled s i →
      (visible i = false ∧ R (M.next s i) t) ∨ (N.enabled t i ∧ R (M.next s i) (N.next t i)))
    {s : σ} {t : τ} {is : List ι} (hR : R s t) (hv : M.Valid s is) :
    ∃ js, js.Sublist is ∧ js.filter visible = is.filter visible ∧ N.Valid t js ∧
      R (M.exec s is) (N.exec t js) := by
  induction is generalizing s t with
  | nil => exact ⟨[], .slnil, rfl, trivial, hR⟩
  | cons i is ih =>
    rcases hstep s t i hR hv.1 with ⟨hi, hnext⟩ | ⟨he, hnext⟩
    · obtain ⟨js, hsub, hfilter, hvalid, hend⟩ := ih hnext hv.2
      refine ⟨js, hsub.cons i, ?_, hvalid, hend⟩
      rw [hfilter, List.filter_cons_of_neg (by simp [hi])]
    · obtain ⟨js, hsub, hfilter, hvalid, hend⟩ := ih hnext hv.2
      refine ⟨i :: js, hsub.cons_cons i, ?_, ⟨he, hvalid⟩, hend⟩
      rw [List.filter_cons, List.filter_cons, hfilter]

theorem exec_labels {M : Machine σ ι} {N : Machine τ κ} {I : σ → Prop} {view : σ → τ}
    {label : σ → ι → Option κ} (hI : ∀ s i, I s → M.enabled s i → I (M.next s i))
    (hsilent : ∀ s i, I s → M.enabled s i → label s i = none → view (M.next s i) = view s)
    (hshown : ∀ s i e, I s → M.enabled s i → label s i = some e →
      N.enabled (view s) e ∧ view (M.next s i) = N.next (view s) e)
    {s : σ} {is : List ι} (hs : I s) (hv : M.Valid s is) :
    N.Valid (view s) (M.labels label s is) ∧
      view (M.exec s is) = N.exec (view s) (M.labels label s is) := by
  induction is generalizing s with
  | nil => exact ⟨trivial, rfl⟩
  | cons i is ih =>
    obtain ⟨hvalid, hend⟩ := ih (hI s i hs hv.1) hv.2
    rw [labels, exec_cons]
    cases hlabel : label s i with
    | none =>
      have hsame := hsilent s i hs hv.1 hlabel
      rw [hsame] at hvalid hend
      exact ⟨hvalid, hend⟩
    | some e =>
      obtain ⟨henabled, hnext⟩ := hshown s i e hs hv.1 hlabel
      rw [hnext] at hvalid hend
      exact ⟨⟨henabled, hvalid⟩, hend⟩

theorem labels_filterMap (M : Machine σ ι) (label : σ → ι → Option κ) (f : κ → Option ω) (s : σ)
    (is : List ι) :
    (M.labels label s is).filterMap f = M.labels (fun s i => (label s i).bind f) s is := by
  induction is generalizing s with
  | nil => rfl
  | cons i is ih =>
    rw [labels, labels, List.filterMap_append, ih]
    cases hlabel : label s i with
    | none => rfl
    | some e => cases hf : f e <;> simp [hf]

theorem labels_in_order {M : Machine σ ι} {kept : σ → List κ} {arrival departure : σ → ι → Option κ}
    (hstep : ∀ s i, M.enabled s i →
      kept s ++ (arrival s i).toList = (departure s i).toList ++ kept (M.next s i))
    {s : σ} {is : List ι} (hv : M.Valid s is) :
    kept s ++ M.labels arrival s is = M.labels departure s is ++ kept (M.exec s is) := by
  induction is generalizing s with
  | nil => exact List.append_nil _
  | cons i is ih =>
    rw [labels, labels, exec_cons, ← List.append_assoc, hstep s i hv.1, List.append_assoc, ih hv.2,
      List.append_assoc]

theorem simulate_replies {M : Machine σ ι} {N : Machine τ ι} {R : σ → τ → Prop}
    {f : σ → ι → ω} {g : τ → ι → ω}
    (hstep : ∀ s t i, R s t → M.enabled s i → R (M.next s i) (N.next t i))
    (hreply : ∀ s t i, R s t → M.enabled s i → f s i = g t i)
    {s : σ} {t : τ} {is : List ι} (hR : R s t) (hv : M.Valid s is) :
    M.replies f s is = N.replies g t is := by
  induction is generalizing s t with
  | nil => rfl
  | cons i is ih =>
    have hhead := hreply s t i hR hv.1
    have htail := ih (hstep s t i hR hv.1) hv.2
    simp only [replies, hhead, htail]

end Machine

end RlLibrary.Foundation
