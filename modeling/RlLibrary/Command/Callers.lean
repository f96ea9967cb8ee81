import RlLibrary.Command.Arrivals
import RlLibrary.Foundation.Swapping

/-!
Several threads of one process in `rl_system_100ms_ex` at the same time. Each has a mask of its own, but
the dispositions that it sets aside and puts back belong to all of them.
-/

namespace RlLibrary.Command

open Foundation

inductive Stage where
  | outside
  | intIgnored
  | quitIgnored
  | chldBlocked
  | attempts
  | unblocked
  | chldBack
  | intBack
  deriving DecidableEq

structure Caller where
  stage : Stage
  saveintr : Disposition
  savequit : Disposition
  oldHandler : Handler
  savemask : Finset Signal
  mask : Finset Signal

structure Callers (θ : Type*) where
  disposition : Signal → Disposition
  caller : θ → Caller

variable {θ : Type*}

def AllOutside (s : Callers θ) : Prop := ∀ i, (s.caller i).stage = .outside

inductive Guarded where
  | int
  | quit
  | chld
  deriving DecidableEq

namespace Guarded

def signal : Guarded → Signal
  | .int => SIGINT
  | .quit => SIGQUIT
  | .chld => SIGCHLD

def during : Guarded → Disposition
  | .int => ignored
  | .quit => ignored
  | .chld => .bsd SIGCHLD .default

/-- As much of a disposition as is set aside: of SIGCHLD only the handler. -/
def shown : Guarded → Disposition → Disposition
  | .int, d => d
  | .quit, d => d
  | .chld, d => .bsd SIGCHLD d.handler

def kept (g : Guarded) (c : Caller) : Option Disposition :=
  match g, c.stage with
  | .int, .outside => none
  | .int, .intBack => none
  | .int, _ => some c.saveintr
  | .quit, .outside => none
  | .quit, .intIgnored => none
  | .quit, _ => some c.savequit
  | .chld, .attempts => some (.bsd SIGCHLD c.oldHandler)
  | .chld, .unblocked => some (.bsd SIGCHLD c.oldHandler)
  | .chld, _ => none

def swap (g : Guarded) (stage : Stage) (i : θ) : Option (Swap θ) :=
  match g, stage with
  | .int, .outside => some (.swapIn i)
  | .int, .chldBack => some (.putBack i)
  | .quit, .intIgnored => some (.swapIn i)
  | .quit, .intBack => some (.putBack i)
  | .chld, .chldBlocked => some (.swapIn i)
  | .chld, .unblocked => some (.putBack i)
  | _, _ => none

def label (g : Guarded) (s : Callers θ) (i : θ) : Option (Swap θ) := g.swap (s.caller i).stage i

def cell (g : Guarded) (s : Callers θ) : SharedCell θ Disposition :=
  ⟨g.shown (s.disposition g.signal), fun i => g.kept (s.caller i)⟩

end Guarded

section Cells

variable {s : Callers θ}

theorem kept_outside (g : Guarded) {c : Caller} (h : c.stage = .outside) : g.kept c = none := by
  cases g <;> simp [Guarded.kept, h]

theorem cell_outside (g : Guarded) (hout : AllOutside s) (i : θ) : (g.cell s).found i = none :=
  kept_outside g (hout i)

theorem swap_cases (g : Guarded) (stage : Stage) (i : θ) :
    g.swap stage i = none ∨ g.swap stage i = some (.swapIn i) ∨ g.swap stage i = some (.putBack i) := by
  cases g <;> cases stage <;> simp [Guarded.swap]

end Cells

variable [DecidableEq θ]

namespace Callers

def view (s : Callers θ) (i : θ) : SignalState := ⟨s.disposition, (s.caller i).mask⟩

def put (s : Callers θ) (i : θ) (signals : SignalState) (c : Caller) : Callers θ :=
  ⟨signals.disposition, Function.update s.caller i { c with mask := signals.blocked }⟩

/-- The next call of a thread, which succeeds; between the fourth and the fifth lie its attempts. -/
def step (s : Callers θ) (i : θ) : Callers θ :=
  let c := s.caller i
  let v := s.view i
  match c.stage with
  | .outside => s.put i (v.sigaction true SIGINT ignored)
      { c with stage := .intIgnored, saveintr := v.disposition SIGINT }
  | .intIgnored => s.put i (v.sigaction true SIGQUIT ignored)
      { c with stage := .quitIgnored, savequit := v.disposition SIGQUIT }
  | .quitIgnored => s.put i (v.block true SIGCHLD)
      { c with stage := .chldBlocked, savemask := v.blocked }
  | .chldBlocked => s.put i (v.signal SIGCHLD .default)
      { c with stage := .attempts, oldHandler := (v.disposition SIGCHLD).handler }
  | .attempts => s.put i (v.setMask true c.savemask) { c with stage := .unblocked }
  | .unblocked => s.put i (v.signal SIGCHLD c.oldHandler) { c with stage := .chldBack }
  | .chldBack => s.put i (v.sigaction true SIGINT c.saveintr) { c with stage := .intBack }
  | .intBack => s.put i (v.sigaction true SIGQUIT c.savequit) { c with stage := .outside }

end Callers

def callers : Machine (Callers θ) θ where
  enabled _ _ := True
  next s i := s.step i

section Steps

variable {s : Callers θ} {i : θ} {g : Guarded}

theorem cell_put (g : Guarded) (s : Callers θ) (i : θ) (signals : SignalState) (c : Caller) :
    g.cell (s.put i signals c) = ⟨g.shown (signals.disposition g.signal),
      Function.update (g.cell s).found i (g.kept c)⟩ := by
  have hmask : g.kept { c with mask := signals.blocked } = g.kept c := by
    cases g <;> rfl
  simp only [Guarded.cell, Callers.put, SharedCell.mk.injEq, true_and]
  rw [← hmask]
  exact Function.comp_update g.kept s.caller i _

theorem put_unchanged {signals : SignalState} {c : Caller}
    (hd : signals.disposition g.signal = s.disposition g.signal) (hc : g.kept c = g.kept (s.caller i)) :
    g.cell (s.put i signals c) = g.cell s := by
  rw [cell_put, hd, hc]
  exact congrArg (SharedCell.mk _) (Function.update_eq_self i _)

theorem put_swapIn {signals : SignalState} {c : Caller}
    (hd : g.shown (signals.disposition g.signal) = g.during) (hout : g.kept (s.caller i) = none)
    (hc : g.kept c = some (g.shown (s.disposition g.signal))) :
    (swapping g.during).enabled (g.cell s) (.swapIn i) ∧
      g.cell (s.put i signals c) = (swapping g.during).next (g.cell s) (.swapIn i) := by
  refine ⟨hout, ?_⟩
  rw [cell_put, hd, hc]
  rfl

theorem put_putBack {signals : SignalState} {c : Caller} (d : Disposition)
    (hd : g.shown (signals.disposition g.signal) = d) (hin : g.kept (s.caller i) = some d)
    (hc : g.kept c = none) :
    (swapping g.during).enabled (g.cell s) (.putBack i) ∧
      g.cell (s.put i signals c) = (swapping g.during).next (g.cell s) (.putBack i) := by
  have hfound : (g.cell s).found i = some d := hin
  refine ⟨by simp [swapping, hfound], ?_⟩
  rw [cell_put, hd, hc]
  simp only [swapping, hfound, Option.getD_some]

theorem step_silent (h : g.label s i = none) : g.cell (s.step i) = g.cell s := by
  cases hstage : (s.caller i).stage <;> cases g <;>
    simp only [Guarded.label, Guarded.swap, hstage, reduceCtorEq] at h
  all_goals
    simp only [Callers.step, hstage]
    exact put_unchanged (by simp [Guarded.signal, Callers.view, int_ne_quit, int_ne_chld, quit_ne_chld,
      int_ne_quit.symm, int_ne_chld.symm, quit_ne_chld.symm]) (by simp [Guarded.kept, hstage])

theorem step_swapIn (h : g.label s i = some (.swapIn i)) :
    (swapping g.during).enabled (g.cell s) (.swapIn i) ∧
      g.cell (s.step i) = (swapping g.during).next (g.cell s) (.swapIn i) := by
  cases hstage : (s.caller i).stage <;> cases g <;>
    simp only [Guarded.label, Guarded.swap, hstage, reduceCtorEq, Option.some.injEq] at h
  all_goals
    simp only [Callers.step, hstage]
    exact put_swapIn (by simp [Guarded.shown, Guarded.signal, Guarded.during, Disposition.bsd])
      (by simp [Guarded.kept, hstage]) rfl

theorem step_putBack (h : g.label s i = some (.putBack i)) :
    (swapping g.during).enabled (g.cell s) (.putBack i) ∧
      g.cell (s.step i) = (swapping g.during).next (g.cell s) (.putBack i) := by
  cases hstage : (s.caller i).stage <;> cases g <;>
    simp only [Guarded.label, Guarded.swap, hstage, reduceCtorEq, Option.some.injEq] at h
  all_goals
    simp only [Callers.step, hstage]
    refine put_putBack _ ?_ (by simp [Guarded.kept, hstage]; rfl) rfl
    simp [Guarded.shown, Guarded.signal, Disposition.bsd]

theorem step_shown {e : Swap θ} (h : g.label s i = some e) :
    (swapping g.during).enabled (g.cell s) e ∧ g.cell (s.step i) = (swapping g.during).next (g.cell s) e := by
  rcases swap_cases g (s.caller i).stage i with hswap | hswap | hswap
  · rw [Guarded.label, hswap] at h
    cases h
  · obtain rfl : Swap.swapIn i = e := Option.some.inj (hswap.symm.trans h)
    exact step_swapIn hswap
  · obtain rfl : Swap.putBack i = e := Option.some.inj (hswap.symm.trans h)
    exact step_putBack hswap

end Steps

/-- A thread is about to put back what another one had installed, where already that is back which was
there before. -/
def Overtakes (g : Guarded) (before : Disposition) (s : Callers θ) (i : θ) : Prop :=
  g.swap (s.caller i).stage i = some (.putBack i) ∧ (g.cell s).value = before ∧
    g.kept (s.caller i) = some g.during

def Serial (s : Callers θ) (run : List θ) : Prop :=
  ∀ pre, pre <+: run → ∀ i j, ((callers.exec s pre).caller i).stage ≠ .outside →
    ((callers.exec s pre).caller j).stage ≠ .outside → i = j

section Runs

variable {s : Callers θ} {i : θ} {g : Guarded} {before : Disposition} {run : List θ}

theorem valid_run (s : Callers θ) (run : List θ) : callers.Valid s run :=
  Machine.valid_of_enabled _ (fun _ _ => trivial) s run

theorem exec_labels (s : Callers θ) (g : Guarded) (run : List θ) :
    (swapping g.during).Valid (g.cell s) (callers.labels g.label s run) ∧
      g.cell (callers.exec s run) = (swapping g.during).exec (g.cell s) (callers.labels g.label s run) :=
  Machine.exec_labels (I := fun _ => True) (fun _ _ _ _ => trivial) (fun _ _ _ _ h => step_silent h)
    (fun _ _ _ _ _ h => step_shown h) trivial (valid_run s run)

theorem sound_step (hne : before ≠ g.during) (h : (g.cell s).Sound g.during before) :
    (g.cell (s.step i)).Sound g.during before := by
  cases hlabel : g.label s i with
  | none => rwa [step_silent hlabel]
  | some e =>
    obtain ⟨henabled, hnext⟩ := step_shown hlabel
    rw [hnext]
    exact SharedCell.sound_next hne h henabled

theorem kept_step (hne : before ≠ g.during) (h : (g.cell s).Sound g.during before) :
    (g.cell (s.step i)).Kept before ↔ (g.cell s).Kept before ∧ ¬ Overtakes g before s i := by
  rcases swap_cases g (s.caller i).stage i with hswap | hswap | hswap
  · simp only [step_silent hswap, Overtakes, hswap, reduceCtorEq, false_and, not_false_eq_true, and_true]
  · obtain ⟨henabled, hnext⟩ := step_swapIn hswap
    rw [hnext, SharedCell.kept_next hne h henabled]
    simp only [SharedCell.Overwrites, Overtakes, hswap, Option.some.injEq, reduceCtorEq, false_and]
  · obtain ⟨henabled, hnext⟩ := step_putBack hswap
    rw [hnext, SharedCell.kept_next hne h henabled]
    simp only [SharedCell.Overwrites, Overtakes, hswap, true_and]
    rfl

theorem exec_kept (hne : before ≠ g.during) (h : (g.cell s).Sound g.during before) (run : List θ) :
    (g.cell (callers.exec s run)).Kept before ↔ (g.cell s).Kept before ∧
      ∀ pre i, pre ++ [i] <+: run → ¬ Overtakes g before (callers.exec s pre) i :=
  Machine.exec_iff (I := fun s => (g.cell s).Sound g.during before)
    (P := fun s => (g.cell s).Kept before) (Q := fun s i => ¬ Overtakes g before s i)
    (fun _ _ hs _ => sound_step hne hs) (fun _ _ hs _ => kept_step hne hs) h (valid_run s run)

theorem exec_among (hout : AllOutside s) (g : Guarded) (run : List θ) :
    (g.cell (callers.exec s run)).Among g.during (g.cell s).value := by
  obtain ⟨hvalid, hcell⟩ := exec_labels s g run
  have hstart := (SharedCell.sound_start g.during (cell_outside g hout)).toAmong
  rw [hcell]
  exact Machine.exec_invariant (fun _ _ h he => SharedCell.among_next h he) hstart hvalid

theorem serial_alone (hout : AllOutside s) (hserial : Serial s run) (g : Guarded) :
    ∀ pre, pre <+: run → (g.cell (callers.exec s pre)).Alone g.during (g.cell s).value := by
  apply callers.prefix_invariant (P := fun t => (g.cell t).Alone g.during (g.cell s).value)
    (Or.inl ⟨rfl, cell_outside g hout⟩)
  intro pre i hpre halone
  have hinside (k : θ) (hk : (g.cell (callers.exec s (pre ++ [i]))).found k ≠ none) :
      ((callers.exec s (pre ++ [i])).caller k).stage ≠ .outside :=
    fun h => hk (kept_outside g h)
  rw [Machine.exec_append] at hinside
  have hone := hserial (pre ++ [i]) hpre
  rw [Machine.exec_append] at hone
  change (g.cell ((callers.exec s pre).step i)).Alone _ _
  cases hlabel : g.label (callers.exec s pre) i with
  | none => rwa [step_silent hlabel]
  | some e =>
    obtain ⟨henabled, hnext⟩ := step_shown hlabel
    rw [hnext]
    refine SharedCell.alone_next halone henabled fun j k hj hk => ?_
    rw [← hnext] at hj hk
    exact hone j k (hinside j hj) (hinside k hk)

end Runs

section Masks

variable {s : Callers θ} {i j : θ} {m : Finset Signal}

def HasMask (m : Finset Signal) (c : Caller) : Prop :=
  match c.stage with
  | .chldBlocked => c.savemask = m
  | .attempts => c.savemask = m
  | _ => c.mask = m

theorem step_other (s : Callers θ) (hij : j ≠ i) : (s.step i).caller j = s.caller j := by
  cases hstage : (s.caller i).stage <;>
    simp only [Callers.step, hstage, Callers.put, Function.update_of_ne hij]

theorem mask_step (h : HasMask m (s.caller j)) : HasMask m ((s.step i).caller j) := by
  by_cases hij : j = i
  · subst hij
    cases hstage : (s.caller j).stage <;>
      simpa [HasMask, hstage, Callers.step, Callers.put, Callers.view, SignalState.setMask] using h
  · rwa [step_other s hij]

theorem exec_mask (hout : AllOutside s) (run : List θ) (i : θ) (hend : AllOutside (callers.exec s run)) :
    ((callers.exec s run).caller i).mask = (s.caller i).mask := by
  have hstart : HasMask (s.caller i).mask (s.caller i) := by simp [HasMask, hout i]
  have hmask := Machine.exec_invariant (P := fun t => HasMask (s.caller i).mask (t.caller i))
    (fun _ _ h _ => mask_step h) hstart (valid_run s run)
  simpa only [HasMask, hend i] using hmask

end Masks

section Restoring

variable {s : Callers θ} {run : List θ}

/-- When all calls have returned, each disposition is the one from the beginning or the one that the calls
install; it is the one from the beginning unless a call has put back what another had installed over it,
which cannot happen when no call begins before the one before it has ended. The masks always come back. -/
theorem callers_restore (s : Callers θ) (hout : AllOutside s) (run : List θ)
    (hend : AllOutside (callers.exec s run)) (g : Guarded) :
    let before := g.shown (s.disposition g.signal)
    let after := g.shown ((callers.exec s run).disposition g.signal)
    (after = before ∨ after = g.during) ∧
      (after = before ↔ before = g.during ∨
        ∀ pre i, pre ++ [i] <+: run → ¬ Overtakes g before (callers.exec s pre) i) ∧
      (Serial s run → after = before) ∧
      ∀ i, ((callers.exec s run).caller i).mask = (s.caller i).mask := by
  intro before after
  have hamong := exec_among hout g run
  have hkept := SharedCell.kept_out (a := before) (cell_outside g hend)
  refine ⟨hamong.value, ?_, fun hserial => ?_, fun i => exec_mask hout run i hend⟩
  · by_cases hne : before = g.during
    · refine iff_of_true ?_ (Or.inl hne)
      rcases hamong.value with hvalue | hvalue
      · exact hvalue
      · exact hvalue.trans hne.symm
    · have hiff := exec_kept hne (SharedCell.sound_start _ (cell_outside g hout)) run
      rw [hkept] at hiff
      have hstart : (g.cell s).Kept before := Or.inl rfl
      rw [or_iff_right hne]
      exact hiff.trans (and_iff_right hstart)
  · exact hkept.mp (SharedCell.alone_kept (serial_alone hout hserial g run List.prefix_rfl))

def idleThreads : Callers Bool := ⟨plainSignals.disposition, fun _ => ⟨.outside, ignored, ignored, .default, ∅, ∅⟩⟩

def nestedCalls : List Bool := List.replicate 3 true ++ List.replicate 8 false ++ List.replicate 5 true

theorem callers_restore_nested :
    let after := (callers.exec idleThreads nestedCalls).disposition SIGINT
    (after = idleThreads.disposition SIGINT ∨ after = ignored) ∧
      (after = idleThreads.disposition SIGINT ↔ idleThreads.disposition SIGINT = ignored ∨
        ∀ pre i, pre ++ [i] <+: nestedCalls →
          ¬ Overtakes .int (idleThreads.disposition SIGINT) (callers.exec idleThreads pre) i) ∧
      (Serial idleThreads nestedCalls → after = idleThreads.disposition SIGINT) ∧
      ∀ i, ((callers.exec idleThreads nestedCalls).caller i).mask = (idleThreads.caller i).mask :=
  callers_restore idleThreads (fun _ => rfl) nestedCalls (by rintro (_ | _) <;> rfl) .int

theorem exec_undisturbed (s : Callers θ) (i : θ) (hout : (s.caller i).stage = .outside) (status : BitVec 32) :
    (callers.exec s (List.replicate 8 i)).view i =
      (restore .allSucceed (s.view i) status (guarded (s.view i))).2 := by
  simp [callers, List.replicate, Callers.step, hout, Callers.put, Callers.view, restore, guarded,
    SignalAnswers.allSucceed, SignalState.sigaction, SignalState.signal, SignalState.block,
    SignalState.setMask, int_ne_quit.symm, int_ne_chld.symm, quit_ne_chld.symm]

end Restoring

section Overlap

/-- When one thread sets a disposition aside, then another one, and the first puts it back before the
other one does, the disposition is lost for good: whatever calls follow, SIGINT and SIGQUIT stay ignored
and SIGCHLD has no handler. -/
theorem overlap_loses (s : Callers θ) (hout : AllOutside s) (g : Guarded) (i j : θ) (hij : i ≠ j)
    (run later : List θ) (hcross : callers.labels g.label s run = SharedCell.crossing i j) :
    g.shown ((callers.exec s (run ++ later)).disposition g.signal) = g.during := by
  obtain ⟨hvalid, hcell⟩ := exec_labels s g (run ++ later)
  rw [Machine.labels_append, hcross] at hvalid hcell
  have hvalue := SharedCell.crossing_loses (cell_outside g hout) hij hvalid
  rw [← hcell] at hvalue
  exact hvalue

theorem overlap_loses_interrupt :
    (callers.exec idleThreads ((List.replicate 8 [true, false]).flatten ++ [])).disposition SIGINT = ignored :=
  overlap_loses idleThreads (fun _ => rfl) .int true false (by decide) _ [] rfl

end Overlap

end RlLibrary.Command
