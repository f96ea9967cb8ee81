import Mathlib.Data.List.Chain
import RlLibrary.Foundation.Machine
import RlLibrary.Sys.CpuUsage

namespace RlLibrary.Sys

open Foundation

structure Grows (p s : Sample) : Prop where
  user : p.user.toNat ≤ s.user.toNat
  nice : p.nice.toNat ≤ s.nice.toNat
  system : p.system.toNat ≤ s.system.toNat
  idle : p.idle.toNat ≤ s.idle.toNat
  iowait : p.iowait.toNat ≤ s.iowait.toNat
  irq : p.irq.toNat ≤ s.irq.toNat
  softirq : p.softirq.toNat ≤ s.softirq.toNat
  slow : 1000 * (s.total - p.total) < 2 ^ 64

def permille (p s : Sample) : ℕ :=
  if s.total - p.total = 0 then 0 else 1000 * (s.busy - p.busy) / (s.total - p.total)

def cpuCalls : Machine CpuUsage (StatEnv × Option Sample) where
  enabled _ c := Reads c.1 c.2
  next tracker c := (rlGetCpuUsage c.1 tracker).2

def lastSample (run : List (StatEnv × Option Sample)) : Option Sample :=
  (run.filterMap Prod.snd).getLast?

def Answers (last : Option Sample) (tracker : CpuUsage) :
    Option Sample → ℤ × CpuUsage → Prop
  | none, r => r = (RL_FAILED, tracker)
  | some s, r =>
    match last with
    | none => r.1 = 0
    | some p => r.1 = permille p s ∧ 0 ≤ r.1 ∧ r.1 ≤ 1000

section Growth

variable {p s : Sample}

theorem Grows.busy_le (h : Grows p s) : p.busy ≤ s.busy := by
  have := h.user
  have := h.nice
  have := h.system
  have := h.irq
  have := h.softirq
  simp only [Sample.busy]
  omega

theorem Grows.waiting_le (h : Grows p s) : p.waiting ≤ s.waiting := by
  have := h.idle
  have := h.iowait
  simp only [Sample.waiting]
  omega

theorem Grows.total_eq (h : Grows p s) :
    s.total - p.total = (s.busy - p.busy) + (s.waiting - p.waiting) := by
  have := h.busy_le
  have := h.waiting_le
  simp only [Sample.total]
  omega

theorem permille_le (h : Grows p s) : permille p s ≤ 1000 := by
  rw [permille]
  split_ifs with hsame
  · omega
  · rw [Nat.div_le_iff_le_mul_add_pred (Nat.pos_of_ne_zero hsame), h.total_eq]
    omega

theorem wrapped_difference {a b : ℕ} (hab : a ≤ b) (hsmall : b - a < 2 ^ 64) :
    (BitVec.ofNat 64 b - BitVec.ofNat 64 a).toNat = b - a := by
  obtain ⟨d, rfl⟩ := Nat.exists_eq_add_of_le hab
  have hcancel : BitVec.ofNat 64 (a + d) - BitVec.ofNat 64 a = BitVec.ofNat 64 d := by
    rw [BitVec.ofNat_add, BitVec.add_comm, BitVec.add_sub_cancel]
  rw [hcancel, BitVec.toNat_ofNat]
  omega

theorem Grows.total_difference (h : Grows p s) :
    (s.tracker.lastTotal - p.tracker.lastTotal).toNat = s.total - p.total := by
  have hslow := h.slow
  apply wrapped_difference
  · have hbusy := h.busy_le
    have hwaiting := h.waiting_le
    simp only [Sample.total]
    omega
  · omega

theorem Grows.busy_difference (h : Grows p s) :
    (s.tracker.lastTotal - p.tracker.lastTotal -
      (s.tracker.lastIdle - p.tracker.lastIdle)).toNat = s.busy - p.busy := by
  have hslow := h.slow
  have htotal := h.total_eq
  have hgrowth := h.total_difference
  have hidle : (s.tracker.lastIdle - p.tracker.lastIdle).toNat = s.waiting - p.waiting := by
    apply wrapped_difference h.waiting_le
    omega
  rw [BitVec.toNat_sub_of_le (by rw [BitVec.le_def]; omega)]
  omega

theorem Grows.quotient (h : Grows p s) (hsame : s.total - p.total ≠ 0) :
    ((s.tracker.lastTotal - p.tracker.lastTotal -
      (s.tracker.lastIdle - p.tracker.lastIdle)) * 1000 /
        (s.tracker.lastTotal - p.tracker.lastTotal)).toNat = permille p s := by
  have hslow := h.slow
  have htotal := h.total_eq
  have hthousand : BitVec.toNat (1000 : BitVec 64) = 1000 := rfl
  rw [BitVec.toNat_udiv, BitVec.toNat_mul, h.busy_difference, h.total_difference, hthousand,
    permille, if_neg hsame, Nat.mul_comm, Nat.mod_eq_of_lt (by omega)]

theorem report_permille (h : Grows p s) : report p.tracker s.tracker = permille p s := by
  have hle := permille_le h
  have hgrowth := h.total_difference
  have hvalid : ¬ p.tracker.valid = false := by simp [Sample.tracker]
  rw [report, if_neg hvalid]
  by_cases hsame : s.total - p.total = 0
  · have hzero : s.tracker.lastTotal - p.tracker.lastTotal = 0 := by
      apply BitVec.eq_of_toNat_eq
      rw [hgrowth, hsame]
      rfl
    rw [if_pos hzero, permille, if_pos hsame]
    rfl
  · have hzero : ¬ s.tracker.lastTotal - p.tracker.lastTotal = 0 := by
      intro hzero
      rw [hzero] at hgrowth
      exact hsame hgrowth.symm
    have hquotient := h.quotient hsame
    rw [if_neg hzero, BitVec.toInt_eq_toNat_of_lt, BitVec.toNat_setWidth, hquotient]
    · congr 1
      exact Nat.mod_eq_of_lt (by omega)
    · rw [BitVec.toNat_setWidth, hquotient, Nat.mod_eq_of_lt (by omega)]
      omega

end Growth

section Runs

variable {tracker : CpuUsage} {run : List (StatEnv × Option Sample)}

theorem tracker_exec (h : ∀ c ∈ run, Reads c.1 c.2) :
    cpuCalls.exec tracker run = ((lastSample run).map Sample.tracker).getD tracker := by
  induction run using List.reverseRecOn with
  | nil => rfl
  | append_singleton run c ih =>
    obtain ⟨env, outcome⟩ := c
    have hlast := h _ (List.mem_append_right run (List.mem_singleton_self (env, outcome)))
    have hrun := ih fun d hd => h d (List.mem_append_left _ hd)
    rw [Machine.exec_append, hrun]
    cases outcome with
    | none =>
      have hfailed : (rlGetCpuUsage env (((lastSample run).map Sample.tracker).getD tracker)).2 = _ :=
        congrArg Prod.snd (rlGetCpuUsage_failed hlast _)
      simpa [cpuCalls, lastSample] using hfailed
    | some s =>
      have hread : (rlGetCpuUsage env (((lastSample run).map Sample.tracker).getD tracker)).2 = _ :=
        congrArg Prod.snd (rlGetCpuUsage_read hlast _)
      simpa [cpuCalls, lastSample] using hread

/-- Over a whole run each call reports the growth since the most recent sample, the first one
reports 0, and a call that fails changes nothing. -/
theorem cpu_usage_over_runs (tracker : CpuUsage) (run : List (StatEnv × Option Sample))
    (hvalid : tracker.valid = false) (hreads : ∀ c ∈ run, Reads c.1 c.2)
    (hgrows : (run.filterMap Prod.snd).IsChain Grows) :
    ∀ pre env outcome, pre ++ [(env, outcome)] <+: run →
      Answers (lastSample pre) (cpuCalls.exec tracker pre) outcome
        (rlGetCpuUsage env (cpuCalls.exec tracker pre)) := by
  intro pre env outcome hpre
  have hcall : Reads env outcome := hreads (env, outcome) (hpre.subset (by simp))
  have hbefore : ∀ c ∈ pre, Reads c.1 c.2 :=
    fun c hc => hreads c (hpre.subset (List.mem_append_left _ hc))
  cases outcome with
  | none => exact rlGetCpuUsage_failed hcall _
  | some s =>
    rw [rlGetCpuUsage_read hcall, tracker_exec hbefore]
    cases hlast : lastSample pre with
    | none =>
      simp [Answers, report, hvalid]
    | some p =>
      have hchain : (pre.filterMap Prod.snd ++ [s]).IsChain Grows := by
        have hprefix := hpre.filterMap Prod.snd
        rw [List.filterMap_append] at hprefix
        exact hgrows.prefix hprefix
      have hstep : Grows p s :=
        (List.isChain_append.mp hchain).2.2 p hlast s rfl
      have hle := permille_le hstep
      simp only [Answers, Option.map_some, Option.getD_some, report_permille hstep, true_and]
      omega

def reading (s : Sample) : StatEnv := ⟨true, procStat s [] [], true, fun _ => 0⟩

def unreadable : StatEnv := ⟨false, [], true, fun _ => 0⟩

def startSample : Sample := ⟨10, 0, 5, 100, 0, 0, 0⟩

def laterSample : Sample := ⟨12, 0, 6, 101, 0, 0, 0⟩

theorem cpu_usage_over_runs_failure :
    Answers (lastSample [(reading startSample, some startSample), (unreadable, none)])
      (cpuCalls.exec ⟨0, 0, false⟩ [(reading startSample, some startSample), (unreadable, none)])
      (some laterSample)
      (rlGetCpuUsage (reading laterSample) (cpuCalls.exec ⟨0, 0, false⟩
        [(reading startSample, some startSample), (unreadable, none)])) := by
  apply cpu_usage_over_runs ⟨0, 0, false⟩ ([(reading startSample, some startSample),
    (unreadable, none)] ++ [(reading laterSample, some laterSample)]) rfl
  · intro c hc
    simp only [List.cons_append, List.nil_append, List.mem_cons, List.not_mem_nil, or_false] at hc
    rcases hc with rfl | rfl | rfl
    · exact reads_procStat rfl rfl startSample (by decide) [] rfl
    · exact Or.inl rfl
    · exact reads_procStat rfl rfl laterSample (by decide) [] rfl
  · have hgrows : Grows startSample laterSample := by
      constructor <;> decide
    simpa using hgrows
  · exact List.prefix_rfl

end Runs

end RlLibrary.Sys
