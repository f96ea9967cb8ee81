import Mathlib.Algebra.Group.Int.Defs
import RlLibrary.Sys.CpuRuns

namespace RlLibrary.Sys

open Foundation

def grown (last now : ℤ) : ℕ := ((now - last) % 2 ^ 64).toNat

def totalGrown (last : CpuUsage) (s : Sample) : ℕ := grown last.lastTotal.toNat s.total

def busyGrown (last : CpuUsage) (s : Sample) : ℕ :=
  grown (last.lastTotal.toNat - last.lastIdle.toNat) s.busy

/-- The thousandfold of what was busy, as far as 64 bits tell, is at most 1000 times the total;
or it is so many times the total that the conversion to `int` cuts the excess off. -/
def ShareFits (last : CpuUsage) (s : Sample) : Prop :=
  totalGrown last s = 0 ∨ ∃ k, k * 2 ^ 32 * totalGrown last s ≤ 1000 * busyGrown last s % 2 ^ 64 ∧
    1000 * busyGrown last s % 2 ^ 64 < (k * 2 ^ 32 + 1001) * totalGrown last s

section Range

variable {last : CpuUsage} {s : Sample}

theorem totalGrown_eq (last : CpuUsage) (s : Sample) :
    (s.tracker.lastTotal - last.lastTotal).toNat = totalGrown last s := by
  have hlast := last.lastTotal.isLt
  simp only [totalGrown, grown, Sample.tracker, BitVec.toNat_sub, BitVec.toNat_ofNat]
  omega

theorem busyGrown_eq (last : CpuUsage) (s : Sample) :
    (s.tracker.lastTotal - last.lastTotal - (s.tracker.lastIdle - last.lastIdle)).toNat =
      busyGrown last s := by
  have htotal := last.lastTotal.isLt
  have hidle := last.lastIdle.isLt
  simp only [busyGrown, grown, Sample.tracker, Sample.total, BitVec.toNat_sub, BitVec.toNat_ofNat]
  omega

theorem int_range (q : BitVec 64) :
    (0 ≤ (q.setWidth 32).toInt ∧ (q.setWidth 32).toInt ≤ 1000) ↔ q.toNat % 2 ^ 32 ≤ 1000 := by
  rw [BitVec.toInt_eq_toNat_cond, BitVec.toNat_setWidth]
  have hlow : q.toNat % 2 ^ 32 < 2 ^ 32 := Nat.mod_lt _ (by decide)
  split_ifs with hsign
  · omega
  · omega

theorem quotient_window {n t : ℕ} (ht : 0 < t) :
    n / t % 2 ^ 32 ≤ 1000 ↔ ∃ k, k * 2 ^ 32 * t ≤ n ∧ n < (k * 2 ^ 32 + 1001) * t := by
  simp only [← Nat.le_div_iff_mul_le ht, ← Nat.div_lt_iff_lt_mul ht]
  constructor
  · intro h
    refine ⟨n / t / 2 ^ 32, ?_, ?_⟩ <;> omega
  · rintro ⟨k, hlow, hhigh⟩
    omega

theorem report_range (hvalid : last.valid = true) :
    (0 ≤ report last s.tracker ∧ report last s.tracker ≤ 1000) ↔ ShareFits last s := by
  have htotal := totalGrown_eq last s
  have hbusy := busyGrown_eq last s
  rw [report, if_neg (by simp [hvalid])]
  by_cases hsame : s.tracker.lastTotal - last.lastTotal = 0
  · rw [if_pos hsame]
    rw [hsame] at htotal
    exact iff_of_true ⟨by decide, by decide⟩ (Or.inl htotal.symm)
  · have hpos : 0 < totalGrown last s := by
      rw [← htotal]
      exact Nat.pos_of_ne_zero fun h => hsame (BitVec.eq_of_toNat_eq h)
    rw [if_neg hsame, int_range, BitVec.toNat_udiv, BitVec.toNat_mul, hbusy, htotal]
    have hthousand : BitVec.toNat (1000 : BitVec 64) = 1000 := rfl
    rw [hthousand, Nat.mul_comm, quotient_window hpos, ShareFits, or_iff_right (Nat.ne_of_gt hpos)]

theorem ShareFits.of_growth (hbusy : busyGrown last s ≤ totalGrown last s)
    (hslow : 1000 * busyGrown last s < 2 ^ 64) : ShareFits last s := by
  by_cases hsame : totalGrown last s = 0
  · exact Or.inl hsame
  · refine Or.inr ⟨0, by omega, ?_⟩
    rw [Nat.mod_eq_of_lt hslow]
    omega

theorem usage_permille_iff (env : StatEnv) (s : Sample) (tracker : CpuUsage)
    (hreads : Reads env (some s)) (hvalid : tracker.valid = true) :
    ((0 ≤ (rlGetCpuUsage env tracker).1 ∧ (rlGetCpuUsage env tracker).1 ≤ 1000) ↔
        ShareFits tracker s) ∧
      (busyGrown tracker s ≤ totalGrown tracker s → 1000 * busyGrown tracker s < 2 ^ 64 →
        ShareFits tracker s) := by
  refine ⟨?_, ShareFits.of_growth⟩
  rw [rlGetCpuUsage_read hreads]
  exact report_range hvalid

theorem usage_permille_iff_later :
    0 ≤ (rlGetCpuUsage (reading laterSample) startSample.tracker).1 ∧
      (rlGetCpuUsage (reading laterSample) startSample.tracker).1 ≤ 1000 := by
  obtain ⟨hiff, hgrowth⟩ := usage_permille_iff (reading laterSample) laterSample startSample.tracker
    (reads_procStat rfl rfl laterSample (by decide) [] rfl) rfl
  exact hiff.mpr (hgrowth (by decide) (by decide))

def waited : Sample := ⟨10, 0, 5, 100, 5, 0, 0⟩

def waitedLess : Sample := ⟨12, 0, 5, 100, 4, 0, 0⟩

theorem less_waiting_exceeds :
    Reads (reading waitedLess) (some waitedLess) ∧ waited.tracker.valid = true ∧
      (rlGetCpuUsage (reading waitedLess) waited.tracker).1 = 2000 := by
  have hreads : Reads (reading waitedLess) (some waitedLess) :=
    reads_procStat rfl rfl waitedLess (by decide) [] rfl
  refine ⟨hreads, rfl, ?_⟩
  rw [rlGetCpuUsage_read hreads]
  decide

end Range

end RlLibrary.Sys
