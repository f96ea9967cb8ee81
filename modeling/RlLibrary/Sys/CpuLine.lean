import RlLibrary.Sys.CpuUsage

namespace RlLibrary.Sys

open Foundation

def lineCounters (line : List Byte) : List Scanned := sscanf cpuFormat (CString.ofBuffer line).bytes

def LineDecides (line read : List Byte) (tracker : CpuUsage) : Prop :=
  (∀ stack stack', rlGetCpuUsage ⟨true, read, true, stack⟩ tracker =
      rlGetCpuUsage ⟨true, read, true, stack'⟩ tracker) ∧
    ((lineCounters line).length < 7 → ∀ stack,
      rlGetCpuUsage ⟨true, read, true, stack⟩ tracker = (RL_FAILED, tracker))

section Line

variable {line more read : List Byte} {tracker : CpuUsage}

theorem rlGetCpuUsage_accepts (hline : fgets 256 read = some (line, more))
    (stack : ℕ → BitVec 64) (tracker : CpuUsage) :
    rlGetCpuUsage ⟨true, read, true, stack⟩ tracker ≠ (RL_FAILED, tracker) := by
  intro h
  simp only [rlGetCpuUsage, hline, Bool.true_eq_false, ↓reduceIte] at h
  split_ifs at h with hvalid hsame
  · have hcode : (0 : ℤ) = RL_FAILED := congrArg Prod.fst h
    exact absurd hcode (by decide)
  · have hcode : (0 : ℤ) = RL_FAILED := congrArg Prod.fst h
    exact absurd hcode (by decide)
  · -- an unchanged tracker would mean that no time has passed
    have htotal := congrArg (fun r => r.2.lastTotal) h
    simp only at htotal
    apply hsame
    rw [htotal, BitVec.sub_self]
    rfl

theorem lineCounters_length_le (line : List Byte) : (lineCounters line).length ≤ 7 :=
  sscanf_length_le cpuFormat _

theorem lineCounters_numbers : ∀ v ∈ lineCounters line, ∃ n, v = .number n :=
  fun _ hv => sscanf_numbers (by simp [cpuFormat]) hv

theorem rlGetCpuUsage_stack (hline : fgets 256 read = some (line, more))
    (hseven : (lineCounters line).length = 7) (stack stack' : ℕ → BitVec 64) :
    rlGetCpuUsage ⟨true, read, true, stack⟩ tracker =
      rlGetCpuUsage ⟨true, read, true, stack'⟩ tracker := by
  have hassigned (i : ℕ) (hi : i < 7) : assigned (lineCounters line) i (stack i) =
      assigned (lineCounters line) i (stack' i) :=
    assigned_of_lt lineCounters_numbers (hseven ▸ hi) _ _
  rw [lineCounters] at hassigned
  simp only [rlGetCpuUsage, hline, hassigned 0 (by decide), hassigned 1 (by decide),
    hassigned 2 (by decide), hassigned 3 (by decide), hassigned 4 (by decide),
    hassigned 5 (by decide), hassigned 6 (by decide)]

theorem line_decides_iff (line more read : List Byte) (tracker : CpuUsage)
    (hline : fgets 256 read = some (line, more)) :
    LineDecides line read tracker ↔ (lineCounters line).length = 7 := by
  constructor
  · rintro ⟨_, hrefused⟩
    by_contra hseven
    have hfew : (lineCounters line).length < 7 :=
      Nat.lt_of_le_of_ne (lineCounters_length_le line) hseven
    exact rlGetCpuUsage_accepts hline (fun _ => 0) tracker (hrefused hfew _)
  · intro hseven
    exact ⟨rlGetCpuUsage_stack hline hseven, fun hfew => absurd hseven (Nat.ne_of_lt hfew)⟩

theorem line_decides_iff_sample :
    LineDecides (text "cpu 1 0 2 30 4 0 0\n") (text "cpu 1 0 2 30 4 0 0\n") ⟨0, 0, false⟩ ↔
      (lineCounters (text "cpu 1 0 2 30 4 0 0\n")).length = 7 :=
  line_decides_iff _ [] _ ⟨0, 0, false⟩ (by decide)

theorem short_line_accepted :
    ¬ LineDecides (text "cpu 1 2\n") (text "cpu 1 2\n") ⟨0, 0, false⟩ ∧
      rlGetCpuUsage ⟨true, text "cpu 1 2\n", true, fun _ => 5⟩ ⟨0, 0, false⟩ =
        (0, ⟨28, 10, true⟩) := by
  refine ⟨fun h => ?_, by decide⟩
  have hrefused := h.2 (by decide) fun _ => 0
  exact absurd hrefused (by decide)

end Line

end RlLibrary.Sys
