import RlLibrary.Sys.ProcPath

namespace RlLibrary.Sys

open Foundation

def DirRight (b : Buffer) (len : ℕ) (p : ExePath) : Prop :=
  let r := rlGetProcDir (some b) len (some p.path)
  (r.1 = RL_SUCCESS → ∃ b', r.2 = some b' ∧ b'.Holds p.directory) ∧
    (len ≤ p.directory.length → r.1 = RL_FAILED)

def FileRight (b : Buffer) (len : ℕ) (file : CString) (p : ExePath) : Prop :=
  let r := rlGetFileAbsPath b len (some file) (some p.path)
  (r.1 = RL_SUCCESS → r.2.Holds (p.directory ++ 47 :: file.bytes)) ∧
    (len ≤ (p.directory ++ 47 :: file.bytes).length → r.1 = RL_FAILED)

section Cut

variable {p : ExePath} {m : ℕ}

theorem path_head (p : ExePath) : p.path.bytes.head? = some 47 := by
  obtain ⟨k, hk⟩ := Nat.exists_eq_add_one_of_ne_zero (Nat.ne_of_gt p.separated)
  rcases p.rooted with hroot | hroot
  · simp [ExePath.path, hroot, hk, List.replicate_succ]
  · have hne : p.dir ≠ [] := by
      intro h
      simp [h] at hroot
    simp only [ExePath.path, List.append_assoc, List.head?_append_of_ne_nil _ hne, hroot]

theorem cut_head (hm : 0 < m) : (p.path.bytes.take m).head? = some 47 := by
  rw [List.head?_take, if_neg (Nat.ne_of_gt hm), path_head]

theorem cut_length_le (hm : 0 < m) : (dirname (p.path.bytes.take m)).length ≤ m :=
  (dirname_length_le (cut_head hm)).trans (List.length_take_le _ _)

theorem cut_nonzero (m : ℕ) : 0 ∉ dirname (p.path.bytes.take m) :=
  dirname_nonzero fun h => p.path.nonzero (List.mem_of_mem_take h)

theorem take_named (h : p.dir.length + p.slashes < m) : ∃ name, name ≠ [] ∧ 47 ∉ name ∧
    p.path.bytes.take m = p.dir ++ List.replicate p.slashes 47 ++ name := by
  refine ⟨p.name.take (m - (p.dir.length + p.slashes)), ?_, fun hmem =>
    p.plain (List.mem_of_mem_take hmem), ?_⟩
  · rw [ne_eq, List.take_eq_nil_iff, not_or]
    exact ⟨by omega, p.named⟩
  · have hfront : (p.dir ++ List.replicate p.slashes 47).length ≤ m := by
      rw [List.length_append, List.length_replicate]
      omega
    rw [ExePath.path, List.take_append, List.take_of_length_le hfront, List.length_append,
      List.length_replicate]

theorem take_slashes (hlow : p.dir.length ≤ m) (hhigh : m ≤ p.dir.length + p.slashes) :
    p.path.bytes.take m = p.dir ++ List.replicate (m - p.dir.length) 47 := by
  have hcut : m ≤ (p.dir ++ List.replicate p.slashes 47).length := by
    rw [List.length_append, List.length_replicate]
    exact hhigh
  rw [ExePath.path, List.take_append_of_le_length hcut, List.take_append,
    List.take_of_length_le hlow, List.take_replicate, Nat.min_eq_left (by omega)]

theorem dirname_reached (hm : 0 < m) (h : p.Reaches (m + 1)) :
    dirname (p.path.bytes.take m) = p.directory := by
  by_cases hname : p.dir.length + p.slashes < m
  · obtain ⟨name, hne, hplain, htake⟩ := take_named hname
    rw [htake, dirname_named p.closed p.separated hne hplain, ExePath.directory]
  · obtain ⟨hroot, htwo⟩ := h.resolve_left hname
    rw [Nat.add_sub_cancel] at htwo
    have htake := take_slashes (p := p) (m := m) (by simp [hroot]) (Nat.not_lt.mp hname)
    rw [htake, hroot, List.nil_append, List.length_nil, Nat.sub_zero, dirname_slashes hm,
      ExePath.directory, if_pos hroot, rootName, rootName]
    simp only [htwo]

theorem dirname_unreached (hm : 0 < m) (h : ¬ p.Reaches (m + 1)) (hdir : p.dir ≠ []) :
    (dirname (p.path.bytes.take m)).length < p.directory.length := by
  have hname : m ≤ p.dir.length + p.slashes := Nat.not_lt.mp fun hlt => h (Or.inl hlt)
  rw [ExePath.directory, if_neg hdir]
  by_cases hlow : p.dir.length ≤ m
  · rw [take_slashes hlow hname]
    exact dirname_shorter (p.rooted.resolve_left hdir) p.closed _
  · exact (cut_length_le hm).trans_lt (Nat.not_le.mp hlow)

theorem dirname_unreached_root (hm : 0 < m) (h : ¬ p.Reaches (m + 1)) (hroot : p.dir = []) :
    dirname (p.path.bytes.take m) ≠ p.directory := by
  have hname : m ≤ p.dir.length + p.slashes := Nat.not_lt.mp fun hlt => h (Or.inl hlt)
  have htwo : ¬ (m = 2 ↔ p.slashes = 2) := fun htwo => h (Or.inr ⟨hroot, htwo⟩)
  rw [take_slashes (by simp [hroot]) hname, hroot, List.nil_append, List.length_nil, Nat.sub_zero,
    dirname_slashes hm, ExePath.directory, if_pos hroot, rootName, rootName]
  split_ifs
  · omega
  · decide
  · decide
  · omega

theorem dirname_cut_iff (hm : 0 < m) :
    dirname (p.path.bytes.take m) = p.directory ↔ p.Reaches (m + 1) := by
  refine ⟨fun heq => ?_, dirname_reached hm⟩
  by_contra h
  by_cases hroot : p.dir = []
  · exact dirname_unreached_root hm h hroot heq
  · have hlt := dirname_unreached hm h hroot
    rw [heq] at hlt
    exact Nat.lt_irrefl _ hlt

end Cut

section Calls

variable {p : ExePath} {b : Buffer} {len : ℕ}

theorem rlGetProcDir_cut (b : Buffer) (hlen : 1 < len) (p : ExePath) :
    rlGetProcDir (some b) len (some p.path) =
      (RL_SUCCESS, some (b.snprintf len (dirname (p.path.bytes.take (len - 1))))) := by
  have hzero : ¬ len = 0 := by omega
  have hone : ¬ len - 1 = 0 := by omega
  simp only [rlGetProcDir, readlink, hzero, hone, ↓reduceIte, Option.map_some]

theorem dir_right_iff (b : Buffer) (hlen : 1 ≤ len) (p : ExePath) :
    DirRight b len p ↔ len = 1 ∨ p.Reaches len := by
  rcases Nat.lt_or_eq_of_le hlen with hlen | rfl
  · have hm : 0 < len - 1 := by omega
    have hsucc : len - 1 + 1 = len := by omega
    have hcut := dirname_cut_iff (p := p) hm
    have hfits := cut_length_le (p := p) hm
    have hheld := Buffer.snprintf_holds b (Nat.lt_of_succ_lt hlen) (cut_nonzero (p := p) (len - 1))
    rw [List.take_of_length_le hfits] at hheld
    rw [hsucc] at hcut
    rw [DirRight, rlGetProcDir_cut b hlen, or_iff_right (by omega), ← hcut]
    constructor
    · rintro ⟨hright, _⟩
      obtain ⟨b', hb', hdir⟩ := hright rfl
      rw [← Option.some.inj hb'] at hdir
      rw [← hheld.string, hdir.string]
    · intro heq
      rw [heq] at hheld hfits ⊢
      refine ⟨fun _ => ⟨_, rfl, hheld⟩, fun hbig => ?_⟩
      omega
  · refine iff_of_true ⟨fun hcode => ?_, fun _ => rfl⟩ (Or.inl rfl)
    exact absurd hcode failed_ne_success

theorem rlGetFileAbsPath_cut (b : Buffer) (len : ℕ) (file : CString) (p : ExePath) :
    rlGetFileAbsPath b len (some file) (some p.path) =
      (RL_SUCCESS, b.snprintf len (dirname (p.path.bytes.take 511) ++ 47 :: file.bytes)) := by
  have hsize : 0 < 512 := by decide
  have hheld := Buffer.snprintf_holds ⟨List.replicate 512 0, []⟩ hsize (cut_nonzero (p := p) 511)
  have hfits : (dirname (p.path.bytes.take 511)).length ≤ 512 - 1 := cut_length_le (by decide)
  rw [List.take_of_length_le hfits] at hheld
  simp only [rlGetFileAbsPath, rlGetProcDir_cut _ (show 1 < 512 by decide), failed_ne_success.symm, ↓reduceIte]
  rw [hheld.string]

theorem reaches_root (hroot : p.dir = []) : p.Reaches 512 := by
  by_cases hslashes : p.slashes < 511
  · left
    rw [hroot, List.length_nil]
    omega
  · exact Or.inr ⟨hroot, by omega⟩

theorem file_right_iff (b : Buffer) (hlen : 1 ≤ len) (file : CString) (p : ExePath) :
    FileRight b len file p ↔
      p.Reaches 512 ∧ (p.directory ++ 47 :: file.bytes).length < len := by
  have hcut := dirname_cut_iff (p := p) (m := 511) (by decide)
  have hnonzero : 0 ∉ dirname (p.path.bytes.take 511) ++ 47 :: file.bytes := by
    simp [cut_nonzero, file.nonzero]
  have hheld := Buffer.snprintf_holds b (Nat.lt_of_succ_le hlen) hnonzero
  rw [FileRight, rlGetFileAbsPath_cut]
  constructor
  · rintro ⟨hright, hbig⟩
    have hroom : (p.directory ++ 47 :: file.bytes).length < len := by
      by_contra hfull
      have hsuccess : RL_SUCCESS = RL_FAILED := hbig (Nat.not_lt.mp hfull)
      exact absurd hsuccess (by decide)
    refine ⟨?_, hroom⟩
    by_contra hunreached
    have hdir : p.dir ≠ [] := fun hroot => hunreached (reaches_root hroot)
    have hshort := dirname_unreached (by decide) hunreached hdir
    have hsame := hheld.string.symm.trans (hright rfl).string
    have hlength := congrArg List.length hsame
    simp only [List.length_take, List.length_append] at hlength
    omega
  · rintro ⟨hreached, hroom⟩
    rw [hcut.mpr hreached] at hheld ⊢
    rw [List.take_of_length_le (by omega)] at hheld
    refine ⟨fun _ => hheld, fun hbig => ?_⟩
    omega

/-- The directory comes out whole if and only if the part of the path that fits reaches into
the file name, and the path of a file if and only if 512 bytes do and the result fits. -/
theorem program_paths_iff (b b' : Buffer) (len : ℕ) (file : CString) (p : ExePath)
    (hlen : 1 ≤ len) :
    (DirRight b len p ↔ len = 1 ∨ p.Reaches len) ∧
      (FileRight b' len file p ↔
        p.Reaches 512 ∧ (p.directory ++ 47 :: file.bytes).length < len) :=
  ⟨dir_right_iff b hlen p, file_right_iff b' hlen file p⟩

def runPath : ExePath where
  dir := text "/opt/app"
  slashes := 1
  name := text "run"
  rooted := by decide
  closed := by decide
  separated := by decide
  named := by decide
  plain := by decide
  nonzero := by decide

def logFile : CString := ⟨text "x.log", by decide⟩

theorem program_paths_iff_run :
    (DirRight ⟨List.replicate 20 7, []⟩ 20 runPath ↔ 20 = 1 ∨ runPath.Reaches 20) ∧
      (FileRight ⟨List.replicate 20 7, []⟩ 20 logFile runPath ↔
        runPath.Reaches 512 ∧ (runPath.directory ++ 47 :: logFile.bytes).length < 20) :=
  program_paths_iff _ _ 20 logFile runPath (by decide)

theorem cut_path_misleads :
    ¬ DirRight ⟨List.replicate 9 7, []⟩ 9 runPath ∧
      (rlGetProcDir (some ⟨List.replicate 9 7, []⟩) 9 (some runPath.path)).2.map
        (fun b => b.string.bytes) = some (text "/opt") := by
  refine ⟨?_, by decide⟩
  rw [dir_right_iff _ (by decide)]
  decide

end Calls

end RlLibrary.Sys
