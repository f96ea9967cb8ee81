import RlLibrary.Foundation.Resources
import RlLibrary.Sys.CpuUsage
import RlLibrary.Sys.Status
import RlLibrary.Sys.Temperature

namespace RlLibrary.Sys

open Foundation Traced Eth

inductive Handle where
  | file
  | temperature
  | directory
  deriving DecidableEq, Repr

section Files

def tracedCpuUsage (env : StatEnv) (tracker : CpuUsage) : Traced Handle (ℤ × CpuUsage) :=
  if env.fopen = false then pure (RL_FAILED, tracker) else do
  acquire .file
  use .file
  match fgets 256 env.read with
  | none => do
    release .file
    pure (RL_FAILED, tracker)
  | some _ => do
    release .file
    -- the line is worked out when the file is closed
    pure (rlGetCpuUsage env tracker)

def tracedCpuTemperature (env : TemperatureEnv) : Traced Handle ℤ :=
  if env.opened = false then pure RL_FAILED else do
  acquire .temperature
  use .temperature
  if env.read = [] then do
    release .temperature
    pure RL_FAILED
  else do
    release .temperature
    pure (convertTemperature (filled env.read env.stack)).value.temperature

def tracedStatusLoop : List (List Byte) → Traced Handle ℤ
  | [] => do
    use .file
    release .file
    pure RL_FAILED
  | line :: lines => do
    use .file
    match vmRss line with
    | none => tracedStatusLoop lines
    | some memoryUsage => do
      release .file
      pure memoryUsage

def tracedMemoryUsage (status : Option (List Byte)) : Traced Handle ℤ :=
  match status with
  | none => pure RL_FAILED
  | some file => do
    acquire .file
    tracedStatusLoop (fileLines 256 file)

def tracedProcName (name : Option Buffer) (len : ℕ) (comm : Option (List Byte)) :
    Traced Handle (ℤ × Option Buffer) :=
  match name with
  | none => pure (RL_FAILED, name)
  | some b =>
    if len = 0 then pure (RL_FAILED, name) else
    match comm with
    | none => pure (RL_FAILED, name)
    | some file => do
      acquire .file
      use .file
      match fgets len file with
      | none => do
        release .file
        pure (RL_FAILED, name)
      | some (line, _) => do
        let b := b.strcpy line
        let b := b.set (b.string.bytes.takeWhile fun c => c ≠ 10).length 0
        release .file
        pure (RL_SUCCESS, some b)

theorem tracedCpuUsage_value (env : StatEnv) (tracker : CpuUsage) :
    (tracedCpuUsage env tracker).value = rlGetCpuUsage env tracker := by
  cases hopen : env.fopen with
  | false => simp only [tracedCpuUsage, rlGetCpuUsage, hopen, ↓reduceIte]; rfl
  | true =>
    cases hread : fgets 256 env.read with
    | none => simp only [tracedCpuUsage, rlGetCpuUsage, hopen, hread, Bool.true_eq_false, ↓reduceIte]; rfl
    | some line => simp only [tracedCpuUsage, hopen, hread, Bool.true_eq_false, ↓reduceIte]; rfl

theorem tracedCpuTemperature_value (env : TemperatureEnv) :
    (tracedCpuTemperature env).value = (rlGetCpuTemperature env).value := by
  rw [tracedCpuTemperature, rlGetCpuTemperature]
  split_ifs <;> rfl

theorem tracedStatusLoop_value (lines : List (List Byte)) :
    (tracedStatusLoop lines).value = (lines.findSome? vmRss).getD RL_FAILED := by
  induction lines with
  | nil => rfl
  | cons line lines ih =>
    rw [tracedStatusLoop, bind_value, List.findSome?_cons]
    cases vmRss line with
    | none => exact ih
    | some memoryUsage => rfl

theorem tracedMemoryUsage_value (status : Option (List Byte)) :
    (tracedMemoryUsage status).value = rlGetMemoryUsage status := by
  cases status with
  | none => rfl
  | some file =>
    rw [tracedMemoryUsage, bind_value, tracedStatusLoop_value, rlGetMemoryUsage]
    cases (fileLines 256 file).findSome? vmRss <;> rfl

theorem tracedProcName_value (name : Option Buffer) (len : ℕ) (comm : Option (List Byte)) :
    (tracedProcName name len comm).value = rlGetProcName name len comm := by
  cases name with
  | none => rfl
  | some b =>
    simp only [tracedProcName, rlGetProcName]
    split_ifs
    · rfl
    · cases comm with
      | none => rfl
      | some file =>
        simp only [bind_value]
        cases fgets len file <;> rfl

theorem cpuUsage_releasesAll (env : StatEnv) (tracker : CpuUsage) :
    (tracedCpuUsage env tracker).ReleasesAll := by
  apply Keeps.ite (keeps_pure _ _)
  apply Keeps.acquire
  apply Keeps.use_only
  cases fgets 256 env.read with
  | none => exact keeps_leave _ _
  | some line => exact keeps_leave _ _

theorem cpuTemperature_releasesAll (env : TemperatureEnv) : (tracedCpuTemperature env).ReleasesAll := by
  apply Keeps.ite (keeps_pure _ _)
  apply Keeps.acquire
  apply Keeps.use_only
  exact Keeps.ite (keeps_leave _ _) (keeps_leave _ _)

theorem keeps_tracedStatusLoop (lines : List (List Byte)) :
    (tracedStatusLoop lines).Keeps [.file] [] := by
  induction lines with
  | nil => exact (keeps_leave _ _).use_only
  | cons line lines ih =>
    apply Keeps.use_only
    cases vmRss line with
    | none => exact ih
    | some memoryUsage => exact keeps_leave _ _

theorem memoryUsage_releasesAll (status : Option (List Byte)) : (tracedMemoryUsage status).ReleasesAll := by
  cases status with
  | none => exact keeps_pure _ _
  | some file => exact (keeps_tracedStatusLoop _).acquire

theorem procName_releasesAll (name : Option Buffer) (len : ℕ) (comm : Option (List Byte)) :
    (tracedProcName name len comm).ReleasesAll := by
  cases name with
  | none => exact keeps_pure _ _
  | some b =>
    apply Keeps.ite (keeps_pure _ _)
    cases comm with
    | none => exact keeps_pure _ _
    | some file =>
      apply Keeps.acquire
      apply Keeps.use_only
      cases fgets len file with
      | none => exact keeps_leave _ _
      | some line => exact keeps_leave _ _

end Files

section Count

/-- The names that `readdir` gives one after the other, and whether the directory can be opened and
closed. -/
structure FdEnv where
  opendir : Bool
  readdir : List (List Byte)
  closedir : Bool
  deriving DecidableEq

def fdLoop : List (List Byte) → ℤ → Traced Handle ℤ
  | [], count => do
    use .directory
    pure count
  | dName :: entries, count => do
    use .directory
    fdLoop entries (if dName.head? ≠ some 46 then count + 1 else count)

def rlGetFdCount (env : FdEnv) : Traced Handle ℤ :=
  if env.opendir = false then pure RL_FAILED else do
  acquire .directory
  let count ← fdLoop env.readdir 0
  release .directory
  if env.closedir = false then pure RL_FAILED else pure count

def ListsDescriptors (names : List (List Byte)) (n : ℕ) : Prop :=
  ∃ fds : List ℕ, fds.length = n ∧ names.Perm (text "." :: text ".." :: fds.map decimal)

theorem fdLoop_value (names : List (List Byte)) (count : ℤ) :
    (fdLoop names count).value = count + (names.countP fun name => name.head? ≠ some 46 : ℕ) := by
  induction names generalizing count with
  | nil => simp [fdLoop, bind_value, pure]
  | cons name names ih =>
    rw [fdLoop, bind_value, ih]
    by_cases h : name.head? = some 46
    · rw [List.countP_cons_of_neg (by simp [h]), if_neg (by simp [h])]
    · rw [List.countP_cons_of_pos (by simp [h]), if_pos h]
      omega

theorem keeps_fdLoop (names : List (List Byte)) (count : ℤ) :
    (fdLoop names count).Keeps [.directory] [.directory] := by
  induction names generalizing count with
  | nil => exact (keeps_pure _ _).use_only
  | cons name names ih => exact (ih _).use_only

theorem fdCount_releasesAll (env : FdEnv) : (rlGetFdCount env).ReleasesAll := by
  apply Keeps.ite (keeps_pure _ _)
  apply Keeps.acquire
  apply (keeps_fdLoop _ _).bind [.directory]
  apply Keeps.release_only
  exact Keeps.ite (keeps_pure _ _) (keeps_pure _ _)

theorem decimal_not_hidden (n : ℕ) : (decimal n).head? ≠ some 46 := by
  intro h
  have hmem := List.mem_of_mem_head? h
  exact absurd (decimal_digits hmem) (by decide)

theorem rlGetFdCount_lists {env : FdEnv} (hopen : env.opendir = true) (hclose : env.closedir = true)
    {n : ℕ} (hlist : ListsDescriptors env.readdir n) : (rlGetFdCount env).value = n := by
  obtain ⟨fds, rfl, hperm⟩ := hlist
  have hall : (fds.map decimal).countP (fun name => name.head? ≠ some 46) = fds.length := by
    rw [List.countP_eq_length.mpr, List.length_map]
    intro name hname
    obtain ⟨fd, _, rfl⟩ := List.mem_map.mp hname
    exact decide_eq_true (decimal_not_hidden fd)
  have hcount : env.readdir.countP (fun name => name.head? ≠ some 46) = fds.length := by
    rw [hperm.countP_eq, List.countP_cons_of_neg (by decide), List.countP_cons_of_neg (by decide), hall]
  simp only [rlGetFdCount, hopen, hclose, Bool.true_eq_false, ↓reduceIte, bind_value, fdLoop_value, hcount,
    Int.zero_add]
  rfl

end Count

end RlLibrary.Sys
