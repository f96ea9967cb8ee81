import RlLibrary.Memory.Report
import RlLibrary.Sys.Status

namespace RlLibrary.Memory

open Foundation Sys

def RL_MEM_TRACE_LOG_FILE_DIR : CString := ⟨text "../log/memory_trace", by decide⟩

def deinitAnswers (exe : Option CString) (comm : Option (List Byte)) (time : Option RlTime) (fopen : Bool) :
    DeinitAnswers :=
  let path := rlGetFileAbsPath ⟨List.replicate 1024 0, []⟩ 1024 (some RL_MEM_TRACE_LOG_FILE_DIR) exe
  let name := rlGetProcName (some ⟨List.replicate 32 0, []⟩) 32 comm
  { path := if path.1 = RL_FAILED then none else some path.2.string.bytes
    name := if name.1 = RL_FAILED then none else name.2.map fun b => b.string.bytes
    time := time
    fopen := fopen }

def reportPath (exe : Option CString) (name : List Byte) : Buffer :=
  let path := (rlGetFileAbsPath ⟨List.replicate 1024 0, []⟩ 1024 (some RL_MEM_TRACE_LOG_FILE_DIR) exe).2
  let used := path.string.bytes.length
  let remain := 1024 - used
  path.write used ((text "_" ++ name ++ text ".log").take (remain - 1) ++ [0])

section Path

variable {p : ExePath} {comm : List Byte}

def reportTo (dir name : List Byte) : List Byte :=
  dir ++ text "/../log/memory_trace_" ++ name ++ text ".log"

theorem tracePath_holds (p : ExePath) :
    let path := rlGetFileAbsPath ⟨List.replicate 1024 0, []⟩ 1024 (some RL_MEM_TRACE_LOG_FILE_DIR)
      (some p.path)
    path.1 = RL_SUCCESS ∧ path.2.Holds (dirname (p.path.bytes.take 511) ++ text "/../log/memory_trace") ∧
      ∀ i ∈ path.2.writes, i < 1024 := by
  have hdir : (dirname (p.path.bytes.take 511)).length ≤ 511 := cut_length_le (by decide)
  have hfile : text "/../log/memory_trace" = 47 :: RL_MEM_TRACE_LOG_FILE_DIR.bytes := rfl
  have hsize : (text "/../log/memory_trace").length = 20 := rfl
  have hzero : 0 ∉ text "/../log/memory_trace" := by decide
  have hnonzero : 0 ∉ dirname (p.path.bytes.take 511) ++ text "/../log/memory_trace" := by
    simp [cut_nonzero, hzero]
  have hholds := Buffer.snprintf_holds ⟨List.replicate 1024 0, []⟩ (show 0 < 1024 by decide) hnonzero
  have hfits : (dirname (p.path.bytes.take 511) ++ text "/../log/memory_trace").length ≤ 1024 - 1 := by
    rw [List.length_append, hsize]
    omega
  rw [List.take_of_length_le hfits] at hholds
  intro path
  have hpath : path = (RL_SUCCESS, (Buffer.mk (List.replicate 1024 0) []).snprintf 1024
      (dirname (p.path.bytes.take 511) ++ text "/../log/memory_trace")) := by
    rw [hfile]
    exact rlGetFileAbsPath_cut _ 1024 RL_MEM_TRACE_LOG_FILE_DIR p
  rw [hpath]
  refine ⟨rfl, hholds, fun i hi => ?_⟩
  exact (Buffer.mem_snprintf_writes (by decide) hi).resolve_left List.not_mem_nil

theorem reportPath_strcat (p : ExePath) (comm : List Byte) :
    let path := (rlGetFileAbsPath ⟨List.replicate 1024 0, []⟩ 1024 (some RL_MEM_TRACE_LOG_FILE_DIR)
      (some p.path)).2
    reportPath (some p.path) (nameOf 32 comm) = path.strcat (text "_" ++ nameOf 32 comm ++ text ".log") ∧
      path.string.bytes.length + (text "_" ++ nameOf 32 comm ++ text ".log").length < 1024 := by
  intro path
  obtain ⟨_, hholds, _⟩ := tracePath_holds p
  have hdir : (dirname (p.path.bytes.take 511)).length ≤ 511 := cut_length_le (by decide)
  have hname := nameOf_length_le 32 comm
  have hused : path.string.bytes.length ≤ 531 := by
    have hsize : (text "/../log/memory_trace").length = 20 := rfl
    rw [hholds.string, List.length_append, hsize]
    omega
  have hback : (text "_" ++ nameOf 32 comm ++ text ".log").length ≤ 36 := by
    have hfront : (text "_").length = 1 := rfl
    have hend : (text ".log").length = 4 := rfl
    rw [List.length_append, List.length_append, hfront, hend]
    omega
  refine ⟨?_, by omega⟩
  change path.write path.string.bytes.length
    ((text "_" ++ nameOf 32 comm ++ text ".log").take (1024 - path.string.bytes.length - 1) ++ [0]) = _
  rw [List.take_of_length_le (by omega)]
  rfl

theorem reportPath_holds (p : ExePath) (comm : List Byte) :
    (reportPath (some p.path) (nameOf 32 comm)).Holds
        (reportTo (dirname (p.path.bytes.take 511)) (nameOf 32 comm)) ∧
      ∀ i ∈ (reportPath (some p.path) (nameOf 32 comm)).writes, i < 1024 := by
  obtain ⟨_, hholds, hwrites⟩ := tracePath_holds p
  obtain ⟨hreport, hroom⟩ := reportPath_strcat p comm
  have hzero : 0 ∉ text "_" ++ nameOf 32 comm ++ text ".log" := by
    have hfront : 0 ∉ text "_" := by decide
    have hend : 0 ∉ text ".log" := by decide
    simp [hfront, hend, nameOf_nonzero]
  rw [hreport]
  refine ⟨?_, fun i hi => ?_⟩
  · have happended := hholds.strcat hzero
    have hjoin : text "/../log/memory_trace_" = text "/../log/memory_trace" ++ text "_" := rfl
    simp only [List.append_assoc] at happended
    simpa only [reportTo, hjoin, List.append_assoc] using happended
  · rw [Buffer.strcat, Buffer.mem_write_writes, List.length_append, List.length_singleton] at hi
    rcases hi with hi | hrange
    · exact hwrites i hi
    · omega

theorem deinitAnswers_read (p : ExePath) (hcomm : comm ≠ []) (time : Option RlTime) (fopen : Bool) :
    deinitAnswers (some p.path) (some comm) time fopen =
      ⟨some (dirname (p.path.bytes.take 511) ++ text "/../log/memory_trace"), some (nameOf 32 comm), time,
        fopen⟩ := by
  obtain ⟨hcode, hholds, _⟩ := tracePath_holds p
  obtain ⟨b, hread, hheld, _⟩ := rlGetProcName_read ⟨List.replicate 32 0, []⟩ (show 0 < 32 by decide) hcomm
  simp only [deinitAnswers, hcode, hread, failed_ne_success.symm, ↓reduceIte, Option.map_some, hholds.string,
    hheld.string]

/-- However long the path of the program and the name of the process are, the path of the report fits
into its array and is not cut, so that `rl_memory_trace_deinit` does not fail for it; the report goes to
the directory of the program if and only if the program's path reached into its file name. -/
theorem report_path_whole (p : ExePath) (hcomm : comm ≠ []) (time : RlTime) :
    (deinitAnswers (some p.path) (some comm) (some time) true).Succeeds time ∧
      (reportPath (some p.path) (nameOf 32 comm)).Holds
        (reportTo (dirname (p.path.bytes.take 511)) (nameOf 32 comm)) ∧
      (∀ i ∈ (reportPath (some p.path) (nameOf 32 comm)).writes, i < 1024) ∧
      ((reportPath (some p.path) (nameOf 32 comm)).Holds (reportTo p.directory (nameOf 32 comm)) ↔
        p.Reaches 512) := by
  obtain ⟨hreport, hwrites⟩ := reportPath_holds p comm
  have hdir : (dirname (p.path.bytes.take 511)).length ≤ 511 := cut_length_le (by decide)
  have hsize : (text "/../log/memory_trace").length = 20 := rfl
  refine ⟨?_, hreport, hwrites, ?_⟩
  · rw [deinitAnswers_read p hcomm]
    refine ⟨⟨_, rfl, ?_, ?_⟩, Option.some_ne_none _, rfl, rfl⟩
    · exact List.append_ne_nil_of_right_ne_nil _ (by decide)
    · rw [List.length_append, hsize]
      omega
  · rw [← dirname_cut_iff (show 0 < 511 by decide)]
    constructor
    · intro h
      have hsame := h.string.symm.trans hreport.string
      rw [reportTo, reportTo] at hsame
      exact (List.append_cancel_right (List.append_cancel_right (List.append_cancel_right hsame))).symm
    · intro h
      rwa [h] at hreport

theorem report_path_whole_run :
    (deinitAnswers (some runPath.path) (some (text "run\n")) (some .zero) true).Succeeds .zero ∧
      (reportPath (some runPath.path) (nameOf 32 (text "run\n"))).Holds
        (reportTo (dirname (runPath.path.bytes.take 511)) (nameOf 32 (text "run\n"))) ∧
      (∀ i ∈ (reportPath (some runPath.path) (nameOf 32 (text "run\n"))).writes, i < 1024) ∧
      ((reportPath (some runPath.path) (nameOf 32 (text "run\n"))).Holds
        (reportTo runPath.directory (nameOf 32 (text "run\n"))) ↔ runPath.Reaches 512) :=
  report_path_whole runPath (by decide) .zero

end Path

end RlLibrary.Memory
