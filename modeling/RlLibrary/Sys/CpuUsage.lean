import RlLibrary.Foundation.Scan
import RlLibrary.Public

namespace RlLibrary.Sys

open Foundation

structure CpuUsage where
  lastTotal : BitVec 64
  lastIdle : BitVec 64
  valid : Bool
  deriving DecidableEq, Repr

/-- What the calls on `/proc/stat` answer (`read` is empty when the first read fails), and the
previous contents of the seven variables on the stack. -/
structure StatEnv where
  fopen : Bool
  read : List Byte
  fclose : Bool
  stack : ℕ → BitVec 64

def cpuFormat : List Directive :=
  -- "cpu %llu %llu %llu %llu %llu %llu %llu"
  (text "cpu").map .literal ++ (List.replicate 7 [Directive.blanks, .unsigned 10]).flatten

def rlGetCpuUsage (env : StatEnv) (tracker : CpuUsage) : ℤ × CpuUsage :=
  if env.fopen = false then (RL_FAILED, tracker) else
  match fgets 256 env.read with
  | none => (RL_FAILED, tracker)
  | some (buf, _) =>
    if env.fclose = false then (RL_FAILED, tracker) else
    let vs := sscanf cpuFormat (CString.ofBuffer buf).bytes
    let user := assigned vs 0 (env.stack 0)
    let nice := assigned vs 1 (env.stack 1)
    let system := assigned vs 2 (env.stack 2)
    let idle := assigned vs 3 (env.stack 3)
    let iowait := assigned vs 4 (env.stack 4)
    let irq := assigned vs 5 (env.stack 5)
    let softirq := assigned vs 6 (env.stack 6)
    let currIdle := idle + iowait
    let currTotal := user + nice + system + currIdle + irq + softirq
    if tracker.valid = false then (0, ⟨currTotal, currIdle, true⟩) else
    let totalDiff := currTotal - tracker.lastTotal
    let idleDiff := currIdle - tracker.lastIdle
    let tracker := ⟨currTotal, currIdle, tracker.valid⟩
    if totalDiff = 0 then (0, tracker) else
    -- the conversion to `int` keeps the low 32 bits
    ((((totalDiff - idleDiff) * 1000 / totalDiff).setWidth 32).toInt, tracker)

structure Sample where
  user : BitVec 64
  nice : BitVec 64
  system : BitVec 64
  idle : BitVec 64
  iowait : BitVec 64
  irq : BitVec 64
  softirq : BitVec 64
  deriving DecidableEq

namespace Sample

def counters (s : Sample) : List (BitVec 64) :=
  [s.user, s.nice, s.system, s.idle, s.iowait, s.irq, s.softirq]

def busy (s : Sample) : ℕ :=
  s.user.toNat + s.nice.toNat + s.system.toNat + s.irq.toNat + s.softirq.toNat

def waiting (s : Sample) : ℕ := s.idle.toNat + s.iowait.toNat

def total (s : Sample) : ℕ := s.busy + s.waiting

def tracker (s : Sample) : CpuUsage := ⟨.ofNat 64 s.total, .ofNat 64 s.waiting, true⟩

end Sample

inductive Fields : List (BitVec 64) → List Byte → Prop
  | last (rest : List Byte) (hrest : Stops (fun b => digit b < 10) rest) : Fields [] rest
  | next (gap : List Byte) (c : BitVec 64) (cs : List (BitVec 64)) (rest : List Byte)
      (hne : gap ≠ []) (hgap : ∀ b ∈ gap, isSpace b = true) (hrest : Fields cs rest) :
      Fields (c :: cs) (gap ++ (decimal c.toNat ++ rest))

def StatLine (s : Sample) (line : List Byte) : Prop :=
  ∃ rest, line = text "cpu" ++ rest ∧ Fields s.counters rest

def Reads (env : StatEnv) : Option Sample → Prop
  | none => env.fopen = false ∨ fgets 256 env.read = none ∨ env.fclose = false
  | some s => env.fopen = true ∧ env.fclose = true ∧
      ∃ line more, fgets 256 env.read = some (line, more) ∧ StatLine s (CString.ofBuffer line).bytes

section Scanning

theorem Fields.stops {cs : List (BitVec 64)} {rest : List Byte} (h : Fields cs rest) :
    Stops (fun b => digit b < 10) rest := by
  cases h with
  | last rest hrest => exact hrest
  | next gap c cs rest hne hgap hrest =>
    apply stops_append hne
    intro b hb
    apply decide_eq_false
    intro hdigit
    exact space_not_digit (hgap b hb) (hdigit.trans (by decide))

theorem Fields.blank {c : BitVec 64} {cs : List (BitVec 64)} {rest : List Byte}
    (h : Fields (c :: cs) rest) : Fields (c :: cs) (32 :: rest) := by
  cases h with
  | next gap _ _ rest hne hgap hrest =>
    refine .next (32 :: gap) c cs rest (List.cons_ne_nil _ _) (fun b hb => ?_) hrest
    rcases List.mem_cons.mp hb with rfl | hmem
    · decide
    · exact hgap b hmem

theorem sscanf_fields {cs : List (BitVec 64)} {rest : List Byte} (h : Fields cs rest) :
    sscanf (List.replicate cs.length [Directive.blanks, .unsigned 10]).flatten rest =
      cs.map .number := by
  induction h with
  | last rest hrest => rfl
  | next gap c cs rest hne hgap hrest ih =>
    have hstart : Stops isSpace (decimal c.toNat ++ rest) :=
      stops_append (decimal_ne_nil _) fun b hb => digit_not_space ((decimal_digits hb).trans (by decide))
    rw [List.length_cons, List.replicate_succ, List.flatten_cons]
    simp only [List.cons_append, List.nil_append, sscanf, List.dropWhile_append_of_pos hgap,
      hstart.dropWhile, readUnsigned_decimal c.isLt hrest.stops, ih, BitVec.ofNat_toNat, BitVec.setWidth_eq,
      List.map_cons]

theorem sscanf_statLine {s : Sample} {line : List Byte} (h : StatLine s line) :
    sscanf cpuFormat line = s.counters.map .number := by
  obtain ⟨rest, rfl, hfields⟩ := h
  rw [cpuFormat, sscanf_literal]
  exact sscanf_fields hfields

end Scanning

section Call

variable {env : StatEnv}

theorem rlGetCpuUsage_failed (h : Reads env none) (tracker : CpuUsage) :
    rlGetCpuUsage env tracker = (RL_FAILED, tracker) := by
  rcases h with h | h | h
  · simp only [rlGetCpuUsage, h, ↓reduceIte]
  · simp [rlGetCpuUsage, h]
  · cases hread : fgets 256 env.read <;> simp [rlGetCpuUsage, h, hread]

def report (last now : CpuUsage) : ℤ :=
  if last.valid = false then 0 else
  if now.lastTotal - last.lastTotal = 0 then 0 else
  (((now.lastTotal - last.lastTotal - (now.lastIdle - last.lastIdle)) * 1000 /
    (now.lastTotal - last.lastTotal)).setWidth 32).toInt

theorem rlGetCpuUsage_read {s : Sample} (h : Reads env (some s)) (tracker : CpuUsage) :
    rlGetCpuUsage env tracker = (report tracker s.tracker, s.tracker) := by
  obtain ⟨hopen, hclose, line, more, hread, hline⟩ := h
  have hidle : s.idle + s.iowait = s.tracker.lastIdle := by
    simp [Sample.tracker, Sample.waiting, BitVec.ofNat_add]
  have htotal : s.user + s.nice + s.system + s.tracker.lastIdle + s.irq + s.softirq =
      s.tracker.lastTotal := by
    simp only [Sample.tracker, Sample.total, Sample.busy, BitVec.ofNat_add, BitVec.ofNat_toNat,
      BitVec.setWidth_eq]
    ac_rfl
  have hscan : rlGetCpuUsage env tracker =
      if tracker.valid = false then (0, ⟨s.tracker.lastTotal, s.tracker.lastIdle, true⟩) else
      if s.tracker.lastTotal - tracker.lastTotal = 0 then
        (0, ⟨s.tracker.lastTotal, s.tracker.lastIdle, tracker.valid⟩) else
      ((((s.tracker.lastTotal - tracker.lastTotal - (s.tracker.lastIdle - tracker.lastIdle)) *
          1000 / (s.tracker.lastTotal - tracker.lastTotal)).setWidth 32).toInt,
        ⟨s.tracker.lastTotal, s.tracker.lastIdle, tracker.valid⟩) := by
    simp only [rlGetCpuUsage, hopen, hread, hclose, sscanf_statLine hline, Bool.true_eq_false,
      ↓reduceIte, Sample.counters, assigned, List.map_cons, List.getElem?_cons_zero,
      List.getElem?_cons_succ, hidle, htotal]
  rw [hscan, report]
  cases hvalid : tracker.valid with
  | false => rfl
  | true =>
    by_cases hsame : s.tracker.lastTotal - tracker.lastTotal = 0
    · simp only [hsame, Bool.true_eq_false, ↓reduceIte]
      rfl
    · simp only [hsame, Bool.true_eq_false, ↓reduceIte]
      rfl

end Call

section Kernel

variable {rest : List Byte}

def statText (cs : List (BitVec 64)) : List Byte := (cs.map fun c => 32 :: decimal c.toNat).flatten

def procStat (s : Sample) (extra : List (BitVec 64)) (more : List Byte) : List Byte :=
  (text "cpu " ++ statText (s.counters ++ extra)) ++ 10 :: more

theorem statText_length_le (cs : List (BitVec 64)) : (statText cs).length ≤ 21 * cs.length := by
  induction cs with
  | nil => simp [statText]
  | cons c cs ih =>
    have hc : (decimal c.toNat).length ≤ 20 :=
      decimal_length_le (by decide) (c.isLt.trans (by decide))
    simp only [statText, List.map_cons, List.flatten_cons, List.length_append, List.length_cons]
      at ih ⊢
    omega

theorem statText_bytes {cs : List (BitVec 64)} {b : Byte} (hb : b ∈ statText cs) :
    b = 32 ∨ digit b < 10 := by
  obtain ⟨field, hfield, hmem⟩ := List.mem_flatten.mp hb
  obtain ⟨c, _, rfl⟩ := List.mem_map.mp hfield
  exact (List.mem_cons.mp hmem).imp_right decimal_digits

theorem statText_fields (cs : List (BitVec 64)) (hrest : Stops (fun b => digit b < 10) rest) :
    Fields cs (statText cs ++ rest) := by
  induction cs with
  | nil => exact .last rest hrest
  | cons c cs ih =>
    have hnext := Fields.next [32] c cs _ (by decide) (List.forall_mem_singleton.mpr rfl) ih
    rwa [statText, List.map_cons, List.flatten_cons, List.append_assoc, List.cons_append]

theorem statText_stops (extra : List (BitVec 64)) :
    Stops (fun b => digit b < 10) (statText extra ++ [10]) := by
  cases extra with
  | nil =>
    rintro b ⟨⟩
    decide
  | cons c cs =>
    rintro b ⟨⟩
    decide

theorem statText_append (cs ds : List (BitVec 64)) :
    statText (cs ++ ds) = statText cs ++ statText ds := by
  rw [statText, List.map_append, List.flatten_append]
  rfl

theorem procStat_bytes {s : Sample} {extra : List (BitVec 64)} {b : Byte}
    (hb : b ∈ text "cpu " ++ statText (s.counters ++ extra)) : b ≠ 0 ∧ b ≠ 10 := by
  have hname : ∀ b ∈ text "cpu ", b ≠ 0 ∧ b ≠ 10 := forall_of_all (by decide)
  rcases List.mem_append.mp hb with hmem | hfields
  · exact hname b hmem
  · rcases statText_bytes hfields with rfl | hdigit
    · decide
    · exact digit_printed (hdigit.trans (by decide))

theorem reads_procStat {env : StatEnv} (hopen : env.fopen = true) (hclose : env.fclose = true)
    (s : Sample) {extra : List (BitVec 64)} (hextra : extra.length ≤ 4) (more : List Byte)
    (hread : env.read = procStat s extra more) : Reads env (some s) := by
  let line := text "cpu " ++ statText (s.counters ++ extra)
  have hlength : line.length < 255 := by
    have hle := statText_length_le (s.counters ++ extra)
    have hname : (text "cpu ").length = 4 := rfl
    have hseven : s.counters.length = 7 := rfl
    rw [List.length_append] at hle
    simp only [line, List.length_append, hname]
    omega
  have hnewline : (10 : Byte) ∉ line := fun hmem => (procStat_bytes hmem).2 rfl
  have hnul : (0 : Byte) ∉ line ++ [10] := by
    rw [List.mem_append, not_or]
    exact ⟨fun hmem => (procStat_bytes hmem).1 rfl, by decide⟩
  refine ⟨hopen, hclose, line ++ [10], more, ?_, 32 :: statText (s.counters ++ extra) ++ [10], ?_, ?_⟩
  · have hfile : env.read = line ++ 10 :: more := hread
    have hne : line ++ 10 :: more ≠ [] := List.append_ne_nil_of_right_ne_nil _ (List.cons_ne_nil _ _)
    simp only [fgets, hfile, hne, ↓reduceIte, takeLine_whole hnewline hlength]
    rw [List.append_cons line 10 more, List.drop_left]
  · rw [CString.ofBuffer_of_notMem hnul]
    rfl
  · rw [statText_append, List.cons_append, List.append_assoc]
    exact (statText_fields s.counters (statText_stops extra)).blank

end Kernel

end RlLibrary.Sys
