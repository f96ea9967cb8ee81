import RlLibrary.Eth.FileLines
import RlLibrary.Foundation.Reading
import RlLibrary.Sys.ProgramPaths

/-!
What `rlsys.c` reads of the process from `/proc/self/comm` and `/proc/self/status`. The content of a
file is `none` when it cannot be opened.
-/

namespace RlLibrary.Sys

open Foundation Eth

def rlGetProcName (name : Option Buffer) (len : ℕ) (comm : Option (List Byte)) : ℤ × Option Buffer :=
  match name with
  | none => (RL_FAILED, name)
  | some b =>
    if len = 0 then (RL_FAILED, name) else
    match comm with
    | none => (RL_FAILED, name)
    | some file =>
      match fgets len file with
      | none => (RL_FAILED, name)
      | some (line, _) =>
        let b := b.strcpy line
        (RL_SUCCESS, some (b.set (b.string.bytes.takeWhile fun c => c ≠ 10).length 0))

/-- `%d` of `sscanf`: a `long`, of which the low half is kept. -/
def readInt (s : List Byte) : Option ℤ :=
  let (negative, s) := takeSign (s.dropWhile isSpace)
  let ds := s.takeWhile isDigit
  if ds = [] then none else
  let n := value 10 ds
  let long : ℤ := if negative then max (-n) (-2 ^ 63) else min n (2 ^ 63 - 1)
  some (BitVec.ofInt 32 long).toInt

def vmRss (line : List Byte) : Option ℤ :=
  let s := (CString.ofBuffer line).bytes
  if strncmpZero s (text "VmRSS:") 6 = false then none else readInt (s.drop 6)

def rlGetMemoryUsage (status : Option (List Byte)) : ℤ :=
  match status with
  | none => RL_FAILED
  | some file =>
    match (fileLines 256 file).findSome? vmRss with
    | none => RL_FAILED
    | some memoryUsage => memoryUsage

def nameOf (len : ℕ) (file : List Byte) : List Byte :=
  (CString.ofBuffer (takeLine (len - 1) file)).bytes.takeWhile fun c => c ≠ 10

section Name

variable {b : Buffer} {len : ℕ} {file : List Byte}

theorem nameOf_length_le (len : ℕ) (file : List Byte) : (nameOf len file).length ≤ len - 1 := by
  have hline := takeLine_length_le (len - 1) file
  have hstring := (CString.ofBuffer_prefix (takeLine (len - 1) file)).length_le
  have hcut := (List.takeWhile_prefix (fun c : Byte => decide (c ≠ 10))
    (l := (CString.ofBuffer (takeLine (len - 1) file)).bytes)).length_le
  rw [nameOf]
  omega

theorem nameOf_nonzero (len : ℕ) (file : List Byte) : 0 ∉ nameOf len file := fun h =>
  (CString.ofBuffer (takeLine (len - 1) file)).nonzero ((List.takeWhile_prefix _).subset h)

theorem copied_string (b : Buffer) (line : List Byte) :
    (b.strcpy line).string.bytes = (CString.ofBuffer line).bytes := by
  have hbytes : (b.strcpy line).bytes = line ++ 0 :: b.bytes.drop (0 + (line ++ [0]).length) := by
    simp [Buffer.strcpy, Buffer.write]
  rw [Buffer.string, hbytes]
  by_cases hzero : 0 ∈ line
  · rw [CString.ofBuffer_append_of_mem hzero]
  · rw [CString.ofBuffer_append_of_notMem hzero, CString.ofBuffer_of_notMem hzero]
    simp [CString.ofBuffer]

theorem rlGetProcName_read (b : Buffer) (hlen : 0 < len) (hfile : file ≠ []) :
    ∃ b', rlGetProcName (some b) len (some file) = (RL_SUCCESS, some b') ∧
      b'.Holds (nameOf len file) ∧ ∀ i ∈ b'.writes, i ∈ b.writes ∨ i < len := by
  have hzero : ¬ len = 0 := Nat.ne_of_gt hlen
  have hfits := nameOf_length_le len file
  have hline := takeLine_length_le (len - 1) file
  have hstring := copied_string b (takeLine (len - 1) file)
  refine ⟨(b.strcpy (takeLine (len - 1) file)).set (nameOf len file).length 0, ?_, ?_, fun i hi => ?_⟩
  · simp only [rlGetProcName, hzero, fgets, hfile, ↓reduceIte, hstring, nameOf]
  · refine Buffer.cut_holds ?_ (nameOf_nonzero len file)
    have hprefix : nameOf len file <+: takeLine (len - 1) file :=
      (List.takeWhile_prefix _).trans (CString.ofBuffer_prefix _)
    exact hprefix.trans ((List.prefix_append _ _).trans (Buffer.write_extends List.nil_prefix _))
  · rw [Buffer.set, Buffer.mem_write_writes, Buffer.strcpy, Buffer.mem_write_writes, List.length_append,
      List.length_singleton] at hi
    rcases hi with (hi | hrange) | hrange
    · exact Or.inl hi
    · exact Or.inr (by omega)
    · exact Or.inr (by omega)

end Name

structure StatusFile where
  before : List (List Byte)
  blanks : List Byte
  kilobytes : ℕ
  after : List Byte
  before_line : ∀ line ∈ before, 10 ∉ line ∧ line.length < 255 ∧ ¬ text "VmRSS:" <+: line
  blanks_blank : ∀ b ∈ blanks, b = 32 ∨ b = 9
  short : (blanks ++ (decimal kilobytes ++ text " kB")).length < 249

namespace StatusFile

def rssLine (f : StatusFile) : List Byte :=
  text "VmRSS:" ++ (f.blanks ++ (decimal f.kilobytes ++ text " kB"))

def text (f : StatusFile) : List Byte :=
  (f.before.map fun line => line ++ [10]).flatten ++ (f.rssLine ++ 10 :: f.after)

end StatusFile

section Usage

variable {line more blanks : List Byte} {n : ℕ}

theorem readInt_decimal (hblanks : ∀ b ∈ blanks, isSpace b = true) (hmore : Stops isDigit more) :
    readInt (blanks ++ (decimal n ++ more)) = some (BitVec.ofInt 32 (min n (2 ^ 63 - 1))).toInt := by
  have hdigits : ∀ b ∈ decimal n, isDigit b = true := fun b hb => isDigit_iff.mpr (decimal_digits hb)
  have hstart : Stops isSpace (decimal n ++ more) := stops_append (decimal_ne_nil n) fun b hb =>
    digit_not_space ((decimal_digits hb).trans (by decide))
  have hdrop : (blanks ++ (decimal n ++ more)).dropWhile isSpace = decimal n ++ more := by
    rw [List.dropWhile_append_of_pos hblanks, hstart.dropWhile]
  have hsign : takeSign (decimal n ++ more) = (false, decimal n ++ more) := by
    refine takeSign_digit 10 (by decide) (List.append_ne_nil_of_left_ne_nil (decimal_ne_nil n) _) ?_
    exact fun b hb => decimal_digits (mem_of_head_append (decimal_ne_nil n) hb)
  simp only [readInt, hdrop, hsign, takeWhile_run hdigits hmore, decimal_ne_nil, ↓reduceIte,
    value_decimal, Bool.false_eq_true]

theorem int_of_decimal (n : ℕ) : (BitVec.ofInt 32 (min n (2 ^ 63 - 1))).toInt = n ↔ n < 2 ^ 31 := by
  constructor
  · intro h
    have hlt := BitVec.toInt_lt (x := BitVec.ofInt 32 (min n (2 ^ 63 - 1)))
    omega
  · intro h
    have hmin : min (n : ℤ) (2 ^ 63 - 1) = n := by omega
    rw [hmin, BitVec.toInt_ofInt, Int.bmod_eq_of_le (by omega) (by omega)]

theorem vmRss_other (hline : ¬ text "VmRSS:" <+: line) : vmRss (line ++ [10]) = none := by
  have hother : strncmpZero (CString.ofBuffer (line ++ [10])).bytes (text "VmRSS:") 6 = false := by
    by_contra hsame
    have hsix : (text "VmRSS:").take 6 = text "VmRSS:" := rfl
    have htake : (CString.ofBuffer (line ++ [10])).bytes.take 6 = text "VmRSS:" := by
      rw [← hsix]
      simpa only [strncmpZero, decide_eq_false_iff_not, not_not] using hsame
    have hprefix : text "VmRSS:" <+: line ++ [10] := by
      rw [← htake]
      exact (List.take_prefix _ _).trans (CString.ofBuffer_prefix _)
    rcases List.prefix_concat_iff.mp hprefix with heq | hprefix
    · have hend : (10 : Byte) ∈ text "VmRSS:" := by
        rw [heq]
        simp
      exact absurd hend (by decide)
    · exact hline hprefix
  rw [vmRss, if_pos hother]

theorem vmRss_line (hblanks : ∀ b ∈ blanks, b = 32 ∨ b = 9) (n : ℕ) :
    vmRss (text "VmRSS:" ++ (blanks ++ (decimal n ++ text " kB")) ++ [10]) =
      some (BitVec.ofInt 32 (min n (2 ^ 63 - 1))).toInt := by
  have hspace : ∀ b ∈ blanks, isSpace b = true ∧ b ≠ 0 := by
    intro b hb
    rcases hblanks b hb with rfl | rfl <;> decide
  have hnumber : 0 ∉ decimal n := fun h => absurd (decimal_digits h) (by decide)
  have hfirst : 0 ∉ text "VmRSS:" := by decide
  have hunit : 0 ∉ text " kB" := by decide
  have hbytes : 0 ∉ text "VmRSS:" ++ (blanks ++ (decimal n ++ text " kB")) ++ [10] := by
    have hblank : 0 ∉ blanks := fun h => (hspace 0 h).2 rfl
    simp [hfirst, hunit, hnumber, hblank]
  have hmore : Stops isDigit (text " kB" ++ [10]) := by
    rintro b ⟨rfl⟩
    decide
  have hread := readInt_decimal (n := n) (fun b hb => (hspace b hb).1) hmore
  have hsame : strncmpZero (text "VmRSS:" ++ (blanks ++ (decimal n ++ (text " kB" ++ [10]))))
      (text "VmRSS:") 6 = true := decide_eq_true (List.take_left' rfl)
  rw [vmRss, CString.ofBuffer_of_notMem hbytes]
  simp only [List.append_assoc, hsame, Bool.true_eq_false, ↓reduceIte]
  exact hread

theorem fileLines_lines {size : ℕ} {lines : List (List Byte)}
    (hlines : ∀ line ∈ lines, 10 ∉ line ∧ line.length + 1 < size) (more : List Byte) :
    fileLines size ((lines.map fun line => line ++ [10]).flatten ++ more) =
      (lines.map fun line => line ++ [10]) ++ fileLines size more := by
  induction lines with
  | nil => rfl
  | cons line lines ih =>
    obtain ⟨hline, hfits⟩ := hlines line List.mem_cons_self
    rw [List.map_cons, List.flatten_cons, List.append_assoc, List.append_assoc, List.singleton_append,
      fileLines_line hline hfits, ih fun line hline => hlines line (List.mem_cons_of_mem _ hline)]
    rfl

theorem memory_usage_iff (f : StatusFile) :
    (rlGetMemoryUsage (some f.text) = f.kilobytes ↔ f.kilobytes < 2 ^ 31) ∧
      rlGetMemoryUsage (some (f.before.map fun line => line ++ [10]).flatten) = RL_FAILED := by
  have hbefore : ∀ line ∈ f.before, 10 ∉ line ∧ line.length + 1 < 256 := fun line hline =>
    ⟨(f.before_line line hline).1, Nat.succ_lt_succ (f.before_line line hline).2.1⟩
  have hnone : (f.before.map fun line => line ++ [10]).findSome? vmRss = none := by
    rw [List.findSome?_eq_none_iff]
    intro line hline
    obtain ⟨body, hbody, rfl⟩ := List.mem_map.mp hline
    exact vmRss_other (f.before_line body hbody).2.2
  have hrss : 10 ∉ f.rssLine := by
    have hfirst : 10 ∉ text "VmRSS:" := by decide
    have hunit : 10 ∉ text " kB" := by decide
    have hnumber : 10 ∉ decimal f.kilobytes := fun h => absurd (decimal_digits h) (by decide)
    have hblank : 10 ∉ f.blanks := fun h => absurd (f.blanks_blank 10 h) (by decide)
    simp [StatusFile.rssLine, hfirst, hunit, hnumber, hblank]
  have hfits : f.rssLine.length + 1 < 256 := by
    have hsix : (text "VmRSS:").length = 6 := rfl
    have hshort := f.short
    rw [StatusFile.rssLine, List.length_append, hsix]
    omega
  have hfind : (fileLines 256 f.text).findSome? vmRss =
      some (BitVec.ofInt 32 (min f.kilobytes (2 ^ 63 - 1))).toInt := by
    rw [StatusFile.text, fileLines_lines hbefore, fileLines_line hrss hfits, List.findSome?_append, hnone,
      Option.none_or, List.findSome?_cons, StatusFile.rssLine, vmRss_line f.blanks_blank]
  have hmissing : (fileLines 256 (f.before.map fun line => line ++ [10]).flatten).findSome? vmRss = none := by
    have hlines := fileLines_lines hbefore []
    rw [List.append_nil] at hlines
    rw [hlines, List.findSome?_append, hnone]
    rfl
  refine ⟨?_, ?_⟩
  · rw [← int_of_decimal, rlGetMemoryUsage]
    simp only [hfind]
  · simp only [rlGetMemoryUsage, hmissing]

def shellStatus : StatusFile where
  before := [text "Name:\tsh", text "State:\tS (sleeping)", text "VmHWM:\t    2048 kB"]
  blanks := text "\t    "
  kilobytes := 1780
  after := text "RssAnon:\t     120 kB\n"
  before_line := by decide
  blanks_blank := forall_of_all (by decide)
  short := by decide

theorem memory_usage_iff_shell : rlGetMemoryUsage (some shellStatus.text) = 1780 :=
  (memory_usage_iff shellStatus).1.mpr (by decide)

end Usage

end RlLibrary.Sys
