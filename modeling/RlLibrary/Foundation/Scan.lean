import RlLibrary.Foundation.Decimal

/-!
`fgets`, and the conversions of `sscanf` that the library uses. `sscanf` returns the values
it has assigned, which are the first ones of the format; a `long` has 64 bits.
-/

namespace RlLibrary.Foundation

def takeLine : ℕ → List Byte → List Byte
  | 0, _ => []
  | _, [] => []
  | n + 1, b :: bs => if b = 10 then [b] else b :: takeLine n bs

def fgets (size : ℕ) (file : List Byte) : Option (List Byte × List Byte) :=
  if file = [] then none else
  let line := takeLine (size - 1) file
  some (line, file.drop line.length)

def isSpace (b : Byte) : Bool := b = 32 ∨ (9 ≤ b ∧ b ≤ 13)

inductive Directive where
  | blanks
  | literal (b : Byte)
  | word (width : Option ℕ)
  | unsigned (base : ℕ)
  deriving DecidableEq

inductive Scanned where
  | word (w : List Byte)
  | number (n : BitVec 64)
  deriving DecidableEq

def takeSign : List Byte → Bool × List Byte
  | [] => (false, [])
  | c :: s => if c = 45 then (true, s) else if c = 43 then (false, s) else (false, c :: s)

/-- The `0x` that a hexadecimal number may start with; its zero counts as a digit. -/
def takeHexMark (base : ℕ) : List Byte → Bool × List Byte
  | zero :: x :: s =>
    if base = 16 ∧ zero = 48 ∧ (x = 120 ∨ x = 88) then (true, s) else (false, zero :: x :: s)
  | s => (false, s)

/-- `strtoull`: the largest number stands for one that is too large. -/
def readUnsigned (base : ℕ) (s : List Byte) : Option (BitVec 64 × List Byte) :=
  let (negative, s) := takeSign s
  let (marked, s) := takeHexMark base s
  let ds := s.takeWhile fun b => digit b < base
  if ds = [] ∧ marked = false then none else
  let n := value base ds
  let n := if n ≥ 2 ^ 64 then BitVec.allOnes 64 else
    if negative then -BitVec.ofNat 64 n else BitVec.ofNat 64 n
  some (n, s.drop ds.length)

def sscanf : List Directive → List Byte → List Scanned
  | [], _ => []
  | .blanks :: format, s => sscanf format (s.dropWhile isSpace)
  | .literal _ :: _, [] => []
  | .literal b :: format, c :: s => if c = b then sscanf format s else []
  | .word width :: format, s =>
    let s := s.dropWhile isSpace
    let w := s.takeWhile fun b => isSpace b = false
    let w := w.take (width.getD w.length)
    if w = [] then [] else .word w :: sscanf format (s.drop w.length)
  | .unsigned base :: format, s =>
    match readUnsigned base (s.dropWhile isSpace) with
    | none => []
    | some (n, s) => .number n :: sscanf format s

def assigned (vs : List Scanned) (i : ℕ) (old : BitVec 64) : BitVec 64 :=
  match vs[i]? with
  | some (.number n) => n
  | _ => old

def Directive.assigns : Directive → Bool
  | .blanks => false
  | .literal _ => false
  | .word _ => true
  | .unsigned _ => true

section Assignments

variable {format : List Directive} {vs : List Scanned}

theorem sscanf_length_le (format : List Directive) (s : List Byte) :
    (sscanf format s).length ≤ format.countP Directive.assigns := by
  fun_induction sscanf format s with
  | case1 => simp
  | case2 s format ih => simpa [Directive.assigns] using ih
  | case3 => simp
  | case4 format b s ih => simpa [Directive.assigns] using ih
  | case5 => simp
  | case6 => simp
  | case7 width format s _ _ _ _ ih => simpa [List.countP_cons, Directive.assigns] using ih
  | case8 => simp
  | case9 base format s n rest _ ih => simpa [List.countP_cons, Directive.assigns] using ih

theorem sscanf_numbers (hformat : ∀ width, .word width ∉ format) {s : List Byte} {v : Scanned}
    (hv : v ∈ sscanf format s) : ∃ n, v = .number n := by
  fun_induction sscanf format s with
  | case1 => cases hv
  | case2 s format ih => exact ih (fun w h => hformat w (List.mem_cons_of_mem _ h)) hv
  | case3 => cases hv
  | case4 format b s ih => exact ih (fun w h => hformat w (List.mem_cons_of_mem _ h)) hv
  | case5 => cases hv
  | case6 => cases hv
  | case7 width format s => exact absurd List.mem_cons_self (hformat width)
  | case8 => cases hv
  | case9 base format s n rest hread ih =>
    rcases List.mem_cons.mp hv with rfl | hv
    · exact ⟨n, rfl⟩
    · exact ih (fun w h => hformat w (List.mem_cons_of_mem _ h)) hv

theorem assigned_of_lt (hvs : ∀ v ∈ vs, ∃ n, v = .number n) {i : ℕ} (hi : i < vs.length)
    (old old' : BitVec 64) : assigned vs i old = assigned vs i old' := by
  obtain ⟨n, hn⟩ := hvs _ (List.getElem_mem hi)
  simp only [assigned, List.getElem?_eq_getElem hi, hn]

end Assignments

theorem takeLine_length_le (n : ℕ) (bytes : List Byte) : (takeLine n bytes).length ≤ n := by
  induction n generalizing bytes with
  | zero => simp [takeLine]
  | succ n ih =>
    cases bytes with
    | nil => simp [takeLine]
    | cons b bytes =>
      have hrest := ih bytes
      rw [takeLine]
      split_ifs
      · simp
      · rw [List.length_cons]
        omega

theorem takeLine_starts (n : ℕ) (bytes : List Byte) : takeLine n bytes <+: bytes := by
  induction n generalizing bytes with
  | zero => exact List.nil_prefix
  | succ n ih =>
    cases bytes with
    | nil => exact List.nil_prefix
    | cons b bytes =>
      rw [takeLine]
      split_ifs
      · exact List.cons_prefix_cons.mpr ⟨rfl, List.nil_prefix⟩
      · exact List.cons_prefix_cons.mpr ⟨rfl, ih bytes⟩

theorem takeLine_pos {n : ℕ} (hn : 0 < n) {bytes : List Byte} (h : bytes ≠ []) :
    0 < (takeLine n bytes).length := by
  obtain ⟨n, rfl⟩ := Nat.exists_eq_add_one_of_ne_zero (Nat.ne_zero_of_lt hn)
  obtain ⟨b, bytes, rfl⟩ := List.exists_cons_of_ne_nil h
  rw [takeLine]
  split_ifs <;> simp

theorem takeLine_whole {n : ℕ} {line rest : List Byte} (hline : (10 : Byte) ∉ line)
    (hn : line.length < n) :
    takeLine n (line ++ 10 :: rest) = line ++ [10] := by
  induction line generalizing n with
  | nil =>
    obtain ⟨n, rfl⟩ := Nat.exists_eq_add_one_of_ne_zero (Nat.ne_zero_of_lt hn)
    rfl
  | cons b line ih =>
    obtain ⟨n, rfl⟩ := Nat.exists_eq_add_one_of_ne_zero (Nat.ne_zero_of_lt hn)
    rw [List.mem_cons, not_or] at hline
    simp only [List.cons_append, takeLine, Ne.symm hline.1, ↓reduceIte]
    rw [ih hline.2 (by simpa using hn)]

theorem takeLine_last {n : ℕ} {line : List Byte} (hline : (10 : Byte) ∉ line) (hn : line.length ≤ n) :
    takeLine n line = line := by
  induction line generalizing n with
  | nil => cases n <;> rfl
  | cons b line ih =>
    obtain ⟨n, rfl⟩ := Nat.exists_eq_add_one_of_ne_zero (Nat.ne_zero_of_lt hn)
    rw [List.mem_cons, not_or] at hline
    rw [takeLine, if_neg (Ne.symm hline.1), ih hline.2 (Nat.le_of_succ_le_succ hn)]

theorem sscanf_literal (ls : List Byte) (format : List Directive) (rest : List Byte) :
    sscanf (ls.map .literal ++ format) (ls ++ rest) = sscanf format rest := by
  induction ls with
  | nil => rfl
  | cons l ls ih => simp only [List.map_cons, List.cons_append, sscanf, ↓reduceIte, ih]

def Stops (p : Byte → Bool) (rest : List Byte) : Prop := ∀ b, rest.head? = some b → p b = false

section Runs

variable {p : Byte → Bool} {front rest : List Byte}

theorem takeWhile_run (h : ∀ b ∈ front, p b = true) (hrest : Stops p rest) :
    (front ++ rest).takeWhile p = front := by
  rw [List.takeWhile_append_of_pos h]
  cases rest with
  | nil => simp
  | cons b rest => simp [hrest b rfl]

theorem Stops.dropWhile (h : Stops p rest) : rest.dropWhile p = rest := by
  cases rest with
  | nil => rfl
  | cons b rest => simp [h b rfl]

theorem mem_of_head_append (hne : front ≠ []) {b : Byte} (h : (front ++ rest).head? = some b) :
    b ∈ front := by
  rw [List.head?_append_of_ne_nil _ hne] at h
  exact List.mem_of_mem_head? h

theorem stops_append (hne : front ≠ []) (h : ∀ b ∈ front, p b = false) : Stops p (front ++ rest) :=
  fun b hb => h b (mem_of_head_append hne hb)

theorem stops_dropWhile (p : Byte → Bool) (s : List Byte) : Stops p (s.dropWhile p) := by
  intro b hb
  have hhead := List.head?_dropWhile_not p s
  simpa only [hb] using hhead

theorem takeSign_digit (base : ℕ) (hbase : base ≤ 16) {s : List Byte} (hs : s ≠ [])
    (h : ∀ b, s.head? = some b → digit b < base) : takeSign s = (false, s) := by
  cases s with
  | nil => exact absurd rfl hs
  | cons b s =>
    have hb := h b rfl
    have hminus : b ≠ 45 := by
      rintro rfl
      exact absurd hb (Nat.not_lt.mpr hbase)
    have hplus : b ≠ 43 := by
      rintro rfl
      exact absurd hb (Nat.not_lt.mpr hbase)
    simp only [takeSign, hminus, hplus, ↓reduceIte]

theorem takeHexMark_ten (s : List Byte) : takeHexMark 10 s = (false, s) := by
  rcases s with _ | ⟨zero, _ | ⟨x, s⟩⟩ <;> simp [takeHexMark]

end Runs

section Numbers

variable {n : ℕ} {rest : List Byte}

theorem readUnsigned_digits {ds : List Byte} (hne : ds ≠ []) (hds : ∀ b ∈ ds, digit b < 10)
    (hn : value 10 ds < 2 ^ 64) (hrest : Stops (fun b => digit b < 10) rest) :
    readUnsigned 10 (ds ++ rest) = some (BitVec.ofNat 64 (value 10 ds), rest) := by
  have hnonempty : ds ++ rest ≠ [] := List.append_ne_nil_of_left_ne_nil hne _
  have hsign := takeSign_digit 10 (by decide) hnonempty fun b hb => hds b (mem_of_head_append hne hb)
  have hdigits : (ds ++ rest).takeWhile (fun b => digit b < 10) = ds :=
    takeWhile_run (fun b hb => decide_eq_true (hds b hb)) hrest
  simp only [readUnsigned, hsign, takeHexMark_ten, hdigits, hne, false_and, ↓reduceIte,
    ge_iff_le, Nat.not_le.mpr hn, Bool.false_eq_true, List.drop_left]

theorem readUnsigned_decimal (hn : n < 2 ^ 64) (hrest : Stops (fun b => digit b < 10) rest) :
    readUnsigned 10 (decimal n ++ rest) = some (BitVec.ofNat 64 n, rest) := by
  have hvalue := value_decimal n
  have hsmall : value 10 (decimal n) < 2 ^ 64 := by rwa [hvalue]
  have hread := readUnsigned_digits (decimal_ne_nil n) (fun b => decimal_digits) hsmall hrest
  rwa [hvalue] at hread

theorem digit_not_space {b : Byte} (h : digit b < 16) : isSpace b = false := by
  by_contra hspace
  simp only [isSpace, decide_eq_false_iff_not, not_not, UInt8.le_iff_toNat_le] at hspace
  simp only [digit, UInt8.le_iff_toNat_le] at h
  rcases hspace with rfl | hspace
  · exact absurd h (by decide)
  · have h9 : (9 : Byte).toNat = 9 := rfl
    have h13 : (13 : Byte).toNat = 13 := rfl
    have h48 : (48 : Byte).toNat = 48 := rfl
    have h97 : (97 : Byte).toNat = 97 := rfl
    have h65 : (65 : Byte).toNat = 65 := rfl
    split_ifs at h <;> omega

theorem space_not_digit {b : Byte} (h : isSpace b = true) : ¬ digit b < 16 := by
  intro hdigit
  rw [digit_not_space hdigit] at h
  exact absurd h (by decide)

theorem digit_printed {b : Byte} (h : digit b < 16) : b ≠ 0 ∧ b ≠ 10 := by
  constructor
  · rintro rfl
    exact absurd h (by decide)
  · rintro rfl
    exact absurd h (by decide)

end Numbers

end RlLibrary.Foundation
