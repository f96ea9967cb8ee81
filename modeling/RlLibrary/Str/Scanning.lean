import RlLibrary.Foundation.Reading
import RlLibrary.Str.Editing

/-!
The functions of `rlstr.c` that read a string byte by byte, with the indices that they read. An
argument is the memory from its address on, `none` for a null pointer.
-/

namespace RlLibrary.Str

open Foundation Traced

def tracedIsempty (buf : Option (List Byte)) : Traced ℕ Bool :=
  match buf with
  | none => pure true
  | some mem => do
    let first ← peek mem 0
    pure (first = 0)

/-- `int` keeps the low 32 bits of the length. -/
def rlStrlen (src : Option (List Byte)) : Traced ℕ ℤ :=
  match src with
  | none => pure 0
  | some mem => do
    if ← tracedIsempty src then pure 0 else do
    let len ← strlen mem
    pure (BitVec.ofNat 32 len).toInt

def digitLoop (mem : List Byte) : ℕ → ℕ → Traced ℕ ℤ
  | 0, _ => pure RL_TRUE
  | n + 1, i => do
    let b ← peek mem i
    if isDigit b = false then pure RL_FALSE else digitLoop mem n (i + 1)

def rlStrIsdigit (buf : Option (List Byte)) : Traced ℕ ℤ :=
  match buf with
  | none => pure RL_FAILED
  | some mem => do
    if ← tracedIsempty buf then pure RL_FAILED else do
    let length ← rlStrlen buf
    let len := (BitVec.ofInt 64 length).toNat
    let first ← peek mem 0
    if first = 45 then
      if len = 1 then pure RL_FALSE else digitLoop mem (len - 1) 1
    else digitLoop mem len 0

def rlStrAtoi (str : Option (List Byte)) : Traced ℕ ℤ :=
  match str with
  | none => pure RL_FAILED
  | some mem => do
    if ← tracedIsempty str then pure RL_FAILED else atoi mem

def rlStrRmLine (buf : Option (List Byte)) : Traced ℕ (ℤ × Option (List Byte)) :=
  match buf with
  | none => pure (RL_FAILED, buf)
  | some mem => do
    if ← tracedIsempty buf then pure (RL_FAILED, buf) else do
    let line ← strchr mem 10
    match line with
    | none => pure (RL_SUCCESS, buf)
    | some i => pure (RL_SUCCESS, some (mem.set i 0))

def rlGetStrAfterChar (src : Option (List Byte)) (ch : Byte) (out : Option Buffer)
    (outSize : ℕ) : Traced ℕ Edit :=
  match src, out with
  | none, _ => pure (.failed out)
  | some mem, out => do
    if ← tracedIsempty src then pure (.failed out) else
    match out with
    | none => pure (.failed out)
    | some b =>
      if outSize = 0 then pure (.failed out) else do
      let pos ← strchr mem ch
      match pos with
      | none => pure (.failed out)
      | some pos => do
        let next ← peek mem (pos + 1)
        if next = 0 then pure (.failed out) else do
        -- `%s` reads up to the next zero
        let stop ← scan (fun b => b = 0) (mem.drop (pos + 1)) (pos + 1)
        pure ⟨RL_SUCCESS, some (b.snprintf outSize ((mem.take stop).drop (pos + 1))), none⟩

section Value

theorem tracedIsempty_value (mem : List Byte) :
    (tracedIsempty (some mem)).value = rlStrIsempty (some (.ofBuffer mem)) := by
  cases mem with
  | nil => rfl
  | cons b mem =>
    by_cases hb : b = 0
    · simp [tracedIsempty, peek, bind_value, rlStrIsempty, CString.ofBuffer, hb, pure]
    · simp [tracedIsempty, peek, bind_value, rlStrIsempty, CString.ofBuffer, hb, pure]

end Value

section Alike

variable {front rest rest' : List Byte}

theorem tracedIsempty_same {n : ℕ} {mem mem' : List Byte} (hn : 0 < n)
    (h : mem'.getD 0 0 = mem.getD 0 0) :
    Alike n (fun a b => a = decide (mem.getD 0 0 = 0) ∧ b = a) (tracedIsempty (some mem))
      (tracedIsempty (some mem')) := by
  refine .bind (peek_same hn h) ?_
  rintro _ first ⟨rfl, rfl⟩
  exact alike_pure _ ⟨rfl, rfl⟩

theorem tracedIsempty_alike (front rest rest' : List Byte) :
    Alike (front.length + 1) (fun a b => b = a) (tracedIsempty (some (front ++ 0 :: rest)))
      (tracedIsempty (some (front ++ 0 :: rest'))) := by
  refine (tracedIsempty_same (Nat.succ_pos _) ?_).mono fun _ _ => And.right
  rw [getD_ends (Nat.zero_le _), getD_ends (Nat.zero_le _)]

theorem rlStrlen_alike (hlength : front.length < 2 ^ 31) (rest rest' : List Byte) :
    Alike (front.length + 1) (fun (a b : ℤ) => b = a ∧ ∃ n : ℕ, a = n ∧ n ≤ front.length)
      (rlStrlen (some (front ++ 0 :: rest))) (rlStrlen (some (front ++ 0 :: rest'))) := by
  refine .bind (tracedIsempty_alike front rest rest') ?_
  rintro _ empty rfl
  refine .ite (fun _ => alike_pure _ ⟨rfl, 0, rfl, Nat.zero_le _⟩) fun _ => ?_
  refine .bind (scan_drop_alike (i := 0) (by decide) (Nat.zero_le _) rest rest') ?_
  rintro _ n ⟨rfl, _, hn⟩
  refine alike_pure _ ⟨rfl, n, ?_, hn⟩
  rw [BitVec.toInt_eq_toNat_of_lt, BitVec.toNat_ofNat, Nat.mod_eq_of_lt (by omega)]
  rw [BitVec.toNat_ofNat]
  omega

theorem digitLoop_alike {n i : ℕ} (h : i + n ≤ front.length + 1) (rest rest' : List Byte) :
    Alike (front.length + 1) (fun a b => b = a) (digitLoop (front ++ 0 :: rest) n i)
      (digitLoop (front ++ 0 :: rest') n i) := by
  induction n generalizing i with
  | zero => exact alike_pure _ rfl
  | succ n ih =>
    refine .bind (peek_alike (by omega)) ?_
    rintro _ b ⟨_, rfl⟩
    exact .ite (fun _ => alike_pure _ rfl) fun _ => ih (by omega)

theorem rlStrIsdigit_alike (hlength : front.length < 2 ^ 31) (rest rest' : List Byte) :
    Alike (front.length + 1) (fun a b => b = a) (rlStrIsdigit (some (front ++ 0 :: rest)))
      (rlStrIsdigit (some (front ++ 0 :: rest'))) := by
  refine .bind (tracedIsempty_alike front rest rest') ?_
  rintro _ empty rfl
  refine .ite (fun _ => alike_pure _ rfl) fun _ => ?_
  refine .bind (rlStrlen_alike hlength rest rest') ?_
  rintro _ _ ⟨rfl, n, rfl, hn⟩
  have hlen : (BitVec.ofInt 64 (n : ℤ)).toNat = n := by
    rw [BitVec.ofInt_natCast, BitVec.toNat_ofNat]
    omega
  refine .bind (peek_alike (Nat.zero_le _)) ?_
  rintro _ first ⟨_, rfl⟩
  rw [hlen]
  refine .ite (fun _ => .ite (fun _ => alike_pure _ rfl) fun _ => ?_) fun _ => ?_
  · exact digitLoop_alike (by omega) rest rest'
  · exact digitLoop_alike (by omega) rest rest'

theorem rlStrAtoi_alike (front rest rest' : List Byte) :
    Alike (front.length + 1) (fun a b => b = a) (rlStrAtoi (some (front ++ 0 :: rest)))
      (rlStrAtoi (some (front ++ 0 :: rest'))) := by
  refine .bind (tracedIsempty_alike front rest rest') ?_
  rintro _ empty rfl
  exact .ite (fun _ => alike_pure _ rfl) fun _ => atoi_alike front rest rest'

theorem rlStrRmLine_alike (hfront : ∀ b ∈ front, b ≠ 10 ∧ b ≠ 0) {stop : Byte}
    (hstop : stop = 10 ∨ stop = 0) (rest rest' : List Byte) :
    Alike (front.length + 1) (fun r r' => r'.1 = r.1 ∧ r.2 = some (front ++ 0 :: rest) ∧
        r'.2 = some (front ++ 0 :: rest'))
      (rlStrRmLine (some (front ++ stop :: rest))) (rlStrRmLine (some (front ++ stop :: rest'))) := by
  have hfirst : (front ++ stop :: rest').getD 0 0 = (front ++ stop :: rest).getD 0 0 := by
    cases front <;> rfl
  have hempty : (front ++ stop :: rest).getD 0 0 = 0 → stop = 0 := by
    cases front with
    | nil => exact id
    | cons b front => exact fun hb => absurd hb (hfront b List.mem_cons_self).2
  refine .bind (tracedIsempty_same (Nat.succ_pos _) hfirst) ?_
  rintro _ empty ⟨hvalue, rfl⟩
  refine .ite (fun hc => alike_pure _ ?_) fun _ => ?_
  · rw [hc] at hvalue
    obtain rfl := hempty (by simpa using hvalue.symm)
    exact ⟨rfl, rfl, rfl⟩
  · rw [strchr_run hfront hstop, strchr_run hfront hstop]
    refine .bind (R := fun a b => a = (if stop = 10 then some front.length else none) ∧ b = a)
      ⟨⟨rfl, rfl⟩, rfl, ?_⟩ ?_
    · have hbelow := readsBelow_range (if stop = 10 then some front.length else none) 0
        (front.length + 1)
      rwa [Nat.zero_add] at hbelow
    · rintro _ line ⟨hline, rfl⟩
      by_cases hnewline : stop = 10
      · rw [if_pos hnewline] at hline
        rw [hline]
        exact alike_pure _ ⟨rfl, by simp, by simp⟩
      · rw [if_neg hnewline] at hline
        rw [hline, hstop.resolve_left hnewline]
        exact alike_pure _ ⟨rfl, rfl, rfl⟩

end Alike

end RlLibrary.Str
