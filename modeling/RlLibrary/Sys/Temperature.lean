import RlLibrary.Str.Scanning

namespace RlLibrary.Sys

open Foundation Traced Str

/-- What `open` and `read` answer (`read` is empty when nothing can be read), and the memory
from the array on before the call. -/
structure TemperatureEnv where
  opened : Bool
  read : List Byte
  stack : List Byte

structure Conversion where
  removed : ℤ
  digits : ℤ
  temperature : ℤ
  deriving DecidableEq

def convertTemperature (buf : List Byte) : Traced ℕ Conversion := do
  let line ← rlStrRmLine (some buf)
  let digits ← rlStrIsdigit line.2
  if digits = RL_TRUE then do
    let curTemperature ← rlStrAtoi line.2
    pure ⟨line.1, digits, curTemperature⟩
  else pure ⟨line.1, digits, RL_FAILED⟩

/-- The array after `read(fd, buf, sizeof(buf) - 1)`, which adds no terminator. -/
def filled (read stack : List Byte) : List Byte :=
  read.take 15 ++ stack.drop (read.take 15).length

def rlGetCpuTemperature (env : TemperatureEnv) : Traced ℕ ℤ :=
  if env.opened = false then pure RL_FAILED else
  if env.read = [] then pure RL_FAILED else do
  let conversion ← convertTemperature (filled env.read env.stack)
  pure conversion.temperature

def BytesDecide (read beyond : List Byte) : Prop :=
  ∀ stale stale' : List Byte, stale.length = 16 → stale'.length = 16 →
    let x := convertTemperature (filled read (stale ++ beyond))
    let y := convertTemperature (filled read (stale' ++ beyond))
    x.value = y.value ∧ x.ReadsBelow 16 ∧ y.ReadsBelow 16 ∧
      (rlGetCpuTemperature ⟨true, read, stale ++ beyond⟩).value =
        (rlGetCpuTemperature ⟨true, read, stale' ++ beyond⟩).value

section Conversion

variable {front rest rest' read beyond : List Byte}

theorem convertTemperature_alike (hfront : ∀ b ∈ front, b ≠ 10 ∧ b ≠ 0)
    (hlength : front.length < 2 ^ 31) {stop : Byte} (hstop : stop = 10 ∨ stop = 0)
    (rest rest' : List Byte) :
    Alike (front.length + 1) (fun a b => b = a) (convertTemperature (front ++ stop :: rest))
      (convertTemperature (front ++ stop :: rest')) := by
  refine .bind (rlStrRmLine_alike hfront hstop rest rest') ?_
  rintro ⟨removed, buf⟩ ⟨removed', buf'⟩ ⟨rfl, rfl, rfl⟩
  refine .bind (rlStrIsdigit_alike hlength rest rest') ?_
  rintro _ digits rfl
  refine .ite (fun _ => ?_) fun _ => alike_pure _ rfl
  refine .bind (rlStrAtoi_alike front rest rest') ?_
  rintro _ temperature rfl
  exact alike_pure _ rfl

theorem convertTemperature_overruns {buf : List Byte} (hne : buf ≠ [])
    (hbuf : ∀ b ∈ buf, b ≠ 10 ∧ b ≠ 0) (beyond : List Byte) :
    ¬ (convertTemperature (buf ++ beyond)).ReadsBelow buf.length := by
  intro h
  obtain ⟨first, buf, rfl⟩ := List.exists_cons_of_ne_nil hne
  have hline := h.of_bind.1.of_bind.2
  have hfirst : (tracedIsempty (some (first :: buf ++ beyond))).value = false := by
    have hne := (hbuf first List.mem_cons_self).2
    simp [tracedIsempty, peek, bind_value, pure, hne]
  simp only [hfirst, Bool.false_eq_true, ↓reduceIte] at hline
  have hscan := hline.of_bind.1.of_bind.1
  have hclear : ∀ b ∈ first :: buf, decide (b = 10 ∨ b = 0) = false := fun b hb => by
    simpa using hbuf b hb
  have hreached := hscan _ (scan_reaches hclear beyond 0)
  omega

theorem exists_stop (h : 0 ∈ read ∨ 10 ∈ read) :
    ∃ front stop more, read = front ++ stop :: more ∧ (∀ b ∈ front, b ≠ 10 ∧ b ≠ 0) ∧
      (stop = 10 ∨ stop = 0) := by
  induction read with
  | nil => simp at h
  | cons b read ih =>
    by_cases hb : b = 10 ∨ b = 0
    · exact ⟨[], b, read, rfl, by simp, hb⟩
    · rw [not_or] at hb
      have hrest : 0 ∈ read ∨ 10 ∈ read := by
        refine h.imp (fun h => ?_) fun h => ?_
        · exact (List.mem_cons.mp h).resolve_left (Ne.symm hb.2)
        · exact (List.mem_cons.mp h).resolve_left (Ne.symm hb.1)
      obtain ⟨front, stop, more, rfl, hfront, hstop⟩ := ih hrest
      exact ⟨b :: front, stop, more, rfl, List.forall_mem_cons.mpr ⟨hb, hfront⟩, hstop⟩

theorem bytes_decide_iff (read beyond : List Byte) (hne : read ≠ []) (hlength : read.length ≤ 15) :
    BytesDecide read beyond ↔ 0 ∈ read ∨ 10 ∈ read := by
  have hfilled (stack : List Byte) : filled read stack = read ++ stack.drop read.length := by
    rw [filled, List.take_of_length_le hlength]
  constructor
  · intro h
    by_contra hstop
    rw [not_or] at hstop
    have hbelow := (h (List.replicate 16 120) (List.replicate 16 120) (by simp) (by simp)).2.1
    have harray : filled read (List.replicate 16 120 ++ beyond) =
        (read ++ List.replicate (16 - read.length) 120) ++ beyond := by
      rw [hfilled, List.drop_append_of_le_length (by rw [List.length_replicate]; omega),
        List.drop_replicate, List.append_assoc]
    have hsize : (read ++ List.replicate (16 - read.length) (120 : Byte)).length = 16 := by
      rw [List.length_append, List.length_replicate]
      omega
    have hstops : ∀ b ∈ read ++ List.replicate (16 - read.length) (120 : Byte), b ≠ 10 ∧ b ≠ 0 := by
      intro b hb
      rcases List.mem_append.mp hb with hb | hb
      · exact ⟨fun h => hstop.2 (h ▸ hb), fun h => hstop.1 (h ▸ hb)⟩
      · rw [List.eq_of_mem_replicate hb]
        decide
    have hoverrun := convertTemperature_overruns (List.append_ne_nil_of_left_ne_nil hne _) hstops
      beyond
    rw [hsize] at hoverrun
    exact hoverrun (harray ▸ hbelow)
  · intro h stale stale' _ _
    obtain ⟨front, stop, more, rfl, hfront, hstop⟩ := exists_stop h
    simp only [List.length_append, List.length_cons] at hlength
    have hshort : front.length + 1 ≤ 16 := by omega
    have hrun (rest rest' : List Byte) := convertTemperature_alike hfront (by omega) hstop rest rest'
    have hbelow (rest : List Byte) :
        (convertTemperature (front ++ stop :: rest)).ReadsBelow 16 :=
      fun i hi => Nat.lt_of_lt_of_le ((hrun rest rest).below i hi) hshort
    have hvalue (rest rest' : List Byte) : (convertTemperature (front ++ stop :: rest)).value =
        (convertTemperature (front ++ stop :: rest')).value := (hrun rest' rest).related
    simp only [rlGetCpuTemperature, hfilled, List.append_assoc, List.cons_append]
    refine ⟨hvalue _ _, hbelow _, hbelow _, ?_⟩
    simp only [hne, Bool.true_eq_false, ↓reduceIte, bind_value]
    rw [hvalue]

theorem bytes_decide_iff_line :
    BytesDecide (text "51440\n") [] ↔ 0 ∈ text "51440\n" ∨ 10 ∈ text "51440\n" :=
  bytes_decide_iff (text "51440\n") [] (by decide) (by decide)

theorem stale_digit_read : ¬ BytesDecide (text "51440") [] := by
  intro h
  have hresult := (h (List.replicate 16 0) (text "00000000" ++ List.replicate 8 0) rfl rfl).2.2.2
  exact absurd hresult (by decide)

end Conversion

end RlLibrary.Sys
