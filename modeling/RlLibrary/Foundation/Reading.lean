import Mathlib.Algebra.Group.Int.Defs
import RlLibrary.Foundation.Resources
import RlLibrary.Foundation.Scan

/-!
Reading memory byte by byte. A memory is the bytes from the beginning of an array on, whatever
lies behind the array included; the events of a computation are the indices that it reads.
-/

namespace RlLibrary.Foundation

open Traced

namespace Traced

variable {α β γ δ : Type}

def ReadsBelow (x : Traced ℕ α) (n : ℕ) : Prop := ∀ i, .used i ∈ x.events → i < n

structure Alike (n : ℕ) (R : α → β → Prop) (x : Traced ℕ α) (y : Traced ℕ β) : Prop where
  related : R x.value y.value
  events : x.events = y.events
  below : x.ReadsBelow n

variable {n : ℕ} {R R' : α → β → Prop} {S : γ → δ → Prop}

theorem readsBelow_pure (a : α) (n : ℕ) : (pure a : Traced ℕ α).ReadsBelow n := by
  intro i hi
  cases hi

theorem ReadsBelow.bind {x : Traced ℕ α} {f : α → Traced ℕ β} (hx : x.ReadsBelow n)
    (hf : (f x.value).ReadsBelow n) : (x >>= f).ReadsBelow n := by
  intro i hi
  rcases List.mem_append.mp hi with hi | hi
  · exact hx i hi
  · exact hf i hi

theorem ReadsBelow.of_bind {x : Traced ℕ α} {f : α → Traced ℕ β}
    (h : (x >>= f).ReadsBelow n) : x.ReadsBelow n ∧ (f x.value).ReadsBelow n :=
  ⟨fun i hi => h i (List.mem_append_left _ hi), fun i hi => h i (List.mem_append_right _ hi)⟩

theorem alike_pure (n : ℕ) {a : α} {b : β} (h : R a b) : Alike n R (pure a) (pure b) :=
  ⟨h, rfl, readsBelow_pure a n⟩

theorem Alike.bind {x : Traced ℕ α} {y : Traced ℕ β} {f : α → Traced ℕ γ} {g : β → Traced ℕ δ}
    (hx : Alike n R x y) (hf : ∀ a b, R a b → Alike n S (f a) (g b)) :
    Alike n S (x >>= f) (y >>= g) := by
  have hnext := hf _ _ hx.related
  refine ⟨hnext.related, ?_, hx.below.bind hnext.below⟩
  change x.events ++ _ = y.events ++ _
  rw [hx.events, hnext.events]

theorem Alike.use {x : Traced ℕ α} {y : Traced ℕ β} {i : ℕ} (hi : i < n) (h : Alike n R x y) :
    Alike n R (Traced.use i >>= fun _ => x) (Traced.use i >>= fun _ => y) := by
  refine Alike.bind (R := fun _ _ => True) ⟨trivial, rfl, fun j hj => ?_⟩ fun _ _ _ => h
  obtain rfl : j = i := by simpa [Traced.use] using hj
  exact hi

theorem Alike.ite {c : Prop} [Decidable c] {x x' : Traced ℕ α} {y y' : Traced ℕ β}
    (h : c → Alike n R x y) (h' : ¬ c → Alike n R x' y') :
    Alike n R (if c then x else x') (if c then y else y') := by
  split_ifs with hc
  · exact h hc
  · exact h' hc

theorem Alike.mono {x : Traced ℕ α} {y : Traced ℕ β} (h : Alike n R x y)
    (hR : ∀ a b, R a b → R' a b) : Alike n R' x y :=
  ⟨hR _ _ h.related, h.events, h.below⟩

end Traced

def peek (mem : List Byte) (i : ℕ) : Traced ℕ Byte := do
  use i
  pure (mem.getD i 0)

/-- Reads the bytes `mem`, which lie at the indices from `i` on, up to the first with `stop`,
and tells its index. -/
def scan (stop : Byte → Bool) : List Byte → ℕ → Traced ℕ ℕ
  | [], i => do
    use i
    pure i
  | b :: mem, i => do
    use i
    if stop b then pure i else scan stop mem (i + 1)

def strlen (mem : List Byte) : Traced ℕ ℕ := scan (fun b => b = 0) mem 0

def strchr (mem : List Byte) (c : Byte) : Traced ℕ (Option ℕ) := do
  let i ← scan (fun b => b = c ∨ b = 0) mem 0
  pure (if mem.getD i 0 = c then some i else none)

def isDigit (b : Byte) : Bool := 48 ≤ b ∧ b ≤ 57

theorem isDigit_iff {b : Byte} : isDigit b = true ↔ digit b < 10 := by
  rw [isDigit, decide_eq_true_eq, digit_decimal_iff]

/-- `strtol` in base 10 with a `long` of 64 bits, of which `int` keeps the low 32. -/
def atoi (mem : List Byte) : Traced ℕ ℤ := do
  let i ← scan (fun b => isSpace b = false) mem 0
  let sign ← peek mem i
  let j := if sign = 45 ∨ sign = 43 then i + 1 else i
  let k ← scan (fun b => isDigit b = false) (mem.drop j) j
  let n := value 10 ((mem.take k).drop j)
  let long : ℤ := if sign = 45 then max (-n) (-2 ^ 63) else min n (2 ^ 63 - 1)
  pure (BitVec.ofInt 32 long).toInt

section Scan

variable {α : Type} {stop : Byte → Bool} {front rest rest' : List Byte} {c : Byte} {i : ℕ}

theorem scan_run (hfront : ∀ b ∈ front, stop b = false) (hc : stop c = true) (rest : List Byte)
    (i : ℕ) : scan stop (front ++ c :: rest) i =
      ⟨i + front.length, (List.range' i (front.length + 1)).map .used⟩ := by
  induction front generalizing i with
  | nil =>
    rw [List.nil_append, scan, if_pos hc]
    rfl
  | cons b front ih =>
    have hb := hfront b List.mem_cons_self
    have hrest := ih (fun b hb => hfront b (List.mem_cons_of_mem _ hb)) (i + 1)
    rw [List.cons_append, scan, if_neg (by simp [hb]), hrest, List.length_cons,
      List.range'_succ, List.map_cons, Nat.add_assoc, Nat.add_comm 1]
    rfl

theorem scan_reaches (hfront : ∀ b ∈ front, stop b = false) (rest : List Byte) (i : ℕ) :
    .used (i + front.length) ∈ (scan stop (front ++ rest) i).events := by
  induction front generalizing i with
  | nil =>
    cases rest with
    | nil => exact List.mem_cons_self
    | cons b rest => exact List.mem_append_left _ List.mem_cons_self
  | cons b front ih =>
    have hb := hfront b List.mem_cons_self
    have hrest := ih (fun b hb => hfront b (List.mem_cons_of_mem _ hb)) (i + 1)
    have hindex : i + 1 + front.length = i + (b :: front).length := by
      rw [List.length_cons]
      omega
    rw [List.cons_append, scan, if_neg (by simp [hb]), ← hindex]
    exact List.mem_append_right _ hrest

theorem used_range {j n : ℕ} :
    .used j ∈ (List.range' i n).map Event.used ↔ i ≤ j ∧ j < i + n := by
  simp only [List.mem_map, List.mem_range'_1, Event.used.injEq, exists_eq_right]

theorem readsBelow_range (a : α) (i n : ℕ) :
    (⟨a, (List.range' i n).map .used⟩ : Traced ℕ α).ReadsBelow (i + n) :=
  fun _ hj => (used_range.mp hj).2

theorem strchr_run (hfront : ∀ b ∈ front, b ≠ c ∧ b ≠ 0) {stop : Byte}
    (hstop : stop = c ∨ stop = 0) (rest : List Byte) :
    strchr (front ++ stop :: rest) c =
      ⟨if stop = c then some front.length else none,
        (List.range' 0 (front.length + 1)).map .used⟩ := by
  have hclear : ∀ b ∈ front, decide (b = c ∨ b = 0) = false := fun b hb => by
    simpa using hfront b hb
  have hscan := scan_run hclear (decide_eq_true hstop) rest 0
  have hget : (front ++ stop :: rest).getD front.length 0 = stop := by simp
  rw [strchr, hscan]
  simp only [bind, pure, hget, Nat.zero_add, List.append_nil]

theorem getD_ends (hi : i ≤ front.length) : (front ++ 0 :: rest).getD i 0 = front.getD i 0 := by
  rcases Nat.lt_or_eq_of_le hi with hlt | rfl
  · simp [List.getElem?_append_left hlt]
  · simp

theorem peek_same {n : ℕ} {mem mem' : List Byte} (hi : i < n)
    (h : mem'.getD i 0 = mem.getD i 0) :
    Alike n (fun a b => a = mem.getD i 0 ∧ b = a) (peek mem i) (peek mem' i) :=
  .use hi (alike_pure n ⟨rfl, h⟩)

theorem peek_alike (hi : i ≤ front.length) :
    Alike (front.length + 1) (fun a b => a = front.getD i 0 ∧ b = a)
      (peek (front ++ 0 :: rest) i) (peek (front ++ 0 :: rest') i) := by
  refine (peek_same (Nat.lt_succ_of_le hi) ?_).mono fun a b ⟨ha, hb⟩ => ⟨ha.trans ?_, hb⟩
  · rw [getD_ends hi, getD_ends hi]
  · exact getD_ends hi

theorem scan_alike (hstop : stop 0 = true) (front rest rest' : List Byte) (i : ℕ) :
    Alike (i + front.length + 1) (fun j k => k = j ∧ i ≤ j ∧ j ≤ i + front.length)
      (scan stop (front ++ 0 :: rest) i) (scan stop (front ++ 0 :: rest') i) := by
  induction front generalizing i with
  | nil =>
    simp only [List.nil_append, scan, hstop, ↓reduceIte]
    exact .use (by simp) (alike_pure _ (by simp))
  | cons b front ih =>
    simp only [List.cons_append, scan]
    refine .use (by omega) (.ite (fun _ => alike_pure _ (by simp)) fun _ => ?_)
    have hlength : i + (b :: front).length = i + 1 + front.length := by
      rw [List.length_cons]
      omega
    rw [hlength]
    exact (ih (i + 1)).mono fun j k ⟨hk, hj, hle⟩ => ⟨hk, by omega, hle⟩

theorem scan_drop_alike (hstop : stop 0 = true) (hi : i ≤ front.length) (rest rest' : List Byte) :
    Alike (front.length + 1) (fun j k => k = j ∧ i ≤ j ∧ j ≤ front.length)
      (scan stop ((front ++ 0 :: rest).drop i) i) (scan stop ((front ++ 0 :: rest').drop i) i) := by
  have hscan := scan_alike hstop (front.drop i) rest rest' i
  rw [List.length_drop, Nat.add_sub_cancel' hi] at hscan
  rwa [List.drop_append_of_le_length hi, List.drop_append_of_le_length hi]

theorem atoi_alike (front rest rest' : List Byte) :
    Alike (front.length + 1) (fun a b => b = a) (atoi (front ++ 0 :: rest))
      (atoi (front ++ 0 :: rest')) := by
  have hspace : isSpace 0 = false := by decide
  have hdigit : isDigit 0 = false := by decide
  refine .bind (scan_drop_alike (i := 0) (by simp [hspace]) (Nat.zero_le _) rest rest') ?_
  rintro _ i ⟨rfl, _, hi⟩
  refine .bind (peek_alike hi) ?_
  rintro _ sign ⟨hsign, rfl⟩
  have hj : (if sign = 45 ∨ sign = 43 then i + 1 else i) ≤ front.length := by
    split_ifs with hminus
    · by_contra hlast
      have hend : i = front.length := by omega
      rw [hend] at hsign
      simp [hsign] at hminus
    · exact hi
  refine .bind (scan_drop_alike (by simp [hdigit]) hj rest rest') ?_
  rintro _ k ⟨rfl, _, hk⟩
  apply alike_pure
  rw [List.take_append_of_le_length hk, List.take_append_of_le_length hk]

end Scan

end RlLibrary.Foundation
