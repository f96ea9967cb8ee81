import RlLibrary.Foundation.Buffer
import RlLibrary.Public
import RlLibrary.Str.Basic

/-!
The functions of `rlstr.c` that cut, replace and insert inside a string. `stack` is what lies
in memory from the beginning of the local array `char buffer[len]` on.
-/

namespace RlLibrary.Str

open Foundation

structure Edit where
  code : ℤ
  str : Option Buffer
  scratch : Option Buffer
  deriving DecidableEq

def Edit.failed (str : Option Buffer) : Edit := ⟨RL_FAILED, str, none⟩

def Edit.result (e : Edit) : ℤ × Option (List Byte) := (e.code, e.str.map fun b => b.string.bytes)

def Edit.Leaves (e : Edit) (str : Buffer) (max : ℕ) (s : List Byte) : Prop :=
  e.code = RL_SUCCESS ∧
    ∃ b, e.str = some b ∧ b.Holds s ∧ ∀ i ∈ b.writes, i ∈ str.writes ∨ i < max

def locate (str : Buffer) (target : CString) : Option (List Byte × List Byte) :=
  (cutAt target.bytes str.string.bytes).map fun r => (r.1, r.2.drop target.bytes.length)

def rlStrInsertCh (str : Option Buffer) (pos : ℕ) (ch : Byte) (max : ℕ) : Edit :=
  match str with
  | none => .failed str
  | some b =>
    if max = 0 then .failed str else
    let len := b.string.bytes.length
    if len ≥ max - 1 then .failed str else
    if pos > len ∨ pos ≥ max - 1 then .failed str else
    ⟨RL_SUCCESS, some ((b.memmove (pos + 1) pos (len - pos + 1)).set pos ch), none⟩

def rlDeleteChar (str : Buffer) (pos : ℕ) : Edit :=
  let len := str.string.bytes.length
  if pos ≥ len then .failed (some str) else
  ⟨RL_SUCCESS, some (str.memmove pos (pos + 1) (len - pos)), none⟩

def rlRemoveSubstr (str : Option Buffer) (target : Option CString) : Edit :=
  match str, target with
  | some b, some t =>
    if rlStrIsempty (some b.string) ∨ rlStrIsempty (some t) then .failed str else
    match locate b t with
    | none => .failed str
    | some (front, back) =>
      let pos := front.length
      ⟨RL_SUCCESS, some (b.memmove pos (pos + t.bytes.length) (back.length + 1)), none⟩
  | _, _ => .failed str

def rlReplaceSubstr (str : Option Buffer) (target replace : Option CString) (len : ℕ)
    (stack : List Byte) : Edit :=
  match str, target, replace with
  | some b, some t, some r =>
    if rlStrIsempty (some b.string) ∨ rlStrIsempty (some t) ∨ rlStrIsempty (some r) then
      .failed str
    else
    match locate b t with
    | none => .failed str
    | some (front, back) =>
      let totalLen := front.length + r.bytes.length + back.length + 1
      if totalLen > len then .failed str else
      let buffer := (⟨stack, []⟩ : Buffer).strcpy b.string.bytes
      let buffer := buffer.set front.length 0
      let buffer := buffer.strcat r.bytes
      let buffer := buffer.strcat back
      ⟨RL_SUCCESS, some (b.strcpy buffer.string.bytes), some buffer⟩
  | _, _, _ => .failed str

def rlReplaceChar (str : Option Buffer) (target : Option CString) (replace : Byte) (len : ℕ)
    (stack : List Byte) : Edit :=
  match str, target with
  | some b, some t =>
    if rlStrIsempty (some b.string) ∨ rlStrIsempty (some t) then .failed str else
    match locate b t with
    | none => .failed str
    | some (front, back) =>
      if front.length + 1 + back.length + 1 > len then .failed str else
      let buffer := (⟨stack, []⟩ : Buffer).strncpy b.string.bytes front.length
      let buffer := buffer.set front.length replace
      let buffer := buffer.set (front.length + 1) 0
      let buffer := buffer.strcat back
      ⟨RL_SUCCESS, some (b.strcpy buffer.string.bytes), some buffer⟩
  | _, _ => .failed str

section Locate

variable {b : Buffer} {s t : CString}

theorem isempty_iff (s : CString) : rlStrIsempty (some s) = true ↔ s.bytes = [] :=
  List.isEmpty_iff

theorem locate_none (hb : b.Holds s.bytes) : locate b t = none ↔ ¬ t.bytes <:+: s.bytes := by
  rw [locate, Option.map_eq_none_iff, hb.string]
  exact cutAt_eq_none

theorem locate_split (hb : b.Holds s.bytes) {front back : List Byte}
    (h : locate b t = some (front, back)) : s.bytes = front ++ t.bytes ++ back := by
  simp only [locate, hb.string, Option.map_eq_some_iff, Prod.mk.injEq] at h
  obtain ⟨⟨before, rest⟩, hcut, rfl, rfl⟩ := h
  obtain ⟨hs, hn⟩ := cutAt_eq_some hcut
  rw [List.append_assoc, List.prefix_iff_eq_append.mp hn]
  exact hs

theorem locate_nonzero (hb : b.Holds s.bytes) {front back : List Byte}
    (h : locate b t = some (front, back)) : 0 ∉ front ∧ 0 ∉ back := by
  have hs := s.nonzero
  rw [locate_split hb h] at hs
  simp only [List.mem_append, not_or] at hs
  exact ⟨hs.1.1, hs.2⟩

theorem exists_locate (hb : b.Holds s.bytes) (h : t.bytes <:+: s.bytes) :
    ∃ front back, locate b t = some (front, back) := by
  cases hl : locate b t with
  | none => exact absurd h ((locate_none hb).mp hl)
  | some r => exact ⟨r.1, r.2, rfl⟩

end Locate

section Routes

variable {b : Buffer} {s t r : CString} {front back : List Byte} {c : Byte} {len : ℕ}

theorem args_nonempty (hb : b.Holds s.bytes) (hs : s.bytes ≠ []) (ht : t.bytes ≠ []) :
    ¬ (rlStrIsempty (some b.string) = true ∨ rlStrIsempty (some t) = true) := by
  rw [isempty_iff, isempty_iff, hb.string]
  exact not_or.mpr ⟨hs, ht⟩

theorem rlReplaceChar_absent (hl : locate b t = none) (c : Byte) (len : ℕ) (stack : List Byte) :
    rlReplaceChar (some b) (some t) c len stack = .failed (some b) := by
  simp [rlReplaceChar, hl]

theorem rlReplaceSubstr_absent (hl : locate b t = none) (r : CString) (len : ℕ)
    (stack : List Byte) :
    rlReplaceSubstr (some b) (some t) (some r) len stack = .failed (some b) := by
  simp [rlReplaceSubstr, hl]

theorem rlRemoveSubstr_absent (hl : locate b t = none) :
    rlRemoveSubstr (some b) (some t) = .failed (some b) := by
  simp [rlRemoveSubstr, hl]

theorem rlReplaceChar_found (hb : b.Holds s.bytes) (hs : s.bytes ≠ []) (ht : t.bytes ≠ [])
    (hl : locate b t = some (front, back)) (hc : c ≠ 0)
    (hfit : front.length + 1 + back.length + 1 ≤ len) (stack : List Byte) :
    (rlReplaceChar (some b) (some t) c len stack).result =
      (RL_SUCCESS, some (front ++ c :: back)) := by
  obtain ⟨hf, hbk⟩ := locate_nonzero hb hl
  have hcopy : front <+: ((⟨stack, []⟩ : Buffer).strncpy b.string.bytes front.length).bytes := by
    rw [hb.string, locate_split hb hl, List.append_assoc]
    exact Buffer.strncpy_copies _ _ _
  have hbuffer := (Buffer.put_holds hcopy hf hc).strcat hbk
  have hresult := Buffer.strcpy_holds b hbuffer.1
  simp only [rlReplaceChar, args_nonempty hb hs ht, hl, Nat.not_lt.mpr hfit, ↓reduceIte,
    Edit.result, Option.map_some, hbuffer.string, hresult.string]
  rw [List.append_assoc, List.singleton_append]

theorem scratch_front (hb : b.Holds s.bytes) (hl : locate b t = some (front, back))
    (stack : List Byte) :
    front <+: ((⟨stack, []⟩ : Buffer).strcpy b.string.bytes).bytes := by
  rw [hb.string]
  refine List.IsPrefix.trans ?_ ((List.prefix_append _ _).trans (Buffer.strcpy_holds _ s.nonzero).2)
  rw [locate_split hb hl, List.append_assoc]
  exact List.prefix_append _ _

theorem args_nonempty_three (hb : b.Holds s.bytes) (hs : s.bytes ≠ []) (ht : t.bytes ≠ [])
    (hr : r.bytes ≠ []) :
    ¬ (rlStrIsempty (some b.string) = true ∨ rlStrIsempty (some t) = true ∨
      rlStrIsempty (some r) = true) := by
  rw [← or_assoc]
  exact not_or.mpr ⟨args_nonempty hb hs ht, mt (isempty_iff r).mp hr⟩

theorem rlReplaceSubstr_refused (hl : locate b t = some (front, back))
    (hbig : len < front.length + r.bytes.length + back.length + 1) (stack : List Byte) :
    rlReplaceSubstr (some b) (some t) (some r) len stack = .failed (some b) := by
  simp [rlReplaceSubstr, hl, hbig]

theorem rlReplaceSubstr_edit (hb : b.Holds s.bytes) (hs : s.bytes ≠ []) (ht : t.bytes ≠ [])
    (hr : r.bytes ≠ []) (hl : locate b t = some (front, back))
    (hfit : front.length + r.bytes.length + back.length + 1 ≤ len) (stack : List Byte) :
    rlReplaceSubstr (some b) (some t) (some r) len stack =
      ⟨RL_SUCCESS, some (b.strcpy (front ++ r.bytes ++ back)),
        some (((((⟨stack, []⟩ : Buffer).strcpy b.string.bytes).set front.length 0).strcat
          r.bytes).strcat back)⟩ := by
  obtain ⟨hf, hbk⟩ := locate_nonzero hb hl
  have hcut := Buffer.cut_holds (scratch_front hb hl stack) hf
  have hbuffer := (hcut.strcat r.nonzero).strcat hbk
  simp only [rlReplaceSubstr, args_nonempty_three hb hs ht hr, hl, Nat.not_lt.mpr hfit, ↓reduceIte,
    hbuffer.string]

theorem replaced_nonzero (hb : b.Holds s.bytes) (hl : locate b t = some (front, back))
    (r : CString) : 0 ∉ front ++ r.bytes ++ back := by
  have hnonzero := locate_nonzero hb hl
  simp [hnonzero, r.nonzero]

theorem rlReplaceSubstr_found (hb : b.Holds s.bytes) (hs : s.bytes ≠ []) (ht : t.bytes ≠ [])
    (hr : r.bytes ≠ []) (hl : locate b t = some (front, back))
    (hfit : front.length + r.bytes.length + back.length + 1 ≤ len) (stack : List Byte) :
    (rlReplaceSubstr (some b) (some t) (some r) len stack).result =
      (RL_SUCCESS, some (front ++ r.bytes ++ back)) := by
  have hresult := Buffer.strcpy_holds b (replaced_nonzero hb hl r)
  rw [rlReplaceSubstr_edit hb hs ht hr hl hfit, Edit.result, Option.map_some, hresult.string]

theorem rlReplaceSubstr_scratch (hb : b.Holds s.bytes) (hs : s.bytes ≠ []) (ht : t.bytes ≠ [])
    (hr : r.bytes ≠ []) (hl : locate b t = some (front, back))
    (hfit : front.length + r.bytes.length + back.length + 1 ≤ len) (stack : List Byte) :
    (rlReplaceSubstr (some b) (some t) (some r) len stack).scratch =
      some (((((⟨stack, []⟩ : Buffer).strcpy b.string.bytes).set front.length 0).strcat
        r.bytes).strcat back) :=
  congrArg Edit.scratch (rlReplaceSubstr_edit hb hs ht hr hl hfit stack)

theorem rlRemoveSubstr_found (hb : b.Holds s.bytes) (hs : s.bytes ≠ []) (ht : t.bytes ≠ [])
    (hl : locate b t = some (front, back)) :
    ∃ b', rlRemoveSubstr (some b) (some t) = ⟨RL_SUCCESS, some b', none⟩ ∧
      b'.Holds (front ++ back) ∧
        ∀ i ∈ b'.writes, i ∈ b.writes ∨ i < (front ++ back).length + 1 := by
  simp only [rlRemoveSubstr, args_nonempty hb hs ht, hl, ↓reduceIte]
  refine ⟨_, rfl, ?_, fun i hi => ?_⟩
  · rw [locate_split hb hl] at hb
    rw [← List.length_append]
    exact hb.memmove_left
  · rw [List.length_append, Nat.add_assoc]
    exact Buffer.mem_memmove_writes hi

theorem rlStrInsertCh_edit (hb : b.Holds (front ++ back))
    (hfit : (front ++ back).length + 1 < len) (c : Byte) :
    rlStrInsertCh (some b) front.length c len =
      ⟨RL_SUCCESS, some ((b.memmove (front.length + 1) front.length (back.length + 1)).set
        front.length c), none⟩ := by
  rw [List.length_append] at hfit
  have hmax : ¬ len = 0 := by omega
  have hroom : ¬ (front ++ back).length ≥ len - 1 := by
    rw [List.length_append]
    omega
  have hpos : ¬ (front.length > (front ++ back).length ∨ front.length ≥ len - 1) := by
    rw [List.length_append]
    omega
  simp only [rlStrInsertCh, hb.string, hmax, hroom, hpos, ↓reduceIte]
  rw [List.length_append, Nat.add_sub_cancel_left]

theorem rlStrInsertCh_fits (hb : b.Holds (front ++ back)) (hc : c ≠ 0)
    (hfit : (front ++ back).length + 1 < len) :
    ∃ b', rlStrInsertCh (some b) front.length c len = ⟨RL_SUCCESS, some b', none⟩ ∧
      b'.Holds (front ++ c :: back) :=
  ⟨_, rlStrInsertCh_edit hb hfit c, hb.memmove_right hc⟩

end Routes

section Agreement

def removeThenInsert (str : Option Buffer) (target : Option CString) (off : ℕ) (ch : Byte)
    (len : ℕ) : Edit :=
  let removed := rlRemoveSubstr str target
  if removed.code = RL_SUCCESS then rlStrInsertCh removed.str off ch len else removed

def firstOffset (str target : List Byte) : ℕ :=
  match cutAt target str with
  | none => 0
  | some (front, _) => front.length

def oneChar (c : Byte) (hc : c ≠ 0) : CString := ⟨[c], by simpa using hc.symm⟩

variable {b : Buffer} {s t : CString} {front back : List Byte} {c : Byte} {len : ℕ}

theorem firstOffset_eq (hb : b.Holds s.bytes) (hl : locate b t = some (front, back)) :
    firstOffset s.bytes t.bytes = front.length := by
  simp only [locate, hb.string, Option.map_eq_some_iff, Prod.mk.injEq] at hl
  obtain ⟨⟨before, rest⟩, hcut, rfl, _⟩ := hl
  simp only [firstOffset, hcut]

theorem removeThenInsert_found (hb : b.Holds s.bytes) (hs : s.bytes ≠ []) (ht : t.bytes ≠ [])
    (hl : locate b t = some (front, back)) (hc : c ≠ 0)
    (hfit : (front ++ back).length + 1 < len) :
    (removeThenInsert (some b) (some t) (firstOffset s.bytes t.bytes) c len).result =
      (RL_SUCCESS, some (front ++ c :: back)) := by
  obtain ⟨removed, hremoved, hrest, _⟩ := rlRemoveSubstr_found hb hs ht hl
  obtain ⟨inserted, hinserted, hheld⟩ := rlStrInsertCh_fits hrest hc hfit
  simp only [removeThenInsert, firstOffset_eq hb hl, hremoved, ↓reduceIte, hinserted, Edit.result,
    Option.map_some, hheld.string]

theorem replace_ways_agree (b : Buffer) (s t : CString) (c : Byte) (len : ℕ)
    (stack stack' : List Byte) (hb : b.Holds s.bytes) (hs : s.bytes ≠ []) (ht : t.bytes ≠ [])
    (hc : c ≠ 0) (hlen : s.bytes.length < len) :
    let replaced := rlReplaceChar (some b) (some t) c len stack
    let substituted := rlReplaceSubstr (some b) (some t) (some (oneChar c hc)) len stack'
    let moved := removeThenInsert (some b) (some t) (firstOffset s.bytes t.bytes) c len
    substituted.result = replaced.result ∧ moved.result = replaced.result ∧
      (¬ t.bytes <:+: s.bytes → ∀ e ∈ [replaced, substituted, moved], e = .failed (some b)) ∧
      (t.bytes <:+: s.bytes → ∀ e ∈ [replaced, substituted, moved], e.code = RL_SUCCESS) := by
  intro replaced substituted moved
  by_cases hin : t.bytes <:+: s.bytes
  · obtain ⟨front, back, hl⟩ := exists_locate hb hin
    have hsplit := congrArg List.length (locate_split hb hl)
    have htarget := List.length_pos_iff.mpr ht
    simp only [List.length_append] at hsplit
    have hreplaced : replaced.result = _ := rlReplaceChar_found hb hs ht hl hc (by omega) stack
    have hsubstituted : substituted.result = _ :=
      rlReplaceSubstr_found (r := oneChar c hc) hb hs ht (List.cons_ne_nil _ _) hl
        (by simp only [oneChar, List.length_singleton]; omega) stack'
    have hmoved : moved.result = _ :=
      removeThenInsert_found hb hs ht hl hc (by rw [List.length_append]; omega)
    rw [oneChar, List.append_assoc, List.singleton_append] at hsubstituted
    refine ⟨hsubstituted.trans hreplaced.symm, hmoved.trans hreplaced.symm,
      fun h => absurd hin h, fun _ e he => ?_⟩
    simp only [List.mem_cons, List.not_mem_nil, or_false] at he
    obtain rfl | rfl | rfl := he
    · exact congrArg Prod.fst hreplaced
    · exact congrArg Prod.fst hsubstituted
    · exact congrArg Prod.fst hmoved
  · have hl := (locate_none hb).mpr hin
    have hreplaced : replaced = .failed (some b) := rlReplaceChar_absent hl c len stack
    have hsubstituted : substituted = .failed (some b) := rlReplaceSubstr_absent hl _ len stack'
    have hmoved : moved = .failed (some b) := by
      simp [moved, removeThenInsert, rlRemoveSubstr_absent hl, Edit.failed, RL_FAILED, RL_SUCCESS]
    refine ⟨by rw [hsubstituted, hreplaced], by rw [hmoved, hreplaced], fun _ e he => ?_,
      fun h => absurd h hin⟩
    simp only [List.mem_cons, List.not_mem_nil, or_false] at he
    obtain rfl | rfl | rfl := he
    · exact hreplaced
    · exact hsubstituted
    · exact hmoved

def spelled : CString := ⟨text "a--b", by decide⟩

def dashes : CString := ⟨text "--", by decide⟩

theorem replace_ways_agree_dashes :
    (rlReplaceSubstr (some ⟨text "a--b" ++ [0], []⟩) (some dashes)
          (some (oneChar 47 (by decide))) 5 []).result =
        (rlReplaceChar (some ⟨text "a--b" ++ [0], []⟩) (some dashes) 47 5 []).result ∧
      (removeThenInsert (some ⟨text "a--b" ++ [0], []⟩) (some dashes)
          (firstOffset spelled.bytes dashes.bytes) 47 5).result =
        (rlReplaceChar (some ⟨text "a--b" ++ [0], []⟩) (some dashes) 47 5 []).result :=
  have h := replace_ways_agree ⟨text "a--b" ++ [0], []⟩ spelled dashes 47 5 [] []
    ⟨by decide, by decide⟩ (by decide) (by decide) (by decide) (by decide)
  ⟨h.1, h.2.1⟩

end Agreement

end RlLibrary.Str
