import Mathlib.Algebra.Group.Nat.Defs
import RlLibrary.Foundation.Machine
import RlLibrary.Str.Copying
import RlLibrary.Str.InsertDelete
import RlLibrary.Str.Leftmost
import RlLibrary.Str.ScratchBound

/-!
A string in an array of `max` bytes, edited by any sequence of the functions of `rlstr.c`: the array
refines a text that knows neither addresses nor terminators.
-/

namespace RlLibrary.Str

open Foundation

variable {max : ℕ}

inductive EditCall where
  | insertCh (pos : ℕ) (ch : Byte)
  | deleteChar (pos : ℕ)
  | removeSubstr (target : Option CString)
  | replaceSubstr (target replace : Option CString) (stack : List Byte)
  | replaceChar (target : Option CString) (replace : Byte) (stack : List Byte)
  | strcpyS (src : Option CString)

def EditCall.run (max : ℕ) (b : Buffer) : EditCall → Edit
  | .insertCh pos ch => rlStrInsertCh (some b) pos ch max
  | .deleteChar pos => rlDeleteChar b pos
  | .removeSubstr target => rlRemoveSubstr (some b) target
  | .replaceSubstr target replace stack => rlReplaceSubstr (some b) target replace max stack
  | .replaceChar target replace stack => rlReplaceChar (some b) target replace max stack
  | .strcpyS src => rlStrcpyS (some b) (.ofNat 64 max) src

def array (max : ℕ) : Machine Buffer EditCall where
  enabled _ _ := True
  next b c := (c.run max b).str.getD b

structure Text (max : ℕ) extends CString where
  fits : bytes.length < max

namespace Text

def put (t : Text max) (s : List Byte) : ℤ × Text max :=
  if h : 0 ∉ s ∧ s.length < max then (RL_SUCCESS, ⟨⟨s, h.1⟩, h.2⟩) else (RL_FAILED, t)

def substitute (t : Text max) (target : Option CString) (s : List Byte) : ℤ × Text max :=
  match target with
  | none => (RL_FAILED, t)
  | some target =>
    if t.bytes = [] ∨ target.bytes = [] then (RL_FAILED, t) else
    match cutAt target.bytes t.bytes with
    | none => (RL_FAILED, t)
    | some (front, rest) => t.put (front ++ s ++ rest.drop target.bytes.length)

def edit (t : Text max) : EditCall → ℤ × Text max
  | .insertCh pos ch =>
    if t.bytes.length + 1 < max ∧ pos ≤ t.bytes.length then
      t.put (t.bytes.take pos ++ if ch = 0 then [] else ch :: t.bytes.drop pos)
    else (RL_FAILED, t)
  | .deleteChar pos =>
    if pos < t.bytes.length then t.put (t.bytes.eraseIdx pos) else (RL_FAILED, t)
  | .removeSubstr target => t.substitute target []
  | .replaceSubstr target replace _ =>
    match replace with
    | none => (RL_FAILED, t)
    | some r => if r.bytes = [] then (RL_FAILED, t) else t.substitute target r.bytes
  | .replaceChar target replace _ => t.substitute target (if replace = 0 then [] else [replace])
  | .strcpyS src =>
    match src with
    | none => (RL_FAILED, t)
    | some s => if s.bytes = [] then (RL_FAILED, t) else t.put (s.bytes.take (max - 1))

def machine (max : ℕ) : Machine (Text max) EditCall where
  enabled _ _ := True
  next t c := (t.edit c).2

theorem put_fits (t : Text max) {s : List Byte} (hs : 0 ∉ s) (hlength : s.length < max) :
    t.put s = (RL_SUCCESS, ⟨⟨s, hs⟩, hlength⟩) := dif_pos ⟨hs, hlength⟩

theorem put_refused (t : Text max) {s : List Byte} (hlength : max ≤ s.length) :
    t.put s = (RL_FAILED, t) := dif_neg fun h => Nat.not_lt.mpr hlength h.2

end Text

def Shows (b : Buffer) (t : Text max) : Prop := b.Holds t.bytes ∧ ∀ i ∈ b.writes, i < max

def Agrees (b : Buffer) (e : Edit) (max : ℕ) (answer : ℤ × Text max) : Prop :=
  e.code = answer.1 ∧ Shows (e.str.getD b) answer.2 ∧ ScratchBounded e max

section Calls

variable {b : Buffer} {t : Text max} {target replace : CString} {front back s : List Byte}

theorem scratch_none {e : Edit} (h : e.scratch = none) : ScratchBounded e max := by
  intro buffer hbuffer
  rw [h] at hbuffer
  cases hbuffer

theorem failed_agrees (h : Shows b t) : Agrees b (.failed (some b)) max (RL_FAILED, t) :=
  ⟨rfl, h, scratch_none rfl⟩

theorem agrees_of_leaves {e : Edit} (h : Shows b t) (hs : 0 ∉ s) (hlength : s.length < max)
    (he : e.Leaves b max s) (hscratch : ScratchBounded e max) : Agrees b e max (t.put s) := by
  obtain ⟨hcode, b', hstr, hholds, hwrites⟩ := he
  rw [t.put_fits hs hlength]
  refine ⟨hcode, ?_, hscratch⟩
  rw [hstr]
  exact ⟨hholds, fun i hi => (hwrites i hi).elim (h.2 i) id⟩

theorem put_zero_holds (hb : front <+: b.bytes) (hf : 0 ∉ front) :
    ((b.memmove (front.length + 1) front.length (back.length + 1)).set front.length 0).Holds front := by
  refine Buffer.cut_holds ?_ hf
  rw [Buffer.memmove]
  have hcut : front <+: b.bytes.take (front.length + 1) :=
    List.prefix_take_iff.mpr ⟨hb, Nat.le_succ _⟩
  rw [Buffer.write, List.append_assoc]
  exact hcut.trans (List.prefix_append _ _)

theorem insert_agrees (h : Shows b t) (pos : ℕ) (ch : Byte) :
    Agrees b (rlStrInsertCh (some b) pos ch max) max (t.edit (.insertCh pos ch)) := by
  by_cases hfit : t.bytes.length + 1 < max ∧ pos ≤ t.bytes.length
  · obtain ⟨front, back, htext, rfl⟩ : ∃ front back, t.bytes = front ++ back ∧ front.length = pos :=
      ⟨_, _, (List.take_append_drop pos _).symm, List.length_take_of_le hfit.2⟩
    have hheld : b.Holds (front ++ back) := htext ▸ h.1
    have hroom : (front ++ back).length + 1 < max := htext ▸ hfit.1
    have hnonzero : 0 ∉ front ∧ 0 ∉ back := by simpa [not_or] using hheld.1
    rw [Text.edit, if_pos hfit, htext, List.take_left, List.drop_left]
    by_cases hch : ch = 0
    · -- a zero byte ends the text
      rw [if_pos hch, List.append_nil, rlStrInsertCh_edit hheld hroom, hch]
      rw [List.length_append] at hroom
      refine agrees_of_leaves h hnonzero.1 (by omega) ⟨rfl, _, rfl, ?_, fun i hi => ?_⟩ (scratch_none rfl)
      · apply put_zero_holds _ hnonzero.1
        exact (List.prefix_append front back).trans ((List.prefix_append _ _).trans hheld.2)
      · refine (mem_inserted_writes hi).imp_right fun hlt => ?_
        rw [List.length_append] at hlt
        omega
    · rw [if_neg hch]
      refine agrees_of_leaves h ?_ ?_ (insert_leaves hheld hch hroom) ?_
      · simp only [List.mem_append, List.mem_cons, not_or]
        exact ⟨hnonzero.1, Ne.symm hch, hnonzero.2⟩
      · simp only [List.length_append, List.length_cons] at hroom ⊢
        omega
      · rw [rlStrInsertCh_edit hheld hroom ch]
        exact (scratch_none rfl)
  · rw [Text.edit, if_neg hfit, rlStrInsertCh_refused h.1 (by omega)]
    exact failed_agrees h

theorem delete_agrees (h : Shows b t) (pos : ℕ) :
    Agrees b (rlDeleteChar b pos) max (t.edit (.deleteChar pos)) := by
  by_cases hpos : pos < t.bytes.length
  · have hleaves := ((delete_spec h.1 t.fits pos).1 _ (List.getElem?_eq_getElem hpos)).1
    have hshort := t.fits
    rw [Text.edit, if_pos hpos]
    refine agrees_of_leaves h (fun hzero => t.nonzero (List.mem_of_mem_eraseIdx hzero)) ?_ hleaves ?_
    · rw [List.length_eraseIdx_of_lt hpos]
      omega
    · rw [rlDeleteChar]
      split_ifs <;> exact (scratch_none rfl)
  · rw [Text.edit, if_neg hpos, rlDeleteChar_refused h.1 (Nat.not_lt.mp hpos)]
    exact failed_agrees h

theorem copy_agrees (h : Shows b t) (hmax : max < 2 ^ 64) (src : Option CString) :
    Agrees b (rlStrcpyS (some b) (.ofNat 64 max) src) max (t.edit (.strcpyS src)) := by
  cases src with
  | none => exact failed_agrees h
  | some s =>
    have hpos : 0 < max := Nat.zero_lt_of_lt t.fits
    by_cases hs : s.bytes = []
    · have hempty : rlStrIsempty (some s) = true := (isempty_iff s).mpr hs
      simp only [Text.edit, hs, rlStrcpyS, hempty, ↓reduceIte]
      exact failed_agrees h
    · have hsize : (BitVec.ofNat 64 max - 1).toNat = max - 1 := by
        rw [BitVec.toNat_sub_of_le]
        · rw [BitVec.toNat_ofNat, Nat.mod_eq_of_lt hmax]
          rfl
        · rw [BitVec.le_def, BitVec.toNat_ofNat, Nat.mod_eq_of_lt hmax]
          exact hpos
      have hle : min s.bytes.length (max - 1) ≤ s.bytes.length := Nat.min_le_left _ _
      have hcut : s.bytes.take (min s.bytes.length (max - 1)) = s.bytes.take (max - 1) := by
        rw [List.take_eq_take_iff]
        omega
      have hcopied := copied_holds b s hle
      rw [hcut] at hcopied
      simp only [Text.edit, hs, ↓reduceIte]
      rw [rlStrcpyS_edit hs, hsize]
      refine agrees_of_leaves h hcopied.1 ?_ ⟨rfl, _, rfl, hcopied, fun i hi => ?_⟩ (scratch_none rfl)
      · rw [List.length_take]
        omega
      · refine (mem_copied_writes hle hi).imp_right fun hle => ?_
        omega

theorem substitute_agrees (h : Shows b t) {e : Edit}
    (hempty : t.bytes = [] ∨ target.bytes = [] → e = .failed (some b))
    (habsent : locate b target = none → e = .failed (some b))
    (hfound : ∀ front back, t.bytes ≠ [] → target.bytes ≠ [] → locate b target = some (front, back) →
      (max ≤ (front ++ s ++ back).length → e = .failed (some b)) ∧
        ((front ++ s ++ back).length < max →
          e.Leaves b max (front ++ s ++ back) ∧ ScratchBounded e max)) :
    Agrees b e max (t.substitute (some target) s) := by
  simp only [Text.substitute]
  split_ifs with hargs
  · rw [hempty hargs]
    exact failed_agrees h
  · obtain ⟨hs, ht⟩ := not_or.mp hargs
    have hlocate : locate b target =
        (cutAt target.bytes t.bytes).map fun r => (r.1, r.2.drop target.bytes.length) := by
      rw [locate, h.1.string]
    cases hcut : cutAt target.bytes t.bytes with
    | none =>
      rw [hcut] at hlocate
      rw [habsent hlocate]
      exact failed_agrees h
    | some r =>
      rw [hcut] at hlocate
      obtain ⟨hrefused, hdone⟩ := hfound _ _ hs ht hlocate
      dsimp only
      rcases Nat.lt_or_ge (r.1 ++ s ++ r.2.drop target.bytes.length).length max with hfits | hbig
      · obtain ⟨hleaves, hscratch⟩ := hdone hfits
        obtain ⟨_, b', _, hholds, _⟩ := id hleaves
        exact agrees_of_leaves h hholds.1 hfits hleaves hscratch
      · rw [hrefused hbig, t.put_refused hbig]
        exact failed_agrees h

theorem empty_args (h : Shows b t) (hempty : t.bytes = [] ∨ target.bytes = []) :
    rlStrIsempty (some b.string) = true ∨ rlStrIsempty (some target) = true := by
  rwa [isempty_iff, isempty_iff, h.1.string]

theorem remove_agrees (h : Shows b t) (target : CString) :
    Agrees b (rlRemoveSubstr (some b) (some target)) max (t.substitute (some target) []) := by
  refine substitute_agrees h (fun hempty => ?_) rlRemoveSubstr_absent fun front back hs ht hl => ?_
  · simp only [rlRemoveSubstr, empty_args h hempty, ↓reduceIte]
  · have hsplit := congrArg List.length (locate_split h.1 hl)
    have hfits := t.fits
    obtain ⟨b', hedit, hholds, hwrites⟩ := rlRemoveSubstr_found h.1 hs ht hl
    simp only [List.length_append] at hsplit hwrites
    rw [List.append_nil, hedit]
    refine ⟨fun hbig => ?_, fun _ => ⟨⟨rfl, b', rfl, hholds, fun i hi => ?_⟩, scratch_none rfl⟩⟩
    · rw [List.length_append] at hbig
      omega
    · exact (hwrites i hi).imp_right fun hlt => by omega

theorem replaceSubstr_agrees (h : Shows b t) (target replace : CString) (hr : replace.bytes ≠ [])
    (stack : List Byte) :
    Agrees b (rlReplaceSubstr (some b) (some target) (some replace) max stack) max
      (t.substitute (some target) replace.bytes) := by
  refine substitute_agrees h (fun hempty => ?_) (fun hl => rlReplaceSubstr_absent hl replace max stack)
    fun front back hs ht hl => ⟨fun hbig => ?_, fun hfits => ⟨⟨?_, ?_⟩, ?_⟩⟩
  · have hargs := or_assoc.mp (Or.inl (empty_args h hempty) :
      _ ∨ rlStrIsempty (some replace) = true)
    simp only [rlReplaceSubstr, hargs, ↓reduceIte]
  · apply rlReplaceSubstr_refused hl
    simp only [List.length_append] at hbig
    omega
  · simp only [List.length_append] at hfits
    rw [rlReplaceSubstr_edit h.1 hs ht hr hl (by omega)]
  · simp only [List.length_append] at hfits
    rw [rlReplaceSubstr_edit h.1 hs ht hr hl (by omega)]
    refine ⟨_, rfl, Buffer.strcpy_holds b (replaced_nonzero h.1 hl replace), fun i hi => ?_⟩
    rw [Buffer.strcpy, Buffer.mem_write_writes] at hi
    simp only [List.length_append, List.length_singleton] at hi
    exact hi.imp_right fun hrange => by omega
  · exact (scratch_bounded_iff b t.toCString target replace max stack h.1 hs ht hr).mpr
      fun _ _ => t.fits

theorem replaced_char_holds (hb : front <+: b.bytes) (hf : 0 ∉ front) (ch : Byte) :
    ((b.set front.length ch).set (front.length + 1) 0).Holds
      (front ++ if ch = 0 then [] else [ch]) := by
  by_cases hch : ch = 0
  · rw [if_pos hch, List.append_nil, hch]
    have hcut := Buffer.cut_holds hb hf
    have hset := Buffer.write_extends hcut.2 [0]
    rw [List.length_append, List.length_singleton] at hset
    exact ⟨hf, (List.prefix_append _ _).trans hset⟩
  · rw [if_neg hch]
    exact Buffer.put_holds hb hf hch

theorem rlReplaceChar_edit (h : Shows b t) (hs : t.bytes ≠ []) (ht : target.bytes ≠ [])
    (hl : locate b target = some (front, back)) (hroom : front.length + 1 + back.length + 1 ≤ max)
    (ch : Byte) (stack : List Byte) :
    let buffer := (((⟨stack, []⟩ : Buffer).strncpy t.bytes front.length).set front.length ch).set
      (front.length + 1) 0
    buffer.Holds (front ++ if ch = 0 then [] else [ch]) ∧
      rlReplaceChar (some b) (some target) ch max stack =
        ⟨RL_SUCCESS, some (b.strcpy ((front ++ if ch = 0 then [] else [ch]) ++ back)),
          some (buffer.strcat back)⟩ := by
  intro buffer
  obtain ⟨hf, hbk⟩ := locate_nonzero h.1 hl
  have hcopy : front <+: ((⟨stack, []⟩ : Buffer).strncpy t.bytes front.length).bytes := by
    rw [locate_split h.1 hl, List.append_assoc]
    exact Buffer.strncpy_copies _ _ _
  have hput : buffer.Holds _ := replaced_char_holds hcopy hf ch
  have hargs := args_nonempty h.1 hs ht
  refine ⟨hput, ?_⟩
  simp only [rlReplaceChar, hargs, hl, Nat.not_lt.mpr hroom, ↓reduceIte, h.1.string, buffer]
  rw [(hput.strcat hbk).string]

theorem replaceChar_agrees (h : Shows b t) (target : CString) (ch : Byte) (stack : List Byte) :
    Agrees b (rlReplaceChar (some b) (some target) ch max stack) max
      (t.substitute (some target) (if ch = 0 then [] else [ch])) := by
  refine substitute_agrees h (fun hempty => ?_) (fun hl => rlReplaceChar_absent hl ch max stack)
    fun front back hs ht hl => ?_
  · simp only [rlReplaceChar, empty_args h hempty, ↓reduceIte]
  · obtain ⟨hf, hbk⟩ := locate_nonzero h.1 hl
    have hsplit := congrArg List.length (locate_split h.1 hl)
    have htarget := List.length_pos_iff.mpr ht
    have hfits := t.fits
    have hone : (if ch = 0 then [] else [ch] : List Byte).length ≤ 1 := by split_ifs <;> simp
    simp only [List.length_append] at hsplit
    obtain ⟨hput, hedit⟩ := rlReplaceChar_edit h hs ht hl (by omega) ch stack
    rw [hedit]
    refine ⟨fun hbig => ?_, fun hsmall =>
      ⟨⟨rfl, _, rfl, Buffer.strcpy_holds b (hput.strcat hbk).1, fun i hi => ?_⟩, ?_⟩⟩
    · simp only [List.length_append] at hbig
      omega
    · rw [Buffer.strcpy, Buffer.mem_write_writes] at hi
      simp only [List.length_append, List.length_singleton] at hi hsmall
      exact hi.imp_right fun hrange => by omega
    · rintro buffer ⟨⟩ i hi
      rw [Buffer.strcat, Buffer.mem_write_writes, hput.string, Buffer.set, Buffer.mem_write_writes, Buffer.set,
        Buffer.mem_write_writes, Buffer.strncpy, Buffer.mem_write_writes] at hi
      simp only [List.length_append, List.length_singleton, List.length_take, List.length_replicate,
        List.not_mem_nil, false_or] at hi
      omega

theorem edit_agrees (h : Shows b t) (hmax : max < 2 ^ 64) (c : EditCall) :
    Agrees b (c.run max b) max (t.edit c) := by
  cases c with
  | insertCh pos ch => exact insert_agrees h pos ch
  | deleteChar pos => exact delete_agrees h pos
  | removeSubstr target =>
    cases target with
    | none => exact failed_agrees h
    | some target => exact remove_agrees h target
  | replaceSubstr target replace stack =>
    cases replace with
    | none =>
      cases target with
      | none => exact failed_agrees h
      | some target => exact failed_agrees h
    | some replace =>
      by_cases hr : replace.bytes = []
      · have hempty : rlStrIsempty (some replace) = true := (isempty_iff replace).mpr hr
        rw [Text.edit, if_pos hr]
        cases target with
        | none => exact failed_agrees h
        | some target =>
          simp only [EditCall.run, rlReplaceSubstr, hempty, or_true, ↓reduceIte]
          exact failed_agrees h
      · rw [Text.edit, if_neg hr]
        cases target with
        | none => exact failed_agrees h
        | some target => exact replaceSubstr_agrees h target replace hr stack
  | replaceChar target replace stack =>
    cases target with
    | none => exact failed_agrees h
    | some target => exact replaceChar_agrees h target replace stack
  | strcpyS src => exact copy_agrees h hmax src

end Calls

section Session

variable {b : Buffer} {t : Text max}

theorem array_exec (h : Shows b t) (hmax : max < 2 ^ 64) (run : List EditCall) :
    Shows ((array max).exec b run) ((Text.machine max).exec t run) :=
  Machine.simulate (R := Shows) (fun _ _ c hR _ => (edit_agrees hR hmax c).2.1) h
    (Machine.valid_of_enabled _ (fun _ _ => trivial) _ _)

/-- Whatever is done to the array, it is the text: every call answers as it does on the text, the array
holds the text after each of them, and nothing is written behind the array or a local one. -/
theorem session_refines (max : ℕ) (hmax : max < 2 ^ 64) (bytes : List Byte) (t : Text max)
    (hstart : t.bytes ++ [0] <+: bytes) (run : List EditCall) :
    let start : Buffer := ⟨bytes, []⟩
    (array max).replies (fun b c => (c.run max b).code) start run =
        (Text.machine max).replies (fun t c => (t.edit c).1) t run ∧
      ∀ pre, pre <+: run →
        let b := (array max).exec start pre
        b.Holds ((Text.machine max).exec t pre).bytes ∧ (∀ i ∈ b.writes, i < max) ∧
          ∀ c, pre ++ [c] <+: run → ScratchBounded (c.run max b) max := by
  intro start
  have hshows : Shows start t := ⟨⟨t.nonzero, hstart⟩, fun i hi => absurd hi List.not_mem_nil⟩
  refine ⟨?_, fun pre _ => ?_⟩
  · exact Machine.simulate_replies (R := Shows) (fun _ _ c hR _ => (edit_agrees hR hmax c).2.1)
      (fun _ _ c hR _ => (edit_agrees hR hmax c).1) hshows
      (Machine.valid_of_enabled _ (fun _ _ => trivial) _ _)
  · have hpre := array_exec hshows hmax pre
    exact ⟨hpre.1, hpre.2, fun c _ => (edit_agrees hpre hmax c).2.2⟩

def editedPair : Text 8 := ⟨⟨text "p=q", by decide⟩, by decide⟩

def pairEdits : List EditCall :=
  [.insertCh 1 101, .replaceChar (some (oneChar 61 (by decide))) 0 [], .deleteChar 9]

theorem session_refines_pair :
    (array 8).replies (fun b c => (c.run 8 b).code) ⟨text "p=q" ++ List.replicate 5 0, []⟩ pairEdits =
        [RL_SUCCESS, RL_SUCCESS, RL_FAILED] ∧
      ((array 8).exec ⟨text "p=q" ++ List.replicate 5 0, []⟩ pairEdits).Holds (text "peq") := by
  have hstart : editedPair.bytes ++ [0] <+: text "p=q" ++ List.replicate 5 0 := ⟨List.replicate 4 0, by decide⟩
  obtain ⟨hcodes, hruns⟩ := session_refines 8 (by decide) _ editedPair hstart pairEdits
  have htext : ((Text.machine 8).exec editedPair pairEdits).bytes = text "peq" := by decide
  have hheld := (hruns pairEdits List.prefix_rfl).1
  rw [htext] at hheld
  exact ⟨hcodes.trans (by decide), hheld⟩

end Session

end RlLibrary.Str
