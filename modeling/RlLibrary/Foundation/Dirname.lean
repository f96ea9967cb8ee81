import Mathlib.Data.List.DropRight
import RlLibrary.Foundation.CString

namespace RlLibrary.Foundation

def upToSlash (path : List Byte) : List Byte :=
  let core := path.rdropWhile fun b => b = 47
  if core = [] then path else core.rdropWhile fun b => b ≠ 47

def rootName (slashes : ℕ) : List Byte := if slashes = 2 then text "//" else text "/"

def dirname (path : List Byte) : List Byte :=
  if upToSlash path = [] then text "." else
  let dir := (upToSlash path).rdropWhile fun b => b = 47
  if dir = [] then rootName (upToSlash path).length else dir

section Dirname

variable {p : Byte → Bool} {path dir name front back : List Byte} {k : ℕ}

theorem rdropWhile_run (hback : ∀ b ∈ back, p b = true) :
    (front ++ back).rdropWhile p = front.rdropWhile p := by
  rw [List.rdropWhile, List.reverse_append, List.dropWhile_append_of_pos]
  · rfl
  · intro b hb
    exact hback b (List.mem_reverse.mp hb)

theorem rdropWhile_last (h : ∀ b, front.getLast? = some b → p b = false) :
    front.rdropWhile p = front := by
  rw [List.rdropWhile_eq_self_iff]
  intro hne
  have hlast := h _ (List.getLast?_eq_some_getLast hne)
  simp [hlast]

theorem exists_last_run (p : Byte → Bool) (bytes : List Byte) :
    ∃ front back, bytes = front ++ back ∧ (∀ b ∈ back, p b = true) ∧
      ∀ b, front.getLast? = some b → p b = false := by
  refine ⟨_, _, List.rdropWhile_append_rtakeWhile.symm, fun b => List.mem_rtakeWhile_imp (p := p),
    fun b hb => ?_⟩
  have hne : bytes.rdropWhile p ≠ [] := by
    intro h
    simp [h] at hb
  have hlast := List.rdropWhile_last_not p bytes hne
  rw [List.getLast?_eq_some_getLast hne, Option.some.injEq] at hb
  rw [hb] at hlast
  simpa using hlast

theorem rootName_length_le (hk : 0 < k) : (rootName k).length ≤ k := by
  rw [rootName]
  split_ifs with htwo
  · rw [htwo]
    exact Nat.le_refl 2
  · exact hk

theorem upToSlash_starts (path : List Byte) : upToSlash path <+: path := by
  simp only [upToSlash]
  split_ifs
  · exact List.prefix_rfl
  · exact (List.rdropWhile_prefix _ _).trans (List.rdropWhile_prefix _ _)

theorem upToSlash_ne_nil (h : path.head? = some 47) : upToSlash path ≠ [] := by
  have hne : path ≠ [] := by
    rintro rfl
    cases h
  simp only [upToSlash]
  split_ifs with hcore
  · exact hne
  · rw [ne_eq, List.rdropWhile_eq_nil_iff]
    intro hall
    have hhead : (path.rdropWhile fun b => b = 47).head? = some 47 := by
      obtain ⟨first, rest, hcons⟩ := List.exists_cons_of_ne_nil hcore
      obtain ⟨more, hmore⟩ := List.rdropWhile_prefix (fun b : Byte => decide (b = 47)) path
      rw [hcons] at hmore ⊢
      rw [← hmore] at h
      exact h
    have hslash := hall 47 (List.mem_of_head? hhead)
    simp at hslash

theorem dirname_length_le_front (h : path.head? = some 47) :
    (dirname path).length ≤ (upToSlash path).length := by
  have hfront := upToSlash_ne_nil h
  simp only [dirname, hfront, ↓reduceIte]
  split_ifs
  · exact rootName_length_le (List.length_pos_iff.mpr hfront)
  · exact (List.rdropWhile_prefix _ _).length_le

theorem dirname_length_le (h : path.head? = some 47) : (dirname path).length ≤ path.length :=
  (dirname_length_le_front h).trans (upToSlash_starts path).length_le

theorem slashes_dropped (dir : List Byte) (k : ℕ) :
    (dir ++ List.replicate k 47).rdropWhile (fun b => b = 47) = dir.rdropWhile fun b => b = 47 :=
  rdropWhile_run fun b hb => by simp [List.eq_of_mem_replicate hb]

theorem open_kept (hdir : dir.getLast? ≠ some 47) : (dir.rdropWhile fun b => b = 47) = dir := by
  apply rdropWhile_last
  rintro b hb
  rw [decide_eq_false_iff_not]
  rintro rfl
  exact hdir hb

theorem upToSlash_slashes (k : ℕ) : upToSlash (List.replicate k 47) = List.replicate k 47 := by
  have hcore := slashes_dropped [] k
  rw [List.nil_append, List.rdropWhile_nil] at hcore
  simp only [upToSlash, hcore, ↓reduceIte]

theorem upToSlash_named (hk : 0 < k) (hname : name ≠ []) (hplain : 47 ∉ name) :
    upToSlash (dir ++ List.replicate k 47 ++ name) = dir ++ List.replicate k 47 := by
  have hcore : (dir ++ List.replicate k 47 ++ name).rdropWhile (fun b => b = 47) =
      dir ++ List.replicate k 47 ++ name := by
    apply open_kept
    rw [List.getLast?_append_of_ne_nil _ hname]
    exact fun h => hplain (List.mem_of_getLast? h)
  have hne : dir ++ List.replicate k 47 ++ name ≠ [] :=
    List.append_ne_nil_of_right_ne_nil _ hname
  simp only [upToSlash, hcore, hne, ↓reduceIte]
  rw [rdropWhile_run fun b hb => by simpa using fun h : b = 47 => hplain (h ▸ hb)]
  apply rdropWhile_last
  intro b hb
  rw [List.getLast?_append_of_ne_nil _ (by simp; omega), List.getLast?_replicate] at hb
  rw [if_neg (Nat.ne_of_gt hk), Option.some.injEq] at hb
  simp [← hb]

theorem upToSlash_trailing (hne : dir ≠ []) (hdir : dir.getLast? ≠ some 47) (k : ℕ) :
    upToSlash (dir ++ List.replicate k 47) = dir.rdropWhile fun b => b ≠ 47 := by
  simp only [upToSlash, slashes_dropped, open_kept hdir, hne, ↓reduceIte]

theorem rootName_nonzero (k : ℕ) : 0 ∉ rootName k := by
  rw [rootName]
  split_ifs <;> decide

theorem dirname_nonzero (h : 0 ∉ path) : 0 ∉ dirname path := by
  simp only [dirname]
  split_ifs
  · decide
  · exact rootName_nonzero _
  · have hstart := (List.rdropWhile_prefix (fun b : Byte => decide (b = 47)) (upToSlash path)).trans
      (upToSlash_starts path)
    exact fun hmem => h (hstart.subset hmem)

theorem dirname_slashes (hk : 0 < k) : dirname (List.replicate k 47) = rootName k := by
  have hne : List.replicate k (47 : Byte) ≠ [] := by simp [Nat.ne_of_gt hk]
  have hdir := slashes_dropped [] k
  rw [List.nil_append, List.rdropWhile_nil] at hdir
  simp only [dirname, upToSlash_slashes, hne, hdir, ↓reduceIte, List.length_replicate]

theorem dirname_named (hdir : dir.getLast? ≠ some 47) (hk : 0 < k) (hname : name ≠ [])
    (hplain : 47 ∉ name) :
    dirname (dir ++ List.replicate k 47 ++ name) = if dir = [] then rootName k else dir := by
  have hne : dir ++ List.replicate k 47 ≠ [] :=
    List.append_ne_nil_of_right_ne_nil _ (by simp [Nat.ne_of_gt hk])
  simp only [dirname, upToSlash_named hk hname hplain, hne, ↓reduceIte, slashes_dropped,
    open_kept hdir]
  split_ifs with hroot
  · rw [hroot, List.nil_append, List.length_replicate]
  · rfl

theorem dirname_shorter (h : dir.head? = some 47) (hdir : dir.getLast? ≠ some 47) (k : ℕ) :
    (dirname (dir ++ List.replicate k 47)).length < dir.length := by
  have hne : dir ≠ [] := by
    rintro rfl
    cases h
  have hlong : (dir ++ List.replicate k 47).head? = some 47 := by
    rw [List.head?_append_of_ne_nil _ hne]
    exact h
  apply (dirname_length_le_front hlong).trans_lt
  rw [upToSlash_trailing hne hdir]
  have hstart := List.rdropWhile_prefix (fun b : Byte => decide (b ≠ 47)) dir
  apply Nat.lt_of_le_of_ne hstart.length_le
  intro hlength
  have hkept := List.rdropWhile_eq_self_iff.mp (hstart.eq_of_length hlength) hne
  rw [List.getLast?_eq_some_getLast hne] at hdir
  simp at hkept hdir
  exact hdir hkept

end Dirname

end RlLibrary.Foundation
