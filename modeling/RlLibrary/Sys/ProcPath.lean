import RlLibrary.Foundation.Buffer
import RlLibrary.Foundation.Dirname
import RlLibrary.Public

namespace RlLibrary.Sys

open Foundation

/-- `readlink` cuts the path off, and refuses an array of no bytes. -/
def readlink (exe : Option CString) (size : ℕ) : Option (List Byte) :=
  if size = 0 then none else exe.map fun path => path.bytes.take size

def rlGetProcDir (buf : Option Buffer) (len : ℕ) (exe : Option CString) : ℤ × Option Buffer :=
  match buf with
  | none => (RL_FAILED, buf)
  | some b =>
    if len = 0 then (RL_FAILED, buf) else
    match readlink exe (len - 1) with
    | none => (RL_FAILED, some (b.set 0 0))
    | some tempBuf => (RL_SUCCESS, some (b.snprintf len (dirname tempBuf)))

def rlGetFileAbsPath (buf : Buffer) (len : ℕ) (filePath : Option CString)
    (exe : Option CString) : ℤ × Buffer :=
  match filePath with
  | none => (RL_FAILED, buf.set 0 0)
  | some file =>
    match rlGetProcDir (some ⟨List.replicate 512 0, []⟩) 512 exe with
    | (_, none) => (RL_FAILED, buf.set 0 0)
    | (code, some tempBuf) =>
      if code = RL_FAILED then (RL_FAILED, buf.set 0 0) else
      (RL_SUCCESS, buf.snprintf len (tempBuf.string.bytes ++ 47 :: file.bytes))

structure ExePath where
  dir : List Byte
  slashes : ℕ
  name : List Byte
  rooted : dir = [] ∨ dir.head? = some 47
  closed : dir.getLast? ≠ some 47
  separated : 0 < slashes
  named : name ≠ []
  plain : 47 ∉ name
  nonzero : 0 ∉ dir ++ name

namespace ExePath

def path (p : ExePath) : CString where
  bytes := p.dir ++ List.replicate p.slashes 47 ++ p.name
  nonzero := by
    have h := p.nonzero
    rw [List.mem_append, not_or] at h
    simp [h]

def directory (p : ExePath) : List Byte := if p.dir = [] then rootName p.slashes else p.dir

theorem exists_exePath (path : CString) (hroot : path.bytes.head? = some 47)
    (hfile : path.bytes.getLast? ≠ some 47) : ∃ p : ExePath, p.path = path := by
  obtain ⟨front, name, hsplit, hname, hlast⟩ := exists_last_run (fun b => b ≠ 47) path.bytes
  obtain ⟨dir, slashes, hfront, hslashes, hdir⟩ := exists_last_run (fun b => b = 47) front
  have hnonzero := path.nonzero
  have hplain : 47 ∉ name := fun h => of_decide_eq_true (hname 47 h) rfl
  have hclosed : dir.getLast? ≠ some 47 := fun h => of_decide_eq_false (hdir 47 h) rfl
  have hrun : slashes = List.replicate slashes.length 47 :=
    List.eq_replicate_iff.mpr ⟨rfl, fun b hb => of_decide_eq_true (hslashes b hb)⟩
  have hfrontne : front ≠ [] := by
    rintro rfl
    rw [hsplit, List.nil_append] at hroot
    exact hplain (List.mem_of_head? hroot)
  have hend : front.getLast? = some 47 := by
    have hgetLast := List.getLast?_eq_some_getLast hfrontne
    rw [hgetLast, Decidable.not_not.mp (of_decide_eq_false (hlast _ hgetLast))]
  have hnamed : name ≠ [] := by
    rintro rfl
    apply hfile
    rw [hsplit, List.append_nil, hend]
  have hseparated : 0 < slashes.length := by
    rw [List.length_pos_iff]
    rintro rfl
    apply hclosed
    rw [← hend, hfront, List.append_nil]
  have hrooted : dir = [] ∨ dir.head? = some 47 := by
    cases dir with
    | nil => exact Or.inl rfl
    | cons b dir =>
      rw [hsplit, hfront] at hroot
      exact Or.inr hroot
  rw [hsplit, hfront] at hnonzero
  simp only [List.mem_append, not_or] at hnonzero
  refine ⟨⟨dir, slashes.length, name, hrooted, hclosed, hseparated, hnamed, hplain, by
    simp [hnonzero]⟩, ?_⟩
  cases path with
  | mk bytes _ =>
    simp only [ExePath.path, CString.mk.injEq]
    rw [← hrun, ← hfront]
    exact hsplit.symm

def Reaches (p : ExePath) (len : ℕ) : Prop :=
  p.dir.length + p.slashes < len - 1 ∨ (p.dir = [] ∧ (len - 1 = 2 ↔ p.slashes = 2))

instance (p : ExePath) (len : ℕ) : Decidable (p.Reaches len) :=
  inferInstanceAs (Decidable (_ ∨ _))

end ExePath

end RlLibrary.Sys
