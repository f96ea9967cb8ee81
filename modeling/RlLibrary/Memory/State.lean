import Mathlib.Data.BitVec
import RlLibrary.Foundation.Heap
import RlLibrary.Foundation.KeyedList
import RlLibrary.Foundation.Mutex
import RlLibrary.Public

/-!
The static state of `rlmem.c` and the critical sections on it. `mem_lock` is taken and
given back inside each of them, so one section is one function.
-/

namespace RlLibrary.Memory

open Foundation

structure CallSite where
  file : String
  func : String
  line : ℤ
  deriving DecidableEq, Repr

/-- `MEM_NODE_T`; `addr` is the block the node itself lives in, `next` is the list order. -/
structure MemNode extends CallSite where
  addr : Addr
  ptr : Addr
  size : BitVec 32
  deriving DecidableEq, Repr

/-- `sizeof(MEM_NODE_T)` with 8-byte pointers. -/
def sizeofMemNode : ℕ := 48

structure MemState where
  rlMemoryTraceState : Bool
  memLock : Mutex
  gMemHeader : List MemNode
  gAllocBlockCount : BitVec 32
  gAllocTotalBytes : BitVec 32
  heap : Heap

namespace MemState

def start (heap : Heap) : MemState := ⟨false, ⟨.uninitialised, false⟩, [], 0, 0, heap⟩

def blocks (s : MemState) : List Addr := s.gMemHeader.map MemNode.ptr

def nodeBlocks (s : MemState) : List Addr := s.gMemHeader.map MemNode.addr

def allocate (s : MemState) (p : Addr) (n : ℕ) : MemState := { s with heap := s.heap.allocate p n }

def release (s : MemState) (p : Addr) : MemState := { s with heap := s.heap.release p }

def resize (s : MemState) (p q : Addr) (n : ℕ) : MemState := { s with heap := s.heap.resize p q n }

def passLock (s : MemState) : MemState := { s with memLock := s.memLock.lock.unlock }

def pushNode (s : MemState) (node : MemNode) : MemState :=
  { s with
    memLock := s.memLock.lock.unlock
    gMemHeader := node :: s.gMemHeader
    gAllocBlockCount := s.gAllocBlockCount + 1
    gAllocTotalBytes := s.gAllocTotalBytes + node.size }

def unlinkNode (s : MemState) (ptr : Addr) : Option MemState :=
  (locate MemNode.ptr ptr s.gMemHeader).map fun (before, temp, after) =>
    { s with
      memLock := s.memLock.lock.unlock
      gMemHeader := before ++ after
      gAllocBlockCount := s.gAllocBlockCount - 1
      gAllocTotalBytes := s.gAllocTotalBytes - temp.size
      heap := s.heap.release temp.addr }

def rekeyNode (s : MemState) (ptr newPtr : Addr) (size : BitVec 32) (site : CallSite) :
    Option MemState :=
  (locate MemNode.ptr ptr s.gMemHeader).map fun (before, cur, after) =>
    { s with
      memLock := s.memLock.lock.unlock
      gMemHeader := before ++ ⟨site, cur.addr, newPtr, size⟩ :: after
      gAllocTotalBytes := s.gAllocTotalBytes - cur.size + size }

theorem unlinkNode_eq_some {s t : MemState} {ptr : Addr} (h : s.unlinkNode ptr = some t) :
    ∃ before temp after, locate MemNode.ptr ptr s.gMemHeader = some (before, temp, after) ∧
      t = { s with
        memLock := s.memLock.lock.unlock
        gMemHeader := before ++ after
        gAllocBlockCount := s.gAllocBlockCount - 1
        gAllocTotalBytes := s.gAllocTotalBytes - temp.size
        heap := s.heap.release temp.addr } := by
  simp only [unlinkNode, Option.map_eq_some_iff] at h
  obtain ⟨⟨before, temp, after⟩, hl, rfl⟩ := h
  exact ⟨before, temp, after, hl, rfl⟩

theorem rekeyNode_eq_some {s t : MemState} {ptr newPtr : Addr} {size : BitVec 32}
    {site : CallSite} (h : s.rekeyNode ptr newPtr size site = some t) :
    ∃ before cur after, locate MemNode.ptr ptr s.gMemHeader = some (before, cur, after) ∧
      t = { s with
        memLock := s.memLock.lock.unlock
        gMemHeader := before ++ ⟨site, cur.addr, newPtr, size⟩ :: after
        gAllocTotalBytes := s.gAllocTotalBytes - cur.size + size } := by
  simp only [rekeyNode, Option.map_eq_some_iff] at h
  obtain ⟨⟨before, cur, after⟩, hl, rfl⟩ := h
  exact ⟨before, cur, after, hl, rfl⟩

theorem unlinkNode_eq_none {s : MemState} {ptr : Addr} :
    s.unlinkNode ptr = none ↔ ptr ∉ s.blocks := by
  rw [unlinkNode, Option.map_eq_none_iff, locate_eq_none, blocks]

theorem rekeyNode_eq_none {s : MemState} {ptr newPtr : Addr} {size : BitVec 32}
    {site : CallSite} : s.rekeyNode ptr newPtr size site = none ↔ ptr ∉ s.blocks := by
  rw [rekeyNode, Option.map_eq_none_iff, locate_eq_none, blocks]

theorem exists_unlinkNode {s : MemState} {ptr : Addr} (h : ptr ∈ s.blocks) :
    ∃ t, s.unlinkNode ptr = some t := by
  cases hu : s.unlinkNode ptr with
  | none => exact absurd h (unlinkNode_eq_none.mp hu)
  | some t => exact ⟨t, rfl⟩

theorem exists_rekeyNode {s : MemState} {ptr : Addr} (newPtr : Addr) (size : BitVec 32)
    (site : CallSite) (h : ptr ∈ s.blocks) : ∃ t, s.rekeyNode ptr newPtr size site = some t := by
  cases hr : s.rekeyNode ptr newPtr size site with
  | none => exact absurd h (rekeyNode_eq_none.mp hr)
  | some t => exact ⟨t, rfl⟩

end MemState

end RlLibrary.Memory
