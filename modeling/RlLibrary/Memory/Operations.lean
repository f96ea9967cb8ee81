import RlLibrary.Memory.State

/-!
The functions of `rlmem.c`. Answers of the underlying allocator are arguments: `block` is the
client block's malloc/calloc/realloc, `node` the malloc of the trace node, `none` is NULL.
Call sites passed to `rl_free` only reach the log and are left out.
-/

namespace RlLibrary.Memory

open Foundation MemState

/-- What `pthread_mutex_init` answers is not looked at. -/
def rlMemoryTraceInit (state mutexInit : Bool) (s : MemState) : MemState :=
  if s.rlMemoryTraceState then s
  else if state then
    { s with memLock := s.memLock.init mutexInit, gMemHeader := [], rlMemoryTraceState := true }
  else
    { s with memLock := s.memLock.destroy, rlMemoryTraceState := false }

/-- Answers to `rl_memory_trace_deinit`: the text left in `path`, the process name, the local
time (`none` where the call returned `RL_FAILED`), and whether `fopen` gave a file. -/
structure DeinitAnswers where
  path : Option (List UInt8)
  name : Option (List UInt8)
  time : Option RlTime
  fopen : Bool

inductive ReportLine where
  | title
  | date (year mon mday hour min sec : ℤ)
  | noLeaks
  | leak (ptr : Addr) (size : BitVec 32) (site : CallSite)
  | total (leakCount leakBytes : BitVec 32)
  | rule
  deriving DecidableEq, Repr

structure Drain where
  report : List ReportLine
  leakCount : BitVec 32
  leakBytes : BitVec 32
  heap : Heap

def Drain.node (d : Drain) (node : MemNode) : Drain :=
  { report := d.report ++ [.leak node.ptr node.size node.toCallSite]
    leakCount := d.leakCount + 1
    leakBytes := d.leakBytes + node.size
    heap := d.heap.release node.addr }

def Drain.nodes (d : Drain) (nodes : List MemNode) : Drain := nodes.foldl Drain.node d

theorem Drain.heap_other (d : Drain) {nodes : List MemNode} {a : Addr}
    (ha : a ∉ nodes.map MemNode.addr) : (d.nodes nodes).heap a = d.heap a := by
  induction nodes generalizing d with
  | nil => rfl
  | cons n ns ih =>
    simp only [List.map_cons, List.mem_cons, not_or] at ha
    change ((d.node n).nodes ns).heap a = d.heap a
    rw [ih _ ha.2]
    exact Heap.release_other _ ha.1

def reportHead (time : RlTime) : List ReportLine :=
  [.title, .date (time.tmYear + 1900) (time.tmMon + 1) time.tmMday time.tmHour time.tmMin time.tmSec]

def rlMemoryTraceDeinit (ans : DeinitAnswers) (s : MemState) : ℤ × List ReportLine × MemState :=
  if s.rlMemoryTraceState = false then (RL_FAILED, [], s) else
  match ans.path with
  | none => (RL_FAILED, [], s)
  | some path =>
    if path = [] then (RL_FAILED, [], s) else
    match ans.name with
    | none => (RL_FAILED, [], s)
    | some _ =>
      let remain : ℤ := 1024 - path.length
      if ¬ remain > 0 then (RL_FAILED, [], s) else
      match ans.time with
      | none => (RL_FAILED, [], s)
      | some time =>
        if ans.fopen = false then (RL_FAILED, [], s.passLock) else
        let drained := Drain.nodes ⟨reportHead time, 0, 0, s.heap⟩ s.gMemHeader
        let body := if s.gMemHeader = [] then drained.report ++ [.noLeaks]
          else drained.report ++ [.total drained.leakCount drained.leakBytes]
        (RL_SUCCESS, body ++ [.rule],
          { s with
            memLock := s.memLock.lock.unlock.destroy
            gMemHeader := []
            heap := drained.heap
            rlMemoryTraceState := false })

def recordBlock (ptr : Addr) (size : BitVec 32) (site : CallSite) (node : Option Addr)
    (s : MemState) : Option Addr × MemState :=
  match node with
  | none => (none, s.release ptr)
  | some a => (some ptr, (s.allocate a sizeofMemNode).pushNode ⟨site, a, ptr, size⟩)

def obtainBlock (bytes : ℕ) (size : BitVec 32) (site : CallSite) (block node : Option Addr)
    (s : MemState) : Option Addr × MemState :=
  match block with
  | none => (none, s)
  | some ptr =>
    let s := s.allocate ptr bytes
    if s.rlMemoryTraceState then recordBlock ptr size site node s else (some ptr, s)

def rlMalloc (size : BitVec 32) (site : CallSite) (block node : Option Addr) (s : MemState) :
    Option Addr × MemState :=
  if size = 0#32 then (none, s) else obtainBlock size.toNat size site block node s

def rlCalloc (block count : BitVec 32) (site : CallSite) (zeroed node : Option Addr)
    (s : MemState) : Option Addr × MemState :=
  if block = 0#32 ∨ count = 0#32 then (none, s) else
  -- `size` is an unsigned int, the request itself is a product of two size_t
  let size := block * count
  obtainBlock (block.toNat * count.toNat) size site zeroed node s

def rlRealloc (ptr : Option Addr) (size : BitVec 32) (site : CallSite)
    (block node : Option Addr) (s : MemState) : Option Addr × MemState :=
  if size = 0#32 then (none, s) else
  match ptr with
  | none => rlMalloc size site block node s
  | some ptr =>
    match block with
    | none => (none, s)
    | some newPtr =>
      let s := s.resize ptr newPtr size.toNat
      if s.rlMemoryTraceState then
        match s.rekeyNode ptr newPtr size site with
        | some s => (some newPtr, s)
        | none => recordBlock newPtr size site node s.passLock
      else (some newPtr, s)

def rlFree (ptr : Option Addr) (s : MemState) : ℤ × MemState :=
  match ptr with
  | none => (RL_FAILED, s)
  | some ptr =>
    if s.rlMemoryTraceState then
      match s.unlinkNode ptr with
      | none => (RL_FAILED, s.passLock)
      | some s => (RL_SUCCESS, s.release ptr)
    else (RL_SUCCESS, s.release ptr)

section Branches

variable {s : MemState} (bytes : ℕ) (size : BitVec 32) (site : CallSite)

theorem obtainBlock_off (hs : s.rlMemoryTraceState = false) (p : Addr) (node : Option Addr) :
    obtainBlock bytes size site (some p) node s = (some p, s.allocate p bytes) := by
  simp [obtainBlock, MemState.allocate, hs]

theorem obtainBlock_on (hs : s.rlMemoryTraceState = true) (p : Addr) (node : Option Addr) :
    obtainBlock bytes size site (some p) node s =
      recordBlock p size site node (s.allocate p bytes) := by
  simp [obtainBlock, MemState.allocate, hs]

theorem recordBlock_none (p : Addr) : recordBlock p size site none s = (none, s.release p) := rfl

theorem rlMalloc_pos (hz : size ≠ 0#32) (block node : Option Addr) :
    rlMalloc size site block node s = obtainBlock size.toNat size site block node s := by
  simp [rlMalloc, hz]

theorem rlRealloc_null (block node : Option Addr) :
    rlRealloc none size site block node s = rlMalloc size site block node s := by
  by_cases hz : size = 0#32 <;> simp [rlRealloc, rlMalloc, hz]

theorem rlRealloc_failed (p : Addr) (node : Option Addr) :
    rlRealloc (some p) size site none node s = (none, s) := by
  by_cases hz : size = 0#32 <;> simp [rlRealloc, hz]

theorem rlRealloc_off (hs : s.rlMemoryTraceState = false) (hz : size ≠ 0#32) (p q : Addr)
    (node : Option Addr) :
    rlRealloc (some p) size site (some q) node s = (some q, s.resize p q size.toNat) := by
  simp [rlRealloc, MemState.resize, hs, hz]

theorem rlRealloc_found (hs : s.rlMemoryTraceState = true) (hz : size ≠ 0#32) {p q : Addr}
    {t : MemState} (ht : (s.resize p q size.toNat).rekeyNode p q size site = some t)
    (node : Option Addr) : rlRealloc (some p) size site (some q) node s = (some q, t) := by
  have hs' : (s.resize p q size.toNat).rlMemoryTraceState = true := hs
  simp [rlRealloc, hs', hz, ht]

theorem rlRealloc_missing (hs : s.rlMemoryTraceState = true) (hz : size ≠ 0#32) {p : Addr}
    (hp : p ∉ s.blocks) (q : Addr) (node : Option Addr) :
    rlRealloc (some p) size site (some q) node s =
      recordBlock q size site node (s.resize p q size.toNat).passLock := by
  have hs' : (s.resize p q size.toNat).rlMemoryTraceState = true := hs
  have hn : (s.resize p q size.toNat).rekeyNode p q size site = none := rekeyNode_eq_none.mpr hp
  simp [rlRealloc, hs', hz, hn]

theorem rlFree_off (hs : s.rlMemoryTraceState = false) (p : Addr) :
    rlFree (some p) s = (RL_SUCCESS, s.release p) := by simp [rlFree, hs]

theorem rlFree_found (hs : s.rlMemoryTraceState = true) {p : Addr} {t : MemState}
    (ht : s.unlinkNode p = some t) : rlFree (some p) s = (RL_SUCCESS, t.release p) := by
  simp [rlFree, hs, ht]

theorem rlFree_missing (hs : s.rlMemoryTraceState = true) {p : Addr} (hp : p ∉ s.blocks) :
    rlFree (some p) s = (RL_FAILED, s.passLock) := by
  simp [rlFree, hs, unlinkNode_eq_none.mpr hp]

theorem rlMemoryTraceDeinit_cases (ans : DeinitAnswers) (s : MemState) :
    ((rlMemoryTraceDeinit ans s).1 = RL_FAILED ∧
      ((rlMemoryTraceDeinit ans s).2.2 = s ∨ (rlMemoryTraceDeinit ans s).2.2 = s.passLock)) ∨
    (s.rlMemoryTraceState = true ∧ (rlMemoryTraceDeinit ans s).1 = RL_SUCCESS ∧
      ∃ d : Drain, (rlMemoryTraceDeinit ans s).2.2 = { s with
        memLock := s.memLock.lock.unlock.destroy
        gMemHeader := []
        heap := (d.nodes s.gMemHeader).heap
        rlMemoryTraceState := false } ∧ d.heap = s.heap) := by
  unfold rlMemoryTraceDeinit
  cases hs : s.rlMemoryTraceState with
  | false => simp
  | true =>
    cases ans.path with
    | none => simp
    | some path =>
      by_cases he : path = []
      · simp [he]
      cases ans.name with
      | none => simp [he]
      | some name =>
        by_cases hr : 1024 - (path.length : ℤ) > 0
        · cases ans.time with
          | none => simp only [he, hr, not_true_eq_false, ↓reduceIte, Bool.true_eq_false]; simp
          | some time =>
            cases ans.fopen with
            | false => simp only [he, hr, not_true_eq_false, ↓reduceIte, Bool.true_eq_false]; simp
            | true =>
              right
              simp only [he, hr, not_true_eq_false, ↓reduceIte, Bool.true_eq_false]
              exact ⟨trivial, trivial, _, rfl, rfl⟩
        · simp only [he, hr, not_false_eq_true, ↓reduceIte, Bool.true_eq_false]
          simp

end Branches

inductive Reply where
  | nothing
  | pointer (p : Option Addr)
  | code (c : ℤ)
  deriving DecidableEq, Repr

inductive Call where
  | init (state mutexInit : Bool)
  | deinit (ans : DeinitAnswers)
  | malloc (size : BitVec 32) (site : CallSite) (block node : Option Addr)
  | calloc (block count : BitVec 32) (site : CallSite) (zeroed node : Option Addr)
  | realloc (ptr : Option Addr) (size : BitVec 32) (site : CallSite) (block node : Option Addr)
  | free (ptr : Option Addr)
  | systemMalloc (ptr : Addr) (bytes : ℕ)
  | systemFree (ptr : Addr)

namespace Call

def apply (s : MemState) : Call → Reply × MemState
  | init state mutexInit => (.nothing, rlMemoryTraceInit state mutexInit s)
  | deinit ans =>
    let r := rlMemoryTraceDeinit ans s
    (.code r.1, r.2.2)
  | malloc size site block node =>
    let r := rlMalloc size site block node s
    (.pointer r.1, r.2)
  | calloc block count site zeroed node =>
    let r := rlCalloc block count site zeroed node s
    (.pointer r.1, r.2)
  | realloc ptr size site block node =>
    let r := rlRealloc ptr size site block node s
    (.pointer r.1, r.2)
  | free ptr =>
    let r := rlFree ptr s
    (.code r.1, r.2)
  | systemMalloc ptr bytes => (.nothing, s.allocate ptr bytes)
  | systemFree ptr => (.nothing, s.release ptr)

def KeepsRound : Call → Prop
  | init _ _ => False
  | deinit _ => False
  | _ => True

instance : DecidablePred KeepsRound := fun c => by
  cases c <;> simp only [KeepsRound] <;> infer_instance

def request : Call → Option (ℕ × CallSite)
  | malloc size site _ _ => some (size.toNat, site)
  | calloc block count site _ _ => some (block.toNat * count.toNat, site)
  | realloc _ size site _ _ => some (size.toNat, site)
  | _ => none

end Call

end RlLibrary.Memory
