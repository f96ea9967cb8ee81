import RlLibrary.Foundation.ThreadPool
import RlLibrary.Memory.Operations

/-!
`rl_malloc`, `rl_calloc`, `rl_realloc` and `rl_free` cut at their calls to the underlying
allocator and at their critical sections, for any number of threads. `Role` is bookkeeping
of the model: no step of the code reads it.
-/

namespace RlLibrary.Memory

open Foundation MemState

inductive Request where
  | malloc (size : BitVec 32) (site : CallSite)
  | calloc (block count : BitVec 32) (site : CallSite)
  | realloc (ptr : Option Addr) (size : BitVec 32) (site : CallSite)
  | free (ptr : Option Addr)
  deriving DecidableEq, Repr

def Request.pointer : Request → Option Addr
  | realloc ptr _ _ => ptr
  | free ptr => ptr
  | _ => none

/-- What a thread does next; each point but `returned` is one atomic step. -/
inductive Point where
  | returned (reply : Reply)
  | malloc (bytes : ℕ) (size : BitVec 32) (site : CallSite)
  | mallocNode (ptr : Addr) (size : BitVec 32) (site : CallSite)
  | discard (ptr : Addr)
  | push (node : MemNode)
  | realloc (ptr : Addr) (size : BitVec 32) (site : CallSite)
  | search (ptr newPtr : Addr) (size : BitVec 32) (site : CallSite)
  | unlink (ptr : Addr)
  | free (ptr : Addr)
  deriving DecidableEq, Repr

def Request.enter (s : MemState) : Request → Point
  | malloc size site =>
    if size = 0#32 then .returned (.pointer none) else .malloc size.toNat size site
  | calloc block count site =>
    if block = 0#32 ∨ count = 0#32 then .returned (.pointer none)
    else .malloc (block.toNat * count.toNat) (block * count) site
  | realloc ptr size site =>
    if size = 0#32 then .returned (.pointer none) else
    match ptr with
    | none => .malloc size.toNat size site
    | some ptr => .realloc ptr size site
  | free ptr =>
    match ptr with
    | none => .returned (.code RL_FAILED)
    | some ptr => if s.rlMemoryTraceState then .unlink ptr else .free ptr

def Point.step (s : MemState) (ans : Option Addr) : Point → MemState × Point
  | returned reply => (s, .returned reply)
  | malloc bytes size site =>
    match ans with
    | none => (s, .returned (.pointer none))
    | some ptr =>
      (s.allocate ptr bytes,
        if s.rlMemoryTraceState then .mallocNode ptr size site
        else .returned (.pointer (some ptr)))
  | mallocNode ptr size site =>
    match ans with
    | none => (s, .discard ptr)
    | some a => (s.allocate a sizeofMemNode, .push ⟨site, a, ptr, size⟩)
  | discard ptr => (s.release ptr, .returned (.pointer none))
  | push node => (s.pushNode node, .returned (.pointer (some node.ptr)))
  | realloc ptr size site =>
    match ans with
    | none => (s, .returned (.pointer none))
    | some newPtr =>
      -- `ptr` is free from here on, while its node is re-keyed only in the next step
      (s.resize ptr newPtr size.toNat,
        if s.rlMemoryTraceState then .search ptr newPtr size site
        else .returned (.pointer (some newPtr)))
  | search ptr newPtr size site =>
    match s.rekeyNode ptr newPtr size site with
    | some s => (s, .returned (.pointer (some newPtr)))
    | none => (s.passLock, .mallocNode newPtr size site)
  | unlink ptr =>
    match s.unlinkNode ptr with
    | some s => (s, .free ptr)
    | none => (s.passLock, .returned (.code RL_FAILED))
  | free ptr => (s.release ptr, .returned (.code RL_SUCCESS))

section Solo

variable (block node : Option Addr)

def Request.answered : Request → Call
  | malloc size site => .malloc size site block node
  | calloc b c site => .calloc b c site block node
  | realloc ptr size site => .realloc ptr size site block node
  | free ptr => .free ptr

def Point.answer : Point → Option Addr
  | malloc _ _ _ => block
  | mallocNode _ _ _ => node
  | realloc _ _ _ => block
  | _ => none

def solo : ℕ → MemState × Point → MemState × Point
  | 0, c => c
  | n + 1, c => solo n (c.2.step c.1 (c.2.answer block node))

theorem solo_returned (n : ℕ) (s : MemState) (reply : Reply) :
    solo block node n (s, .returned reply) = (s, .returned reply) := by
  induction n with
  | zero => rfl
  | succ n ih => exact ih

def ended (r : Option Addr × MemState) : MemState × Point := (r.2, .returned (.pointer r.1))

theorem solo_mallocNode (n : ℕ) (s : MemState) (ptr : Addr) (size : BitVec 32) (site : CallSite) :
    solo block node (n + 2) (s, .mallocNode ptr size site) =
      ended (recordBlock ptr size site node s) := by
  cases node <;> exact solo_returned _ _ n _ _

theorem solo_malloc (n bytes : ℕ) (s : MemState) (size : BitVec 32) (site : CallSite) :
    solo block node (n + 3) (s, .malloc bytes size site) =
      ended (obtainBlock bytes size site block node s) := by
  cases block with
  | none => exact solo_returned _ _ (n + 2) _ _
  | some p =>
    change solo _ _ (n + 2) (s.allocate p bytes, ite _ _ _) = _
    cases hs : s.rlMemoryTraceState with
    | false =>
      rw [obtainBlock_off bytes size site hs]
      exact solo_returned _ _ (n + 2) _ _
    | true =>
      rw [obtainBlock_on bytes size site hs]
      exact solo_mallocNode _ _ n _ _ _ _

theorem solo_realloc (s : MemState) (ptr : Addr) {size : BitVec 32} (hz : size ≠ 0#32)
    (site : CallSite) :
    solo block node 4 (s, .realloc ptr size site) =
      ended (rlRealloc (some ptr) size site block node s) := by
  cases block with
  | none =>
    rw [rlRealloc_failed]
    exact solo_returned _ _ 3 _ _
  | some q =>
    change solo _ _ 3 (s.resize ptr q size.toNat, ite _ _ _) = _
    cases hs : s.rlMemoryTraceState with
    | false =>
      rw [rlRealloc_off size site hs hz]
      exact solo_returned _ _ 3 _ _
    | true =>
      change solo _ _ 2 (Point.step _ _ (.search ptr q size site)) = _
      cases hr : (s.resize ptr q size.toNat).rekeyNode ptr q size site with
      | some t =>
        rw [rlRealloc_found size site hs hz hr]
        simp only [Point.step, hr]
        exact solo_returned _ _ 2 _ _
      | none =>
        have hp : ptr ∉ s.blocks := (rekeyNode_eq_none (s := s.resize ptr q _)).mp hr
        rw [rlRealloc_missing size site hs hz hp]
        simp only [Point.step, hr]
        exact solo_mallocNode _ _ 0 _ _ _ _

theorem solo_free (s : MemState) (ptr : Option Addr) :
    solo block node 2 (s, (Request.free ptr).enter s) =
      ((rlFree ptr s).2, .returned (.code (rlFree ptr s).1)) := by
  cases ptr with
  | none => rfl
  | some p =>
    cases hs : s.rlMemoryTraceState with
    | false =>
      have henter : (Request.free (some p)).enter s = .free p := by simp [Request.enter, hs]
      rw [rlFree_off hs, henter]
      rfl
    | true =>
      have henter : (Request.free (some p)).enter s = .unlink p := by simp [Request.enter, hs]
      rw [henter]
      change solo _ _ 1 (Point.step _ _ (.unlink p)) = _
      cases hu : s.unlinkNode p with
      | some t =>
        rw [rlFree_found hs hu]
        simp only [Point.step, hu]
        rfl
      | none =>
        rw [rlFree_missing hs (unlinkNode_eq_none.mp hu)]
        simp only [Point.step, hu]
        rfl

theorem solo_request (s : MemState) (r : Request) :
    solo block node 4 (s, r.enter s) =
      (((r.answered block node).apply s).2, .returned ((r.answered block node).apply s).1) := by
  cases r with
  | malloc size site =>
    by_cases hz : size = 0#32
    · simp only [Request.enter, Request.answered, Call.apply, rlMalloc, hz, ↓reduceIte]
      exact solo_returned _ _ 4 _ _
    · simp only [Request.enter, Request.answered, Call.apply, rlMalloc, hz, ↓reduceIte]
      exact solo_malloc _ _ 1 _ _ _ _
  | calloc b c site =>
    by_cases hz : b = 0#32 ∨ c = 0#32
    · simp only [Request.enter, Request.answered, Call.apply, rlCalloc, hz, ↓reduceIte]
      exact solo_returned _ _ 4 _ _
    · simp only [Request.enter, Request.answered, Call.apply, rlCalloc, hz, ↓reduceIte]
      exact solo_malloc _ _ 1 _ _ _ _
  | realloc ptr size site =>
    by_cases hz : size = 0#32
    · simp only [Request.enter, Request.answered, Call.apply, rlRealloc, hz, ↓reduceIte]
      exact solo_returned _ _ 4 _ _
    · simp only [Request.enter, Request.answered, Call.apply, hz, ↓reduceIte]
      cases ptr with
      | none =>
        rw [rlRealloc_null, rlMalloc_pos _ _ hz]
        exact solo_malloc _ _ 1 _ _ _ _
      | some p => exact solo_realloc _ _ s p hz site
  | free ptr =>
    change solo _ _ 2 (solo _ _ 2 _) = _
    rw [solo_free]
    exact solo_returned _ _ 2 _ _

end Solo

/-- What a live address is used for. A `holder` is the thread that works on it: a node has
none once it is linked, a block has none while it is the client's. `node` is where the trace
node written for this very block lives. -/
inductive Role (ι : Type*) where
  | system
  | node (holder : Option ι)
  | block (holder : Option ι) (bytes : ℕ) (site : CallSite) (node : Option Addr)
  deriving DecidableEq

namespace Role

variable {ι : Type*}

def tracedBy : Role ι → Option Addr
  | block _ _ _ m => m
  | _ => none

def holder : Role ι → Option ι
  | system => none
  | node h => h
  | block h _ _ _ => h

def pass (h : Option ι) : Role ι → Role ι
  | block _ bytes site m => .block h bytes site m
  | r => r

def mark (h : Option ι) (m : Option Addr) : Role ι → Role ι
  | block _ bytes site _ => .block h bytes site m
  | r => r

end Role

abbrev Roles (ι : Type*) := Addr → Option (Role ι)

structure Shared (ι : Type*) where
  mem : MemState
  roles : Roles ι

section Pool

variable {ι : Type*} [DecidableEq ι]

def Roles.IsClient (roles : Roles ι) (p : Addr) : Prop :=
  match roles p with
  | some (.block none _ _ _) => True
  | _ => False

instance (roles : Roles ι) (p : Addr) : Decidable (roles.IsClient p) := by
  unfold Roles.IsClient
  split <;> infer_instance

def Point.take (t : ι) (roles : Roles ι) : Point → Roles ι
  | realloc ptr _ _ => Function.update roles ptr ((roles ptr).map (Role.pass (some t)))
  | unlink ptr => Function.update roles ptr ((roles ptr).map (Role.pass (some t)))
  | free ptr => Function.update roles ptr ((roles ptr).map (Role.pass (some t)))
  | _ => roles

def Point.assign (t : ι) (s : MemState) (ans : Option Addr) (roles : Roles ι) : Point → Roles ι
  | returned _ => roles
  | malloc bytes _ site =>
    match ans with
    | none => roles
    | some ptr =>
      let holder := if s.rlMemoryTraceState then some t else none
      Function.update roles ptr (some (.block holder bytes site none))
  | mallocNode _ _ _ =>
    match ans with
    | none => roles
    | some a => Function.update roles a (some (.node (some t)))
  | discard ptr => Function.update roles ptr none
  | push node =>
    let linked := Function.update roles node.addr (some (.node none))
    Function.update linked node.ptr ((roles node.ptr).map (Role.mark none (some node.addr)))
  | realloc ptr size site =>
    match ans with
    | none => Function.update roles ptr ((roles ptr).map (Role.pass none))
    | some newPtr =>
      let holder := if s.rlMemoryTraceState then some t else none
      let gone := Function.update roles ptr none
      Function.update gone newPtr (some (.block holder size.toNat site none))
  | search ptr newPtr _ _ =>
    match locate MemNode.ptr ptr s.gMemHeader with
    | some (_, cur, _) =>
      Function.update roles newPtr ((roles newPtr).map (Role.mark none (some cur.addr)))
    | none => roles
  | unlink ptr =>
    match locate MemNode.ptr ptr s.gMemHeader with
    | some (_, temp, _) =>
      let held := Function.update roles ptr ((roles ptr).map (Role.mark (some t) none))
      Function.update held temp.addr none
    | none => Function.update roles ptr ((roles ptr).map (Role.pass none))
  | free ptr => Function.update roles ptr none

inductive Action where
  | call (request : Request)
  | step (ans : Option Addr)
  deriving DecidableEq, Repr

/-- Threads call on client blocks; the allocator answers with addresses that are not live. -/
def Action.Ready (c : Shared ι) : Point → Action → Prop
  | .returned _, .call request => ∀ p ∈ request.pointer, c.roles.IsClient p
  | .malloc _ _ _, .step ans => ∀ p ∈ ans, c.mem.heap p = none
  | .mallocNode _ _ _, .step ans => ∀ p ∈ ans, c.mem.heap p = none
  | .realloc ptr _ _, .step ans => ∀ q ∈ ans, c.mem.heap.Movable ptr q
  | .returned _, .step _ => False
  | _, .step _ => True
  | _, .call _ => False

def threads (ι : Type*) [DecidableEq ι] : ThreadCode ι (Shared ι) Point Action where
  ready _ c pt action := action.Ready c pt
  step t c pt action :=
    match action with
    | .call request =>
      (⟨c.mem, (request.enter c.mem).take t c.roles⟩, request.enter c.mem)
    | .step ans =>
      (⟨(pt.step c.mem ans).1, pt.assign t c.mem ans c.roles⟩, (pt.step c.mem ans).2)

def threadsStart (heap : Heap) : Shared ι × (ι → Point) :=
  (⟨rlMemoryTraceInit true true (MemState.start heap), fun a => (heap a).map fun _ => .system⟩,
    fun _ => .returned .nothing)

def soloLabels (t : ι) (block node : Option Addr) : ℕ → MemState × Point → List (ι × Action)
  | 0, _ => []
  | n + 1, c => (t, .step (c.2.answer block node)) ::
      soloLabels t block node n (c.2.step c.1 (c.2.answer block node))

theorem exec_soloLabels (t : ι) (block node : Option Addr) (n : ℕ) (c : Shared ι × (ι → Point)) :
    let c' := (threads ι).pool.exec c (soloLabels t block node n (c.1.mem, c.2 t))
    (c'.1.mem, c'.2 t) = solo block node n (c.1.mem, c.2 t) := by
  induction n generalizing c with
  | zero => rfl
  | succ n ih =>
    have hnext := ih ((threads ι).pool.next c (t, .step ((c.2 t).answer block node)))
    simp only [ThreadCode.pool, threads, Function.update_self] at hnext
    exact hnext

theorem pool_request (t : ι) (block node : Option Addr) (c : Shared ι × (ι → Point))
    (r : Request) :
    let c₁ := (threads ι).pool.next c (t, .call r)
    let c₂ := (threads ι).pool.exec c₁ (soloLabels t block node 4 (c₁.1.mem, c₁.2 t))
    c₂.1.mem = ((r.answered block node).apply c.1.mem).2 ∧
      c₂.2 t = .returned ((r.answered block node).apply c.1.mem).1 := by
  intro c₁ c₂
  have hpoint : c₁.2 t = r.enter c.1.mem := Function.update_self ..
  have hsolo : (c₂.1.mem, c₂.2 t) = solo block node 4 (c.1.mem, c₁.2 t) :=
    exec_soloLabels t block node 4 c₁
  rw [hpoint, solo_request] at hsolo
  exact ⟨congrArg Prod.fst hsolo, congrArg Prod.snd hsolo⟩

end Pool

end RlLibrary.Memory
