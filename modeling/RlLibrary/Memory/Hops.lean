import RlLibrary.Foundation.Chain
import RlLibrary.Memory.Ownership

/-!
The threads of `rlmem.c` with the trace list as it lies in memory: `mem_lock` is taken and given
back in steps of their own, and a search makes one step for each node it visits. Such a run is a
run of `threads`, whose sections are single steps, with some of its steps left out.
-/

namespace RlLibrary.Memory

open Foundation MemState

variable {ι : Type*}

structure CellState where
  rlMemoryTraceState : Bool
  memLock : Mutex
  traceList : Chain MemNode
  gAllocBlockCount : BitVec 32
  gAllocTotalBytes : BitVec 32
  heap : Heap

def CellState.holding (s : CellState) (nodes : List MemNode) : MemState :=
  ⟨s.rlMemoryTraceState, s.memLock, nodes, s.gAllocBlockCount, s.gAllocTotalBytes, s.heap⟩

def Point.locks : Point → Bool
  | push _ => true
  | search _ _ _ _ => true
  | unlink _ => true
  | _ => false

/-- `outside` with a point that locks stands before the lock; `find` and `look` are the loops of
`rl_free` and of `rl_realloc`, and `fault` is the access to a node that is not live. -/
inductive Hop where
  | outside (pt : Point)
  | link (node : MemNode)
  | find (ptr : Addr) (cur : Place)
  | look (ptr newPtr : Addr) (size : BitVec 32) (site : CallSite) (cur : Option Addr)
  | unlock (next : Point)
  | fault

def Hop.step (s : CellState) (ans : Option Addr) : Hop → CellState × Hop
  | outside pt =>
    match pt with
    | .push node => ({ s with memLock := s.memLock.lock }, .link node)
    | .search ptr newPtr size site =>
      ({ s with memLock := s.memLock.lock }, .look ptr newPtr size site s.traceList.header)
    | .unlink ptr => ({ s with memLock := s.memLock.lock }, .find ptr .header)
    | pt =>
      -- no other step outside the lock reads the list
      ({ s with heap := (pt.step (s.holding []) ans).1.heap }, .outside (pt.step (s.holding []) ans).2)
  | link node =>
    ({ s with
        traceList := ⟨some node.addr,
          Function.update s.traceList.cells node.addr (some ⟨node, s.traceList.header⟩)⟩
        gAllocBlockCount := s.gAllocBlockCount + 1
        gAllocTotalBytes := s.gAllocTotalBytes + node.size },
      .unlock (.returned (.pointer (some node.ptr))))
  | find ptr cur =>
    match s.traceList.load cur with
    | none => (s, .fault)
    | some none => (s, .unlock (.returned (.code RL_FAILED)))
    | some (some a) =>
      match s.traceList.cells a with
      | none => (s, .fault)
      | some temp =>
        if temp.item.ptr = ptr then
          match s.traceList.store temp.next cur with
          | none => (s, .fault)
          | some list =>
            ({ s with
                traceList := { list with cells := list.cells.free a }
                gAllocBlockCount := s.gAllocBlockCount - 1
                gAllocTotalBytes := s.gAllocTotalBytes - temp.item.size
                heap := s.heap.release a },
              .unlock (.free ptr))
        else (s, .find ptr (.next a))
  | look _ newPtr size site none => (s, .unlock (.mallocNode newPtr size site))
  | look ptr newPtr size site (some a) =>
    match s.traceList.cells a with
    | none => (s, .fault)
    | some cur =>
      if cur.item.ptr = ptr then
        ({ s with
            traceList := { s.traceList with
              cells := Function.update s.traceList.cells a
                (some ⟨⟨site, cur.item.addr, newPtr, size⟩, cur.next⟩) }
            gAllocTotalBytes := s.gAllocTotalBytes - cur.item.size + size },
          .unlock (.returned (.pointer (some newPtr))))
      else (s, .look ptr newPtr size site cur.next)
  | unlock next => ({ s with memLock := s.memLock.unlock }, .outside next)
  | fault => (s, .fault)

def Hop.owner (t : ι) (owner : Option ι) : Hop → Option ι
  | outside pt => if pt.locks then some t else owner
  | unlock _ => none
  | _ => owner

def Hop.assign (t : ι) (s : CellState) (ans : Option Addr) (roles : Roles ι) : Hop → Roles ι
  | outside pt => if pt.locks then roles else pt.assign t (s.holding []) ans roles
  | link node => (Point.push node).assign t (s.holding []) ans roles
  | find ptr cur =>
    match s.traceList.load cur with
    | none => roles
    | some none => Function.update roles ptr ((roles ptr).map (Role.pass none))
    | some (some a) =>
      match s.traceList.cells a with
      | none => roles
      | some temp =>
        if temp.item.ptr = ptr then
          Function.update (Function.update roles ptr ((roles ptr).map (Role.mark (some t) none))) a none
        else roles
  | look _ _ _ _ none => roles
  | look ptr newPtr _ _ (some a) =>
    match s.traceList.cells a with
    | none => roles
    | some cur =>
      if cur.item.ptr = ptr then
        Function.update roles newPtr ((roles newPtr).map (Role.mark none (some a)))
      else roles
  | unlock _ => roles
  | fault => roles

structure HopShared (ι : Type*) where
  owner : Option ι
  mem : CellState
  roles : Roles ι

def Hop.Ready (c : HopShared ι) (action : Action) : Hop → Prop
  | outside pt => action.Ready ⟨c.mem.holding [], c.roles⟩ pt ∧ (pt.locks → c.owner = none)
  | fault => False
  | _ =>
    match action with
    | .call _ => False
    | .step _ => True

def hops (ι : Type*) [DecidableEq ι] : ThreadCode ι (HopShared ι) Hop Action where
  ready _ c hop action := hop.Ready c action
  step t c hop action :=
    match action with
    | .call request =>
      (⟨c.owner, c.mem, (request.enter (c.mem.holding [])).take t c.roles⟩,
        .outside (request.enter (c.mem.holding [])))
    | .step ans =>
      (⟨hop.owner t c.owner, (hop.step c.mem ans).1, hop.assign t c.mem ans c.roles⟩,
        (hop.step c.mem ans).2)

def hopsStart (heap : Heap) : HopShared ι × (ι → Hop) :=
  let s := rlMemoryTraceInit true true (MemState.start heap)
  (⟨none, ⟨s.rlMemoryTraceState, s.memLock, ⟨none, fun _ => none⟩, s.gAllocBlockCount,
      s.gAllocTotalBytes, s.heap⟩, fun a => (heap a).map fun _ => .system⟩,
    fun _ => .outside (.returned .nothing))

structure CellState.Represents (c : CellState) (s : MemState) : Prop where
  nodes : c.traceList.Holds MemNode.addr s.gMemHeader
  state : c.rlMemoryTraceState = s.rlMemoryTraceState
  count : c.gAllocBlockCount = s.gAllocBlockCount
  total : c.gAllocTotalBytes = s.gAllocTotalBytes
  heap : c.heap = s.heap

/-- Where a thread is in the abstract run: a search is at its one step until it has its answer. -/
def Hop.Follows (t : ι) (c : HopShared ι) (s : MemState) (pt : Point) : Hop → Prop
  | outside pt' => pt' = pt ∧ c.owner ≠ some t
  | link node => pt = .push node ∧ c.owner = some t ∧ c.mem.memLock = s.memLock.lock
  | find ptr cur => pt = .unlink ptr ∧ c.owner = some t ∧ c.mem.memLock = s.memLock.lock ∧
      ∃ before rest, s.gMemHeader = before ++ rest ∧ cur = .behind MemNode.addr before ∧
        ptr ∉ before.map MemNode.ptr
  | look ptr newPtr size site cur => pt = .search ptr newPtr size site ∧ c.owner = some t ∧
      c.mem.memLock = s.memLock.lock ∧
      ∃ before rest, s.gMemHeader = before ++ rest ∧
        Linked MemNode.addr c.mem.traceList.cells cur rest ∧ ptr ∉ before.map MemNode.ptr
  | unlock next => pt = next ∧ c.owner = some t ∧ s.memLock = c.mem.memLock.unlock
  | fault => False

structure Refines (c : HopShared ι × (ι → Hop)) (d : Shared ι × (ι → Point)) : Prop where
  owned : Owned d.1.mem d.1.roles
  owns : ∀ t, (d.2 t).Owns t d.1.roles
  roles : c.1.roles = d.1.roles
  memory : c.1.mem.Represents d.1.mem
  lock : c.1.owner = none → c.1.mem.memLock = d.1.mem.memLock
  follows : ∀ t, (c.2 t).Follows t c.1 d.1.mem (d.2 t)

section Outside

variable {pt : Point} {s s₀ : MemState}

theorem step_outside (h : pt.locks = false) (hstate : s₀.rlMemoryTraceState = s.rlMemoryTraceState)
    (hheap : s₀.heap = s.heap) (ans : Option Addr) :
    pt.step s ans = ({ s with heap := (pt.step s₀ ans).1.heap }, (pt.step s₀ ans).2) := by
  cases pt with
  | returned reply => simp [Point.step, hheap]
  | malloc bytes size site => cases ans <;> simp [Point.step, allocate, hheap, hstate]
  | mallocNode ptr size site => cases ans <;> simp [Point.step, allocate, hheap]
  | discard ptr => simp [Point.step, release, hheap]
  | push node => cases h
  | realloc ptr size site => cases ans <;> simp [Point.step, resize, hheap, hstate]
  | search ptr newPtr size site => cases h
  | unlink ptr => cases h
  | free ptr => simp [Point.step, release, hheap]

theorem assign_outside (h : pt.locks = false) (hstate : s₀.rlMemoryTraceState = s.rlMemoryTraceState)
    (t : ι) (ans : Option Addr) (roles : Roles ι) [DecidableEq ι] :
    pt.assign t s ans roles = pt.assign t s₀ ans roles := by
  cases pt with
  | push node => cases h
  | search ptr newPtr size site => cases h
  | unlink ptr => cases h
  | malloc bytes size site => cases ans <;> simp [Point.assign, hstate]
  | realloc ptr size site => cases ans <;> simp [Point.assign, hstate]
  | _ => rfl

theorem ready_outside (hheap : s₀.heap = s.heap) {roles : Roles ι} {action : Action} :
    action.Ready ⟨s₀, roles⟩ pt ↔ action.Ready ⟨s, roles⟩ pt := by
  cases pt <;> cases action <;> simp [Action.Ready, hheap]

theorem enter_outside (hstate : s₀.rlMemoryTraceState = s.rlMemoryTraceState) (request : Request) :
    request.enter s₀ = request.enter s := by
  cases request <;> simp [Request.enter, hstate]

end Outside

namespace Hop.Follows

variable {u : ι} {c c' : HopShared ι} {s s' : MemState} {pt : Point} {hop : Hop}

theorem of_outside (h : hop.Follows u c s pt) (hu : c.owner ≠ some u) (hu' : c'.owner ≠ some u) :
    hop.Follows u c' s' pt := by
  cases hop with
  | outside pt' => exact ⟨h.1, hu'⟩
  | link node => exact absurd h.2.1 hu
  | find ptr cur => exact absurd h.2.1 hu
  | look ptr newPtr size site cur => exact absurd h.2.1 hu
  | unlock next => exact absurd h.2.1 hu
  | fault => exact h

theorem frame (h : hop.Follows u c s pt) (howner : c'.owner = c.owner)
    (hlist : c'.mem.traceList = c.mem.traceList) (hlock : c'.mem.memLock = c.mem.memLock)
    (hnodes : s'.gMemHeader = s.gMemHeader) (hlock' : s'.memLock = s.memLock) :
    hop.Follows u c' s' pt := by
  cases hop <;> simp only [Hop.Follows, howner, hlist, hlock, hnodes, hlock'] at h ⊢ <;> exact h

end Hop.Follows

theorem CellState.Represents.same {c : CellState} {s : MemState} (h : c.Represents s) {m : Mutex} :
    { c with memLock := m }.Represents s := ⟨h.nodes, h.state, h.count, h.total, h.heap⟩

section Simulation

variable [DecidableEq ι] {c : HopShared ι × (ι → Hop)} {d : Shared ι × (ι → Point)} {t : ι}

theorem Refines.move (h : Refines c d) {c' : HopShared ι} {d' : Shared ι} {hop' : Hop} {pt' : Point}
    (hkeeps : Keeps t d.1.roles d'.mem d'.roles pt') (hroles : c'.roles = d'.roles)
    (hmem : c'.mem.Represents d'.mem) (hlock : c'.owner = none → c'.mem.memLock = d'.mem.memLock)
    (hfollows : hop'.Follows t c' d'.mem pt')
    (hothers : ∀ u, u ≠ t → (c.2 u).Follows u c.1 d.1.mem (d.2 u) → (c.2 u).Follows u c' d'.mem (d.2 u)) :
    Refines (c', Function.update c.2 t hop') (d', Function.update d.2 t pt') where
  owned := hkeeps.owned
  owns u := by
    by_cases hu : u = t
    · subst hu
      simpa only [Function.update_self] using hkeeps.owns
    · simpa only [Function.update_of_ne hu] using (hkeeps.undisturbed u hu).owns (h.owns u)
  roles := hroles
  memory := hmem
  lock := hlock
  follows u := by
    by_cases hu : u = t
    · subst hu
      simpa only [Function.update_self] using hfollows
    · simpa only [Function.update_of_ne hu] using hothers u hu (h.follows u)

theorem Refines.stay (h : Refines c d) {c' : HopShared ι} {hop' : Hop} (hroles : c'.roles = c.1.roles)
    (hmem : c'.mem.Represents d.1.mem) (hlock : c'.owner = none → c'.mem.memLock = d.1.mem.memLock)
    (hfollows : hop'.Follows t c' d.1.mem (d.2 t))
    (hothers : ∀ u, u ≠ t → (c.2 u).Follows u c.1 d.1.mem (d.2 u) → (c.2 u).Follows u c' d.1.mem (d.2 u)) :
    Refines (c', Function.update c.2 t hop') d := by
  have hkeeps : Keeps t d.1.roles d.1.mem d.1.roles (d.2 t) := .stay h.owned (h.owns t)
  have hmove := h.move hkeeps (hroles.trans h.roles) hmem hlock hfollows hothers
  rwa [Function.update_eq_self] at hmove

omit [DecidableEq ι] in
theorem others_outside {c' : HopShared ι} (howner : c.1.owner = none ∨ c.1.owner = some t)
    (howner' : c'.owner = none ∨ c'.owner = some t) {s s' : MemState} :
    ∀ u, u ≠ t → (c.2 u).Follows u c.1 s (d.2 u) → (c.2 u).Follows u c' s' (d.2 u) := by
  have hnot : ∀ {o : Option ι}, o = none ∨ o = some t → ∀ u, u ≠ t → o ≠ some u := by
    rintro o (rfl | rfl) u hu
    · exact (Option.some_ne_none u).symm
    · exact fun he => hu (Option.some_inj.mp he).symm
  exact fun u hu hf => hf.of_outside (hnot howner u hu) (hnot howner' u hu)

theorem hops_next {hop : Hop} (hhop : c.2 t = hop) (ans : Option Addr) :
    (hops ι).pool.next c (t, .step ans) =
      (⟨hop.owner t c.1.owner, (hop.step c.1.mem ans).1, hop.assign t c.1.mem ans c.1.roles⟩,
        Function.update c.2 t (hop.step c.1.mem ans).2) := by
  rw [← hhop]
  rfl

theorem threads_next {pt : Point} (hpt : d.2 t = pt) (ans : Option Addr) :
    (threads ι).pool.next d (t, .step ans) =
      (⟨(pt.step d.1.mem ans).1, pt.assign t d.1.mem ans d.1.roles⟩,
        Function.update d.2 t (pt.step d.1.mem ans).2) := by
  rw [← hpt]
  rfl

theorem Hop.step_outside {pt : Point} (h : pt.locks = false) (s : CellState) (ans : Option Addr) :
    (Hop.outside pt).step s ans =
      ({ s with heap := (pt.step (s.holding []) ans).1.heap },
        .outside (pt.step (s.holding []) ans).2) := by
  cases pt with
  | push node => cases h
  | search ptr newPtr size site => cases h
  | unlink ptr => cases h
  | _ => rfl

def visible (i : ι × Action) : Bool :=
  match i.2 with
  | .call _ => true
  | .step _ => false

def Matched (c' : HopShared ι × (ι → Hop)) (d : Shared ι × (ι → Point)) (i : ι × Action) : Prop :=
  (visible i = false ∧ Refines c' d) ∨
    ((threads ι).pool.enabled d i ∧ Refines c' ((threads ι).pool.next d i))

theorem matched_call (h : Refines c d) {pt : Point} (hhop : c.2 t = .outside pt) {request : Request}
    (hr : (Action.call request).Ready ⟨c.1.mem.holding [], c.1.roles⟩ pt) :
    Matched ((hops ι).pool.next c (t, .call request)) d (t, .call request) := by
  have hfollows := h.follows t
  rw [hhop] at hfollows
  obtain ⟨hpt, howner⟩ := hfollows
  rw [hpt, h.roles, ready_outside h.memory.heap] at hr
  have henter : request.enter (c.1.mem.holding []) = request.enter d.1.mem :=
    enter_outside h.memory.state request
  refine Or.inr ⟨hr, ?_⟩
  have hkeeps := keeps_thread (i := (t, .call request)) h.owned (h.owns t) hr
  refine h.move hkeeps ?_ h.memory h.lock ⟨henter, howner⟩ fun u hu hf => hf
  change (request.enter _).take t c.1.roles = (request.enter _).take t d.1.roles
  rw [henter, h.roles]

theorem matched_outside (h : Refines c d) {pt : Point} (hhop : c.2 t = .outside pt)
    (hlocks : pt.locks = false) {ans : Option Addr}
    (hr : (Action.step ans).Ready ⟨c.1.mem.holding [], c.1.roles⟩ pt) :
    Matched ((hops ι).pool.next c (t, .step ans)) d (t, .step ans) := by
  have hfollows := h.follows t
  rw [hhop] at hfollows
  obtain ⟨hpt, howner⟩ := hfollows
  have hstate : (c.1.mem.holding []).rlMemoryTraceState = d.1.mem.rlMemoryTraceState := h.memory.state
  have hheap : (c.1.mem.holding []).heap = d.1.mem.heap := h.memory.heap
  have hstep := step_outside hlocks hstate hheap ans
  have hassign := assign_outside hlocks hstate t ans d.1.roles
  rw [h.roles, ready_outside h.memory.heap] at hr
  have howns := h.owns t
  rw [← hpt] at howns
  have hkeeps := keeps_step h.owned howns hr
  rw [hstep] at hkeeps
  rw [Matched, hops_next hhop, threads_next hpt.symm, Hop.step_outside hlocks, hstep]
  have henabled : (threads ι).pool.enabled d (t, .step ans) := by
    change Action.Ready _ (d.2 t) _
    rw [← hpt]
    exact hr
  refine Or.inr ⟨henabled, ?_⟩
  refine h.move hkeeps ?_ ⟨h.memory.nodes, h.memory.state, h.memory.count, h.memory.total, rfl⟩ ?_
    ⟨rfl, ?_⟩ ?_
  · simp only [Hop.assign, hlocks, Bool.false_eq_true, ↓reduceIte, hassign, h.roles]
  · simp only [Hop.owner, hlocks, Bool.false_eq_true, ↓reduceIte]
    exact h.lock
  · simp only [Hop.owner, hlocks, Bool.false_eq_true, ↓reduceIte]
    exact howner
  · intro u _ hf
    refine hf.frame ?_ rfl rfl rfl rfl
    simp only [Hop.owner, hlocks, Bool.false_eq_true, ↓reduceIte]

theorem matched_lock (h : Refines c d) {pt : Point} (hhop : c.2 t = .outside pt)
    (hlocks : pt.locks = true) (hfree : c.1.owner = none) (ans : Option Addr) :
    Matched ((hops ι).pool.next c (t, .step ans)) d (t, .step ans) := by
  have hfollows := h.follows t
  rw [hhop] at hfollows
  have hpt : d.2 t = pt := hfollows.1.symm
  have hlock : c.1.mem.memLock.lock = d.1.mem.memLock.lock := congrArg Mutex.lock (h.lock hfree)
  rw [Matched, hops_next hhop]
  refine Or.inl ⟨rfl, ?_⟩
  cases pt with
  | push node =>
    refine h.stay rfl h.memory.same (fun he => by cases he) ⟨hpt, rfl, hlock⟩ ?_
    exact others_outside (Or.inl hfree) (Or.inr rfl)
  | search ptr newPtr size site =>
    refine h.stay rfl h.memory.same (fun he => by cases he) ⟨hpt, rfl, hlock, ?_⟩ ?_
    · exact ⟨[], _, rfl, h.memory.nodes.linked, List.not_mem_nil⟩
    · exact others_outside (Or.inl hfree) (Or.inr rfl)
  | unlink ptr =>
    refine h.stay rfl h.memory.same (fun he => by cases he) ⟨hpt, rfl, hlock, ?_⟩ ?_
    · exact ⟨[], _, rfl, rfl, List.not_mem_nil⟩
    · exact others_outside (Or.inl hfree) (Or.inr rfl)
  | _ => cases hlocks

theorem matched_link (h : Refines c d) {node : MemNode} (hhop : c.2 t = .link node)
    (ans : Option Addr) : Matched ((hops ι).pool.next c (t, .step ans)) d (t, .step ans) := by
  have hfollows := h.follows t
  rw [hhop] at hfollows
  obtain ⟨hpt, howner, hlock⟩ := hfollows
  have howns := h.owns t
  rw [hpt] at howns
  have henabled : (threads ι).pool.enabled d (t, .step ans) := by
    change Action.Ready _ (d.2 t) _
    rw [hpt]
    trivial
  have hfresh : c.1.mem.traceList.cells node.addr = none := by
    rw [h.memory.nodes.exact]
    intro hm
    obtain ⟨k, hk, he⟩ := List.mem_map.mp hm
    have hlinked := h.owned.linked k hk
    rw [he, howns.1] at hlinked
    cases hlinked
  rw [Matched, hops_next hhop, threads_next hpt]
  refine Or.inr ⟨henabled, ?_⟩
  refine h.move (keeps_step h.owned howns trivial) ?_ ?_ ?_ ⟨rfl, howner, ?_⟩ ?_
  · simp only [Hop.assign, h.roles]
    rfl
  · exact ⟨h.memory.nodes.push hfresh, h.memory.state, congrArg (· + 1) h.memory.count,
      congrArg (· + node.size) h.memory.total, h.memory.heap⟩
  · intro hnone
    exact absurd (howner.symm.trans hnone) (Option.some_ne_none t)
  · exact congrArg Mutex.unlock hlock.symm
  · refine others_outside (Or.inr howner) (Or.inr ?_)
    exact howner

theorem matched_unlock (h : Refines c d) {next : Point} (hhop : c.2 t = .unlock next)
    (ans : Option Addr) : Matched ((hops ι).pool.next c (t, .step ans)) d (t, .step ans) := by
  have hfollows := h.follows t
  rw [hhop] at hfollows
  obtain ⟨hpt, howner, hlock⟩ := hfollows
  rw [Matched, hops_next hhop]
  refine Or.inl ⟨rfl, ?_⟩
  refine h.stay rfl h.memory.same (fun _ => hlock.symm) ⟨hpt.symm, (Option.some_ne_none t).symm⟩ ?_
  exact others_outside (Or.inr howner) (Or.inl rfl)

theorem Refines.search (h : Refines c d) (howner : c.1.owner = some t) {hop' : Hop}
    (hfollows : hop'.Follows t c.1 d.1.mem (d.2 t)) :
    Refines (c.1, Function.update c.2 t hop') d := by
  refine h.stay rfl h.memory (fun hnone => ?_) hfollows (others_outside (Or.inr howner) (Or.inr howner))
  exact absurd (howner.symm.trans hnone) (Option.some_ne_none t)

theorem Refines.settle (h : Refines c d) {pt : Point} (hpt : d.2 t = pt)
    (howner : c.1.owner = some t) {ans : Option Addr}
    (hready : (Action.step ans).Ready d.1 pt) {mem : CellState} {roles : Roles ι} {next : Point}
    (hnext : (pt.step d.1.mem ans).2 = next) (hroles : roles = pt.assign t d.1.mem ans d.1.roles)
    (hmem : mem.Represents (pt.step d.1.mem ans).1)
    (hlock : (pt.step d.1.mem ans).1.memLock = mem.memLock.unlock) :
    (threads ι).pool.enabled d (t, .step ans) ∧
      Refines (⟨some t, mem, roles⟩, Function.update c.2 t (.unlock next))
        ((threads ι).pool.next d (t, .step ans)) := by
  have howns := h.owns t
  have henabled : (threads ι).pool.enabled d (t, .step ans) := by
    change Action.Ready _ (d.2 t) _
    rw [hpt]
    exact hready
  rw [hpt] at howns
  rw [threads_next hpt]
  refine ⟨henabled, h.move (keeps_step h.owned howns hready) hroles hmem ?_ ⟨hnext, rfl, hlock⟩ ?_⟩
  · intro hnone
    cases hnone
  · exact others_outside (Or.inr howner) (Or.inr rfl)

theorem matched_find (h : Refines c d) {ptr : Addr} {cur : Place} (hhop : c.2 t = .find ptr cur)
    (ans : Option Addr) : Matched ((hops ι).pool.next c (t, .step ans)) d (t, .step ans) := by
  have hfollows := h.follows t
  rw [hhop] at hfollows
  obtain ⟨hpt, howner, hlock, before, rest, hsplit, rfl, hbefore⟩ := hfollows
  have hnodes := h.memory.nodes
  rw [hsplit] at hnodes
  obtain ⟨v, hload, hrest⟩ := hnodes.load
  rw [Matched, hops_next hhop]
  cases hrest with
  | nil =>
    have hmissing : d.1.mem.unlinkNode ptr = none := by
      rw [unlinkNode_eq_none, blocks, hsplit, List.append_nil]
      exact hbefore
    have hlocate : locate MemNode.ptr ptr d.1.mem.gMemHeader = none := by
      rw [hsplit, List.append_nil]
      exact locate_eq_none.mpr hbefore
    simp only [Hop.step, Hop.assign, Hop.owner, hload, howner]
    refine Or.inr (h.settle hpt howner trivial ?_ ?_ ?_ ?_)
    · simp only [Point.step, hmissing]
    · simp only [Point.assign, hlocate, h.roles]
    · simp only [Point.step, hmissing]
      exact ⟨h.memory.nodes, h.memory.state, h.memory.count, h.memory.total, h.memory.heap⟩
    · simp only [Point.step, hmissing, passLock, hlock]
  | @cons temp next after hcell hafter =>
    by_cases hptr : temp.ptr = ptr
    · subst hptr
      have hlocate : locate MemNode.ptr temp.ptr d.1.mem.gMemHeader = some (before, temp, after) := by
        rw [hsplit]
        exact locate_split hbefore after
      obtain ⟨list, hstore, hholds⟩ := hnodes.unlink hcell
      simp only [Hop.step, Hop.assign, Hop.owner, hload, hcell, hstore, howner, ↓reduceIte]
      refine Or.inr (h.settle hpt howner trivial ?_ ?_ ?_ ?_)
      · simp only [Point.step, unlinkNode, hlocate, Option.map_some]
      · simp only [Point.assign, hlocate, h.roles]
      · simp only [Point.step, unlinkNode, hlocate, Option.map_some]
        exact ⟨hholds, h.memory.state, congrArg (· - 1) h.memory.count,
          congrArg (· - temp.size) h.memory.total,
          congrArg (fun heap : Heap => heap.release temp.addr) h.memory.heap⟩
      · simp only [Point.step, unlinkNode, hlocate, Option.map_some, hlock]
    · simp only [Hop.step, Hop.assign, Hop.owner, hload, hcell, hptr, ↓reduceIte]
      refine Or.inl ⟨rfl, h.search howner ⟨hpt, howner, hlock, before ++ [temp], after, ?_, ?_, ?_⟩⟩
      · rw [hsplit, List.append_assoc, List.singleton_append]
      · rw [Place.behind_snoc]
      · rw [List.map_append, List.mem_append, not_or]
        exact ⟨hbefore, by simpa using Ne.symm hptr⟩

theorem matched_look (h : Refines c d) {ptr newPtr : Addr} {size : BitVec 32} {site : CallSite}
    {cur : Option Addr} (hhop : c.2 t = .look ptr newPtr size site cur) (ans : Option Addr) :
    Matched ((hops ι).pool.next c (t, .step ans)) d (t, .step ans) := by
  have hfollows := h.follows t
  rw [hhop] at hfollows
  obtain ⟨hpt, howner, hlock, before, rest, hsplit, hrest, hbefore⟩ := hfollows
  have hnodes := h.memory.nodes
  rw [hsplit] at hnodes
  rw [Matched, hops_next hhop]
  cases hrest with
  | nil =>
    have hmissing : d.1.mem.rekeyNode ptr newPtr size site = none := by
      rw [rekeyNode_eq_none, blocks, hsplit, List.append_nil]
      exact hbefore
    have hlocate : locate MemNode.ptr ptr d.1.mem.gMemHeader = none := by
      rw [hsplit, List.append_nil]
      exact locate_eq_none.mpr hbefore
    simp only [Hop.step, Hop.assign, Hop.owner, howner]
    refine Or.inr (h.settle hpt howner trivial ?_ ?_ ?_ ?_)
    · simp only [Point.step, hmissing]
    · simp only [Point.assign, hlocate, h.roles]
    · simp only [Point.step, hmissing]
      exact ⟨h.memory.nodes, h.memory.state, h.memory.count, h.memory.total, h.memory.heap⟩
    · simp only [Point.step, hmissing, passLock, hlock]
  | @cons node next after hcell hafter =>
    by_cases hptr : node.ptr = ptr
    · subst hptr
      have hlocate : locate MemNode.ptr node.ptr d.1.mem.gMemHeader = some (before, node, after) := by
        rw [hsplit]
        exact locate_split hbefore after
      have haddr : MemNode.addr ⟨site, node.addr, newPtr, size⟩ = node.addr := rfl
      have hholds := hnodes.replace hcell haddr
      simp only [Hop.step, Hop.assign, Hop.owner, hcell, howner, ↓reduceIte]
      refine Or.inr (h.settle hpt howner trivial ?_ ?_ ?_ ?_)
      · simp only [Point.step, rekeyNode, hlocate, Option.map_some]
      · simp only [Point.assign, hlocate, h.roles]
      · simp only [Point.step, rekeyNode, hlocate, Option.map_some]
        exact ⟨hholds, h.memory.state, h.memory.count,
          congrArg (· - node.size + size) h.memory.total, h.memory.heap⟩
      · simp only [Point.step, rekeyNode, hlocate, Option.map_some, hlock]
    · simp only [Hop.step, Hop.assign, Hop.owner, hcell, hptr, ↓reduceIte]
      refine Or.inl ⟨rfl, h.search howner ⟨hpt, howner, hlock, before ++ [node], after, ?_, ?_, ?_⟩⟩
      · rw [hsplit, List.append_assoc, List.singleton_append]
      · exact hafter
      · rw [List.map_append, List.mem_append, not_or]
        exact ⟨hbefore, by simpa using Ne.symm hptr⟩

theorem matched (h : Refines c d) {i : ι × Action} (hi : (hops ι).pool.enabled c i) :
    Matched ((hops ι).pool.next c i) d i := by
  obtain ⟨t, action⟩ := i
  have hready : (c.2 t).Ready c.1 action := hi
  cases hhop : c.2 t with
  | outside pt =>
    rw [hhop] at hready
    cases action with
    | call request => exact matched_call h hhop hready.1
    | step ans =>
      cases hlocks : pt.locks with
      | false => exact matched_outside h hhop hlocks hready.1
      | true => exact matched_lock h hhop hlocks (hready.2 hlocks) ans
  | link node =>
    rw [hhop] at hready
    cases action with
    | call request => exact hready.elim
    | step ans => exact matched_link h hhop ans
  | find ptr cur =>
    rw [hhop] at hready
    cases action with
    | call request => exact hready.elim
    | step ans => exact matched_find h hhop ans
  | look ptr newPtr size site cur =>
    rw [hhop] at hready
    cases action with
    | call request => exact hready.elim
    | step ans => exact matched_look h hhop ans
  | unlock next =>
    rw [hhop] at hready
    cases action with
    | call request => exact hready.elim
    | step ans => exact matched_unlock h hhop ans
  | fault =>
    rw [hhop] at hready
    exact hready.elim

omit [DecidableEq ι] in
theorem refines_start (heap : Heap) :
    Refines (hopsStart heap : HopShared ι × (ι → Hop)) (threadsStart heap) where
  owned := by
    refine ⟨fun a => ?_, List.nodup_nil, fun n hn => (List.not_mem_nil hn).elim⟩
    change heap a = none ↔ (heap a).map _ = none
    simp
  owns t := trivial
  roles := rfl
  memory := ⟨⟨.nil, fun a => iff_of_true rfl List.not_mem_nil⟩, rfl, rfl, rfl, rfl⟩
  lock _ := rfl
  follows t := ⟨rfl, (Option.some_ne_none t).symm⟩

theorem exists_refines (heap : Heap) {run : List (ι × Action)}
    (hv : (hops ι).pool.Valid (hopsStart heap) run) :
    ∃ d, Refines ((hops ι).pool.exec (hopsStart heap) run) d := by
  refine Machine.exec_invariant (P := fun c => ∃ d, Refines c d) ?_ ⟨_, refines_start heap⟩ hv
  rintro c i ⟨d, h⟩ hi
  rcases matched h hi with ⟨_, hstay⟩ | ⟨_, hmove⟩
  · exact ⟨d, hstay⟩
  · exact ⟨_, hmove⟩

/-- Every run of threads that take the lock and walk the cells is, with some steps between a lock
and an unlock left out, a run in which each section is one step on the list of nodes. -/
theorem hops_refine (heap : Heap) {run : List (ι × Action)}
    (hv : (hops ι).pool.Valid (hopsStart heap) run) :
    ∃ steps, steps.Sublist run ∧ steps.filter visible = run.filter visible ∧
      (threads ι).pool.Valid (threadsStart heap) steps ∧
      Refines ((hops ι).pool.exec (hopsStart heap) run)
        ((threads ι).pool.exec (threadsStart heap) steps) :=
  Machine.simulate_erased (R := Refines) (N := (threads ι).pool) (fun _ _ _ h hi => matched h hi)
    (refines_start heap) hv

def GivesBack (t : ι) (c : HopShared ι × (ι → Hop)) (n : ℕ) : Prop :=
  (hops ι).pool.Valid c (List.replicate n (t, .step none)) ∧
    ((hops ι).pool.exec c (List.replicate n (t, .step none))).1.owner = none ∧
    ∃ pt, ((hops ι).pool.exec c (List.replicate n (t, .step none))).2 t = .outside pt

theorem GivesBack.step {hop : Hop} (hhop : c.2 t = hop) (hready : hop.Ready c.1 (.step none)) {n : ℕ}
    (h : GivesBack t (⟨hop.owner t c.1.owner, (hop.step c.1.mem none).1,
      hop.assign t c.1.mem none c.1.roles⟩, Function.update c.2 t (hop.step c.1.mem none).2) n) :
    GivesBack t c (n + 1) := by
  rw [← hops_next hhop] at h
  rw [← hhop] at hready
  exact ⟨⟨hready, h.1⟩, h.2⟩

theorem givesBack_unlock {next : Point} (hhop : c.2 t = .unlock next) : GivesBack t c 1 :=
  .step hhop trivial ⟨trivial, rfl, next, Function.update_self ..⟩

theorem find_gives_back {ptr : Addr} {before rest : List MemNode}
    (hnodes : c.1.mem.traceList.Holds MemNode.addr (before ++ rest))
    (hhop : c.2 t = .find ptr (.behind MemNode.addr before)) :
    ∃ n ≤ rest.length + 2, GivesBack t c n := by
  induction rest generalizing before c with
  | nil =>
    obtain ⟨v, hload, hrest⟩ := hnodes.load
    cases hrest
    refine ⟨2, Nat.le_refl 2, .step hhop trivial ?_⟩
    simp only [Hop.step, hload]
    exact givesBack_unlock (Function.update_self ..)
  | cons temp after ih =>
    obtain ⟨v, hload, hrest⟩ := hnodes.load
    cases hrest with
    | cons hcell hafter =>
      by_cases hptr : temp.ptr = ptr
      · obtain ⟨list, hstore, _⟩ := hnodes.unlink hcell
        refine ⟨2, by simp, .step hhop trivial ?_⟩
        simp only [Hop.step, hload, hcell, hptr, hstore, ↓reduceIte]
        exact givesBack_unlock (Function.update_self ..)
      · have hbehind : Place.next temp.addr = .behind MemNode.addr (before ++ [temp]) :=
          (Place.behind_snoc ..).symm
        have hstep : (Hop.find ptr (.behind MemNode.addr before)).step c.1.mem none =
            (c.1.mem, .find ptr (.next temp.addr)) := by
          simp only [Hop.step, hload, hcell, hptr, ↓reduceIte]
        have hnodes' : c.1.mem.traceList.Holds MemNode.addr ((before ++ [temp]) ++ after) := by
          rw [List.append_assoc, List.singleton_append]
          exact hnodes
        have hrest := ih (c := (⟨c.1.owner, c.1.mem,
            (Hop.find ptr (.behind MemNode.addr before)).assign t c.1.mem none c.1.roles⟩,
            Function.update c.2 t (.find ptr (.next temp.addr)))) hnodes'
        rw [hbehind] at hrest
        obtain ⟨n, hn, hback⟩ := hrest (Function.update_self ..)
        refine ⟨n + 1, Nat.succ_le_succ hn, .step hhop trivial ?_⟩
        rw [hstep, hbehind]
        exact hback

theorem look_gives_back {ptr newPtr : Addr} {size : BitVec 32} {site : CallSite} {cur : Option Addr}
    {rest : List MemNode} (hrest : Linked MemNode.addr c.1.mem.traceList.cells cur rest)
    (hhop : c.2 t = .look ptr newPtr size site cur) : ∃ n ≤ rest.length + 2, GivesBack t c n := by
  induction rest generalizing cur c with
  | nil =>
    cases hrest
    refine ⟨2, Nat.le_refl 2, .step hhop trivial ?_⟩
    exact givesBack_unlock (Function.update_self ..)
  | cons node after ih =>
    cases hrest with
    | @cons _ next _ hcell hafter =>
      by_cases hptr : node.ptr = ptr
      · refine ⟨2, by simp, .step hhop trivial ?_⟩
        simp only [Hop.step, hcell, hptr, ↓reduceIte]
        exact givesBack_unlock (Function.update_self ..)
      · have hstep : (Hop.look ptr newPtr size site (some node.addr)).step c.1.mem none =
            (c.1.mem, .look ptr newPtr size site next) := by
          simp only [Hop.step, hcell, hptr, ↓reduceIte]
        have hrest := ih (c := (⟨c.1.owner, c.1.mem,
            (Hop.look ptr newPtr size site (some node.addr)).assign t c.1.mem none c.1.roles⟩,
            Function.update c.2 t (.look ptr newPtr size site next))) hafter (Function.update_self ..)
        obtain ⟨n, hn, hback⟩ := hrest
        refine ⟨n + 1, Nat.succ_le_succ hn, .step hhop trivial ?_⟩
        rw [hstep]
        exact hback

/-- Whoever has the lock is at most one step for each node, and two more, away from giving it back;
no step of another thread is waited for. -/
theorem lock_given_back (heap : Heap) {run : List (ι × Action)}
    (hv : (hops ι).pool.Valid (hopsStart heap) run)
    (howner : ((hops ι).pool.exec (hopsStart heap) run).1.owner = some t) :
    ∃ nodes, ((hops ι).pool.exec (hopsStart heap) run).1.mem.traceList.Holds MemNode.addr nodes ∧
      ∃ n ≤ nodes.length + 2, GivesBack t ((hops ι).pool.exec (hopsStart heap) run) n := by
  obtain ⟨d, h⟩ := exists_refines heap hv
  generalize (hops ι).pool.exec (hopsStart heap) run = c at howner h ⊢
  refine ⟨d.1.mem.gMemHeader, h.memory.nodes, ?_⟩
  have hfollows := h.follows t
  cases hhop : c.2 t with
  | outside pt =>
    rw [hhop] at hfollows
    exact absurd howner hfollows.2
  | link node =>
    refine ⟨2, by simp, .step hhop trivial ?_⟩
    exact givesBack_unlock (Function.update_self ..)
  | find ptr cur =>
    rw [hhop] at hfollows
    obtain ⟨_, _, _, before, rest, hsplit, rfl, _⟩ := hfollows
    have hnodes := h.memory.nodes
    rw [hsplit] at hnodes
    obtain ⟨n, hn, hback⟩ := find_gives_back hnodes hhop
    refine ⟨n, ?_, hback⟩
    rw [hsplit, List.length_append]
    omega
  | look ptr newPtr size site cur =>
    rw [hhop] at hfollows
    obtain ⟨_, _, _, before, rest, hsplit, hrest, _⟩ := hfollows
    obtain ⟨n, hn, hback⟩ := look_gives_back hrest hhop
    refine ⟨n, ?_, hback⟩
    rw [hsplit, List.length_append]
    omega
  | unlock next => exact ⟨1, by simp, givesBack_unlock hhop⟩
  | fault =>
    rw [hhop] at hfollows
    exact hfollows.elim

end Simulation

def twoThreads : List (Bool × Action) :=
  [(false, .call (.malloc 8#32 ⟨"a.c", "f", 1⟩)), (false, .step (some 100)),
    (false, .step (some 200)), (false, .step none), (true, .call (.malloc 4#32 ⟨"b.c", "g", 2⟩)),
    (false, .step none), (false, .step none), (true, .step (some 300)), (true, .step (some 400)),
    (false, .call (.free (some 100))), (false, .step none), (false, .step none)]

theorem twoThreads_valid : (hops Bool).pool.Valid (hopsStart fun _ => none) twoThreads := by
  have hout : ∀ {P : Prop}, false = true → P := fun h => by cases h
  refine ⟨⟨?_, hout⟩, ⟨?_, hout⟩, ⟨?_, hout⟩, ⟨trivial, fun _ => rfl⟩, ⟨?_, hout⟩, trivial, trivial,
    ⟨?_, hout⟩, ⟨?_, hout⟩, ⟨?_, hout⟩, ⟨trivial, fun _ => rfl⟩, trivial, trivial⟩
  · rintro p ⟨⟩
  · rintro p ⟨rfl⟩
    rfl
  · rintro p ⟨rfl⟩
    rfl
  · rintro p ⟨⟩
  · rintro p ⟨rfl⟩
    rfl
  · rintro p ⟨rfl⟩
    rfl
  · rintro p ⟨rfl⟩
    trivial

theorem hops_refine_two_threads :
    ∃ steps, steps.Sublist twoThreads ∧ steps.filter visible = twoThreads.filter visible ∧
      (threads Bool).pool.Valid (threadsStart fun _ => none) steps ∧
      Refines ((hops Bool).pool.exec (hopsStart fun _ => none) twoThreads)
        ((threads Bool).pool.exec (threadsStart fun _ => none) steps) :=
  hops_refine (fun _ => none) twoThreads_valid

theorem lock_given_back_two_threads :
    ∃ nodes, ((hops Bool).pool.exec (hopsStart fun _ => none) twoThreads).1.mem.traceList.Holds
        MemNode.addr nodes ∧
      ∃ n ≤ nodes.length + 2,
        GivesBack false ((hops Bool).pool.exec (hopsStart fun _ => none) twoThreads) n :=
  lock_given_back (fun _ => none) twoThreads_valid rfl

end RlLibrary.Memory
