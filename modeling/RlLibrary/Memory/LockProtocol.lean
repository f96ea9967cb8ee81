import RlLibrary.Memory.Ledger

namespace RlLibrary.Memory

open Foundation MemState

def LockKept (s : MemState) : Prop := s.memLock.misused = false ∧ s.memLock.state ≠ .locked

def LockFollows (s : MemState) : Prop :=
  s.memLock = ⟨if s.rlMemoryTraceState then .unlocked else .uninitialised, false⟩

theorem LockFollows.kept {s : MemState} (h : LockFollows s) : LockKept s := by
  rw [LockKept, h]
  cases s.rlMemoryTraceState <;> exact ⟨rfl, nofun⟩

namespace LockFollows

variable {s : MemState}

theorem tracing (h : LockFollows s) (hs : s.rlMemoryTraceState = true) :
    s.memLock = ⟨.unlocked, false⟩ := by
  rw [h, hs]
  rfl

theorem underLock {t : MemState} (h : LockFollows s) (hs : s.rlMemoryTraceState = true)
    (hflag : t.rlMemoryTraceState = s.rlMemoryTraceState)
    (hlock : t.memLock = s.memLock.lock.unlock) : LockFollows t := by
  rw [LockFollows, hlock, h.tracing hs, hflag, hs]
  rfl

theorem same {t : MemState} (h : LockFollows s)
    (hflag : t.rlMemoryTraceState = s.rlMemoryTraceState) (hlock : t.memLock = s.memLock) :
    LockFollows t := by
  rw [LockFollows, hlock, hflag, h]

theorem obtainBlock (h : LockFollows s) (bytes : ℕ) (size : BitVec 32) (site : CallSite)
    (block node : Option Addr) : LockFollows (obtainBlock bytes size site block node s).2 := by
  cases block with
  | none => exact h
  | some p =>
    cases hs : s.rlMemoryTraceState with
    | false =>
      rw [obtainBlock_off _ _ _ hs]
      exact h.same rfl rfl
    | true =>
      rw [obtainBlock_on _ _ _ hs]
      cases node with
      | none => exact h.same rfl rfl
      | some a => exact h.underLock hs rfl rfl

theorem rlMalloc (h : LockFollows s) (size : BitVec 32) (site : CallSite)
    (block node : Option Addr) : LockFollows (rlMalloc size site block node s).2 := by
  by_cases hz : size = 0#32
  · simpa [Memory.rlMalloc, hz] using h
  · rw [rlMalloc_pos _ _ hz]
    exact h.obtainBlock ..

theorem rlCalloc (h : LockFollows s) (block count : BitVec 32) (site : CallSite)
    (zeroed node : Option Addr) : LockFollows (rlCalloc block count site zeroed node s).2 := by
  by_cases hz : block = 0#32 ∨ count = 0#32
  · simpa [Memory.rlCalloc, hz] using h
  · simp only [Memory.rlCalloc, hz, ↓reduceIte]
    exact h.obtainBlock ..

theorem rlRealloc (h : LockFollows s) (ptr : Option Addr) (size : BitVec 32) (site : CallSite)
    (block node : Option Addr) : LockFollows (rlRealloc ptr size site block node s).2 := by
  by_cases hz : size = 0#32
  · simpa [Memory.rlRealloc, hz] using h
  cases ptr with
  | none =>
    rw [rlRealloc_null]
    exact h.rlMalloc ..
  | some p =>
    cases block with
    | none => rwa [rlRealloc_failed]
    | some q =>
      cases hs : s.rlMemoryTraceState with
      | false =>
        rw [rlRealloc_off _ _ hs hz]
        exact h.same rfl rfl
      | true =>
        by_cases hb : p ∈ s.blocks
        · obtain ⟨t, ht⟩ := exists_rekeyNode (s := s.resize p q size.toNat) q size site hb
          rw [rlRealloc_found _ _ hs hz ht]
          obtain ⟨before, cur, after, _, rfl⟩ := rekeyNode_eq_some ht
          exact h.underLock hs rfl rfl
        · rw [rlRealloc_missing _ _ hs hz hb]
          have hsearch : LockFollows (s.resize p q size.toNat).passLock := h.underLock hs rfl rfl
          cases node with
          | none => exact hsearch.same rfl rfl
          | some a => exact hsearch.underLock hs rfl rfl

theorem rlFree (h : LockFollows s) (ptr : Option Addr) : LockFollows (rlFree ptr s).2 := by
  cases ptr with
  | none => exact h
  | some p =>
    cases hs : s.rlMemoryTraceState with
    | false =>
      rw [rlFree_off hs]
      exact h.same rfl rfl
    | true =>
      by_cases hb : p ∈ s.blocks
      · obtain ⟨t, ht⟩ := exists_unlinkNode hb
        rw [rlFree_found hs ht]
        obtain ⟨before, temp, after, _, rfl⟩ := unlinkNode_eq_some ht
        exact h.underLock hs rfl rfl
      · rw [rlFree_missing hs hb]
        exact h.underLock hs rfl rfl

theorem rlMemoryTraceDeinit (h : LockFollows s) (ans : DeinitAnswers) :
    LockFollows (rlMemoryTraceDeinit ans s).2.2 := by
  cases hs : s.rlMemoryTraceState with
  | false => simpa [Memory.rlMemoryTraceDeinit, hs] using h
  | true =>
    rcases rlMemoryTraceDeinit_cases ans s with ⟨_, he | he⟩ | ⟨_, _, d, he, _⟩
    · rwa [he]
    · rw [he]
      exact h.underLock hs rfl rfl
    · rw [he, LockFollows, h.tracing hs]
      rfl

theorem rlMemoryTraceInit (h : LockFollows s) {state : Bool}
    (hon : state = false → s.rlMemoryTraceState = true) :
    LockFollows (rlMemoryTraceInit state true s) := by
  cases hs : s.rlMemoryTraceState with
  | true => simpa [Memory.rlMemoryTraceInit, hs] using h
  | false =>
    cases state with
    | false => exact absurd (hs.symm.trans (hon rfl)) (by decide)
    | true =>
      rw [LockFollows] at h ⊢
      simp only [Memory.rlMemoryTraceInit, hs, Bool.false_eq_true, ↓reduceIte, h]
      rfl

end LockFollows

def Unready (s : MemState) : Prop :=
  s.rlMemoryTraceState = true ∧ s.memLock = ⟨.uninitialised, false⟩

theorem Unready.kept {s : MemState} (h : Unready s) : LockKept s := by
  rw [LockKept, h.2]
  exact ⟨rfl, nofun⟩

def DeinitAnswers.ReachesLock (ans : DeinitAnswers) : Prop :=
  ∃ path, ans.path = some path ∧ path ≠ [] ∧ path.length < 1024 ∧ ans.name ≠ none ∧
    ans.time ≠ none

def Call.Locks : Call → Prop
  | init _ _ => False
  | deinit ans => ans.ReachesLock
  | malloc size _ block node => size ≠ 0#32 ∧ block ≠ none ∧ node ≠ none
  | calloc block count _ zeroed node =>
    ¬ (block = 0#32 ∨ count = 0#32) ∧ zeroed ≠ none ∧ node ≠ none
  | realloc none size _ block node => size ≠ 0#32 ∧ block ≠ none ∧ node ≠ none
  | realloc (some _) size _ block _ => size ≠ 0#32 ∧ block ≠ none
  | free ptr => ptr ≠ none
  | systemMalloc _ _ => False
  | systemFree _ => False

namespace Unready

variable {s : MemState}

theorem same {t : MemState} (h : Unready s) (hflag : t.rlMemoryTraceState = s.rlMemoryTraceState)
    (hlock : t.memLock = s.memLock) : Unready t :=
  ⟨hflag.trans h.1, hlock.trans h.2⟩

theorem misused {t : MemState} (h : Unready s) (hlock : t.memLock = s.memLock.lock.unlock) :
    t.memLock.misused = true := by
  rw [hlock, h.2]
  rfl

theorem obtainBlock (h : Unready s) (bytes : ℕ) (size : BitVec 32) (site : CallSite)
    {block node : Option Addr} (hquiet : ¬ (block ≠ none ∧ node ≠ none)) :
    Unready (obtainBlock bytes size site block node s).2 := by
  cases block with
  | none => exact h
  | some p =>
    cases node with
    | some a => exact absurd ⟨nofun, nofun⟩ hquiet
    | none =>
      rw [obtainBlock_on _ _ _ h.1]
      exact h.same rfl rfl

theorem obtainBlock_misused (h : Unready s) (bytes : ℕ) (size : BitVec 32) (site : CallSite)
    {block node : Option Addr} (hlocks : block ≠ none ∧ node ≠ none) :
    (Memory.obtainBlock bytes size site block node s).2.memLock.misused = true := by
  obtain ⟨hblock, hnode⟩ := hlocks
  obtain ⟨p, rfl⟩ := Option.ne_none_iff_exists'.mp hblock
  obtain ⟨a, rfl⟩ := Option.ne_none_iff_exists'.mp hnode
  rw [obtainBlock_on _ _ _ h.1]
  exact h.misused rfl

theorem rlMalloc (h : Unready s) {size : BitVec 32} (site : CallSite) {block node : Option Addr}
    (hquiet : ¬ (size ≠ 0#32 ∧ block ≠ none ∧ node ≠ none)) :
    Unready (rlMalloc size site block node s).2 := by
  by_cases hz : size = 0#32
  · simpa [Memory.rlMalloc, hz] using h
  · rw [rlMalloc_pos _ _ hz]
    exact h.obtainBlock _ _ _ fun hlocks => hquiet ⟨hz, hlocks⟩

theorem rlMalloc_misused (h : Unready s) {size : BitVec 32} (site : CallSite)
    {block node : Option Addr} (hlocks : size ≠ 0#32 ∧ block ≠ none ∧ node ≠ none) :
    (Memory.rlMalloc size site block node s).2.memLock.misused = true := by
  rw [rlMalloc_pos _ _ hlocks.1]
  exact h.obtainBlock_misused _ _ _ hlocks.2

theorem rlCalloc (h : Unready s) {block count : BitVec 32} (site : CallSite)
    {zeroed node : Option Addr}
    (hquiet : ¬ (¬ (block = 0#32 ∨ count = 0#32) ∧ zeroed ≠ none ∧ node ≠ none)) :
    Unready (rlCalloc block count site zeroed node s).2 := by
  by_cases hz : block = 0#32 ∨ count = 0#32
  · simpa [Memory.rlCalloc, hz] using h
  · simp only [Memory.rlCalloc, hz, ↓reduceIte]
    exact h.obtainBlock _ _ _ fun hlocks => hquiet ⟨hz, hlocks⟩

theorem rlCalloc_misused (h : Unready s) {block count : BitVec 32} (site : CallSite)
    {zeroed node : Option Addr}
    (hlocks : ¬ (block = 0#32 ∨ count = 0#32) ∧ zeroed ≠ none ∧ node ≠ none) :
    (Memory.rlCalloc block count site zeroed node s).2.memLock.misused = true := by
  simp only [Memory.rlCalloc, hlocks.1, ↓reduceIte]
  exact h.obtainBlock_misused _ _ _ hlocks.2

theorem rlRealloc (h : Unready s) (p : Addr) {size : BitVec 32} (site : CallSite)
    {block : Option Addr} (node : Option Addr) (hquiet : ¬ (size ≠ 0#32 ∧ block ≠ none)) :
    Unready (rlRealloc (some p) size site block node s).2 := by
  by_cases hz : size = 0#32
  · simpa [Memory.rlRealloc, hz] using h
  cases block with
  | none => rwa [rlRealloc_failed]
  | some q => exact absurd ⟨hz, Option.some_ne_none q⟩ hquiet

theorem rlRealloc_misused (h : Unready s) (p : Addr) {size : BitVec 32} (site : CallSite)
    {block : Option Addr} (node : Option Addr) (hlocks : size ≠ 0#32 ∧ block ≠ none) :
    (Memory.rlRealloc (some p) size site block node s).2.memLock.misused = true := by
  obtain ⟨hz, hblock⟩ := hlocks
  obtain ⟨q, rfl⟩ := Option.ne_none_iff_exists'.mp hblock
  by_cases hb : p ∈ s.blocks
  · obtain ⟨t, ht⟩ := exists_rekeyNode (s := s.resize p q size.toNat) q size site hb
    rw [rlRealloc_found _ _ h.1 hz ht]
    obtain ⟨before, cur, after, _, rfl⟩ := rekeyNode_eq_some ht
    exact h.misused rfl
  · rw [rlRealloc_missing _ _ h.1 hz hb]
    have hsearch : (s.resize p q size.toNat).passLock.memLock.misused = true := h.misused rfl
    cases node with
    | none => exact hsearch
    -- the second round starts on a mutex already misused, and the record only grows
    | some a =>
      change (s.memLock.lock.unlock.lock.unlock).misused = true
      rw [h.2]
      rfl

theorem rlFree_misused (h : Unready s) (p : Addr) :
    (Memory.rlFree (some p) s).2.memLock.misused = true := by
  by_cases hb : p ∈ s.blocks
  · obtain ⟨t, ht⟩ := exists_unlinkNode hb
    rw [rlFree_found h.1 ht]
    obtain ⟨before, temp, after, _, rfl⟩ := unlinkNode_eq_some ht
    exact h.misused rfl
  · rw [rlFree_missing h.1 hb]
    exact h.misused rfl

theorem rlMemoryTraceDeinit_misused (h : Unready s) {ans : DeinitAnswers}
    (hlocks : ans.ReachesLock) :
    (Memory.rlMemoryTraceDeinit ans s).2.2.memLock.misused = true := by
  obtain ⟨path, hpath, hne, hlen, hname, htime⟩ := hlocks
  obtain ⟨name, hname⟩ := Option.ne_none_iff_exists'.mp hname
  obtain ⟨time, htime⟩ := Option.ne_none_iff_exists'.mp htime
  have hremain : (1024 - path.length : ℤ) > 0 := by omega
  cases hfopen : ans.fopen <;>
    simp only [Memory.rlMemoryTraceDeinit, h.1, hpath, hne, hname, htime, hremain, hfopen,
      ↓reduceIte, Bool.true_eq_false, not_true_eq_false, MemState.passLock, h.2] <;>
    rfl

theorem rlMemoryTraceDeinit (h : Unready s) {ans : DeinitAnswers} (hquiet : ¬ ans.ReachesLock) :
    Unready (rlMemoryTraceDeinit ans s).2.2 := by
  suffices (Memory.rlMemoryTraceDeinit ans s).2.2 = s by rwa [this]
  simp only [Memory.rlMemoryTraceDeinit, h.1, ↓reduceIte, Bool.true_eq_false]
  cases hpath : ans.path with
  | none => rfl
  | some path =>
    by_cases hne : path = []
    · simp [hne]
    cases hname : ans.name with
    | none => simp [hne]
    | some name =>
      by_cases hremain : (1024 - path.length : ℤ) > 0
      · cases htime : ans.time with
        | none => simp [hne]
        | some time =>
          exact absurd ⟨path, hpath, hne, by omega, by simp [hname], by simp [htime]⟩ hquiet
      · simp only [hne, hremain, not_false_eq_true, ↓reduceIte]

theorem call {w : World} (h : Unready w.mem) {c : Call} (hquiet : ¬ c.Locks) :
    Unready (w.call c).mem := by
  cases c with
  | init state mutexInit =>
    change Unready (rlMemoryTraceInit state mutexInit w.mem)
    rwa [rlMemoryTraceInit, if_pos h.1]
  | deinit ans => exact h.rlMemoryTraceDeinit hquiet
  | malloc size site block node => exact h.rlMalloc _ hquiet
  | calloc block count site zeroed node => exact h.rlCalloc _ hquiet
  | realloc ptr size site block node =>
    cases ptr with
    | none =>
      change Unready (Memory.rlRealloc none size site block node w.mem).2
      rw [rlRealloc_null]
      exact h.rlMalloc _ hquiet
    | some p => exact h.rlRealloc p site node hquiet
  | free ptr =>
    cases ptr with
    | none => exact h
    | some p => exact absurd nofun hquiet
  | systemMalloc p bytes => exact h.same rfl rfl
  | systemFree p => exact h.same rfl rfl

theorem not_kept {w : World} (h : Unready w.mem) {c : Call} (hlocks : c.Locks) :
    ¬ LockKept (w.call c).mem := by
  suffices (w.call c).mem.memLock.misused = true from fun hkept =>
    absurd (this.symm.trans hkept.1) (by decide)
  cases c with
  | init | systemMalloc | systemFree => exact hlocks.elim
  | deinit ans => exact h.rlMemoryTraceDeinit_misused hlocks
  | malloc size site block node => exact h.rlMalloc_misused _ hlocks
  | calloc block count site zeroed node => exact h.rlCalloc_misused _ hlocks
  | realloc ptr size site block node =>
    cases ptr with
    | none =>
      change (Memory.rlRealloc none size site block node w.mem).2.memLock.misused = true
      rw [rlRealloc_null]
      exact h.rlMalloc_misused site hlocks
    | some p => exact h.rlRealloc_misused p site node hlocks
  | free ptr =>
    obtain ⟨p, rfl⟩ := Option.ne_none_iff_exists'.mp hlocks
    exact h.rlFree_misused p

end Unready

theorem LockFollows.call {w : World} (h : LockFollows w.mem) {c : Call}
    (hready : ∀ state mutexInit, c = .init state mutexInit → w.mem.rlMemoryTraceState = false →
      state = true ∧ mutexInit = true) : LockFollows (w.call c).mem := by
  cases c with
  | init state mutexInit =>
    cases hs : w.mem.rlMemoryTraceState with
    | true =>
      change LockFollows (Memory.rlMemoryTraceInit state mutexInit w.mem)
      rwa [Memory.rlMemoryTraceInit, if_pos hs]
    | false =>
      obtain ⟨rfl, rfl⟩ := hready _ _ rfl hs
      exact h.rlMemoryTraceInit nofun
  | deinit ans => exact h.rlMemoryTraceDeinit ans
  | malloc size site block node => exact h.rlMalloc ..
  | calloc block count site zeroed node => exact h.rlCalloc ..
  | realloc ptr size site block node => exact h.rlRealloc ..
  | free ptr => exact h.rlFree ptr
  | systemMalloc p bytes => exact h.same rfl rfl
  | systemFree p => exact h.same rfl rfl

theorem not_kept_of_disable {w : World} (h : LockFollows w.mem)
    (hs : w.mem.rlMemoryTraceState = false) (mutexInit : Bool) :
    ¬ LockKept (w.call (.init false mutexInit)).mem := by
  rintro ⟨hmisused, _⟩
  rw [LockFollows, hs] at h
  simp [World.call, Call.apply, rlMemoryTraceInit, hs, h, Mutex.destroy, Mutex.step] at hmisused

theorem LockFollows.unready {w : World} (h : LockFollows w.mem)
    (hs : w.mem.rlMemoryTraceState = false) : Unready (w.call (.init true false)).mem := by
  rw [LockFollows, hs] at h
  change Unready (Memory.rlMemoryTraceInit true false w.mem)
  rw [Memory.rlMemoryTraceInit, if_neg (Bool.eq_false_iff.mp hs), if_pos rfl, Unready, h]
  exact ⟨rfl, rfl⟩

def DisablesEnabled (heap : Heap) (cs : List Call) : Prop :=
  ∀ pre mutexInit, pre ++ [.init false mutexInit] <+: cs →
    (library.exec (World.start heap) pre).mem.rlMemoryTraceState = true

/-- Once an enabling call went on without its mutex, no later call takes the lock. -/
def FailedInitsUnused (heap : Heap) (cs : List Call) : Prop :=
  ∀ pre mid c, pre ++ .init true false :: mid ++ [c] <+: cs →
    (library.exec (World.start heap) pre).mem.rlMemoryTraceState = false → ¬ c.Locks

def UnreadySince (heap : Heap) (pre : List Call) : Prop :=
  Unready (library.exec (World.start heap) pre).mem ∧
    ∃ early mid, pre = early ++ .init true false :: mid ∧
      (library.exec (World.start heap) early).mem.rlMemoryTraceState = false

theorem lockFollows_or_unready {heap : Heap} {cs : List Call} (hon : DisablesEnabled heap cs)
    (hunused : FailedInitsUnused heap cs) :
    ∀ pre, pre <+: cs → LockFollows (library.exec (World.start heap) pre).mem ∨
      UnreadySince heap pre := by
  intro pre hpre
  induction pre using List.reverseRecOn with
  | nil => exact .inl rfl
  | append_singleton pre c ih =>
    rw [UnreadySince, Machine.exec_append]
    rcases ih ((List.prefix_append _ _).trans hpre) with hf | ⟨hu, early, mid, rfl, hoff⟩
    · by_cases hfail : c = .init true false ∧
        (library.exec (World.start heap) pre).mem.rlMemoryTraceState = false
      · obtain ⟨rfl, hs⟩ := hfail
        exact .inr ⟨hf.unready hs, pre, [], rfl, hs⟩
      · refine .inl (hf.call fun state mutexInit hc hs => ?_)
        subst hc
        cases state with
        | false => exact absurd (hs.symm.trans (hon pre mutexInit hpre)) (by decide)
        | true =>
          cases mutexInit with
          | true => exact ⟨rfl, rfl⟩
          | false => exact absurd ⟨rfl, hs⟩ hfail
    · have hquiet : ¬ c.Locks := hunused early mid c hpre hoff
      exact .inr ⟨hu.call hquiet, early, mid ++ [c], by simp, hoff⟩

theorem unready_after_failure {heap : Heap} {cs : List Call} (hon : DisablesEnabled heap cs)
    (hunused : FailedInitsUnused heap cs) {early mid : List Call}
    (hpre : early ++ .init true false :: mid <+: cs)
    (hoff : (library.exec (World.start heap) early).mem.rlMemoryTraceState = false) :
    Unready (library.exec (World.start heap) (early ++ .init true false :: mid)).mem := by
  induction mid using List.reverseRecOn with
  | nil =>
    rw [Machine.exec_append]
    rcases lockFollows_or_unready hon hunused early ((List.prefix_append _ _).trans hpre) with
      hf | ⟨hu, _⟩
    · exact hf.unready hoff
    · exact absurd (hoff.symm.trans hu.1) (by decide)
  | append_singleton mid c ih =>
    rw [← List.cons_append, ← List.append_assoc] at hpre ⊢
    have hu := ih ((List.prefix_append _ _).trans hpre)
    rw [Machine.exec_append]
    exact hu.call (hunused early mid c hpre hoff)

theorem lock_protocol_iff (heap : Heap) (cs : List Call) :
    (∀ pre, pre <+: cs → LockKept (library.exec (World.start heap) pre).mem) ↔
      DisablesEnabled heap cs ∧ FailedInitsUnused heap cs := by
  constructor
  · intro h
    induction cs using List.reverseRecOn with
    | nil => exact ⟨fun pre _ hpre => by simp at hpre, fun pre mid c hpre => by simp at hpre⟩
    | append_singleton cs c ih =>
      obtain ⟨hon, hunused⟩ := ih fun pre hpre => h pre (hpre.trans (List.prefix_append _ _))
      -- both conditions hold before the last call, and the last call was kept
      have hlast := h _ List.prefix_rfl
      rw [Machine.exec_append] at hlast
      constructor
      · intro pre mutexInit hpre
        rcases List.prefix_concat_iff.mp hpre with heq | hpre
        · obtain ⟨rfl, hcall⟩ := List.append_inj' heq rfl
          obtain rfl : .init false mutexInit = c := List.singleton_inj.mp hcall
          rcases lockFollows_or_unready hon hunused pre List.prefix_rfl with hf | ⟨hu, _⟩
          · by_contra hoff
            exact not_kept_of_disable hf (Bool.eq_false_iff.mpr hoff) mutexInit hlast
          · exact hu.1
        · exact hon pre mutexInit hpre
      · intro pre mid last hpre hoff
        rcases List.prefix_concat_iff.mp hpre with heq | hpre
        · obtain ⟨rfl, hcall⟩ := List.append_inj' heq rfl
          obtain rfl : last = c := List.singleton_inj.mp hcall
          have hu := unready_after_failure hon hunused List.prefix_rfl hoff
          exact fun hlocks => hu.not_kept hlocks hlast
        · exact hunused pre mid last hpre hoff
  · rintro ⟨hon, hunused⟩ pre hpre
    rcases lockFollows_or_unready hon hunused pre hpre with hf | ⟨hu, _⟩
    · exact hf.kept
    · exact hu.kept

theorem disable_destroys_uninitialised :
    library.Valid (World.start fun _ => none) [.init false true] ∧
      ¬ LockKept (library.exec (World.start fun _ => none) [.init false true]).mem :=
  ⟨by decide, fun h => absurd h.1 (by decide)⟩

end RlLibrary.Memory
