import RlLibrary.Foundation.Decimal
import RlLibrary.Foundation.LinkedList
import RlLibrary.Memory.Counters
import RlLibrary.Memory.Tracking

namespace RlLibrary.Memory

open Foundation MemState

/-- `%p` of glibc. -/
def pointerText (p : Addr) : List Byte := text "0x" ++ (Nat.toDigits 16 p).map ascii

def leakLine (ptr : Addr) (bytes : ℤ) (site : CallSite) : List Byte :=
  text "[LEAK] " ++ pointerText ptr ++ text " (" ++ signedDecimal 0 bytes ++
    (text " bytes) from " ++ text site.file ++ text ":" ++ text site.func ++ text ":" ++
      signedDecimal 0 site.line ++ text "\n")

namespace ReportLine

def printed : ReportLine → List Byte
  | .title => text "==== Memory Leak Report ====\n"
  | .date year mon mday hour min sec =>
    signedDecimal 4 year ++ text "-" ++ signedDecimal 2 mon ++ text "-" ++ signedDecimal 2 mday ++
      text " " ++ signedDecimal 2 hour ++ text ":" ++ signedDecimal 2 min ++ text ":" ++
      signedDecimal 2 sec ++ text "\n"
  | .noLeaks => text "No leaks detected\n"
  -- the conversion is %d, the size an unsigned int
  | .leak ptr size site => leakLine ptr size.toInt site
  | .total leakCount leakBytes =>
    text "Total leaks: " ++ signedDecimal 0 leakCount.toInt ++ text " blocks, " ++
      signedDecimal 0 leakBytes.toInt ++ text " bytes\n"
  | .rule => text "============================\n"

def isLeak : ReportLine → Bool
  | .leak _ _ _ => true
  | _ => false

end ReportLine

def MemNode.leak (n : MemNode) : List Byte := leakLine n.ptr n.size.toNat n.toCallSite

structure DeinitAnswers.Succeeds (ans : DeinitAnswers) (time : RlTime) : Prop where
  path : ∃ path, ans.path = some path ∧ path ≠ [] ∧ path.length < 1024
  name : ans.name ≠ none
  time : ans.time = some time
  fopen : ans.fopen = true

def drainTrace (fuel : ℕ) (header : Option Addr) (cells : Cells MemNode) (time : RlTime)
    (heap : Heap) : Option (Draining MemNode Drain) :=
  drain Drain.node fuel header ⟨cells, [], ⟨reportHead time, 0, 0, heap⟩⟩

structure Untouched (s t : MemState) : Prop where
  gMemHeader : t.gMemHeader = s.gMemHeader
  gAllocBlockCount : t.gAllocBlockCount = s.gAllocBlockCount
  gAllocTotalBytes : t.gAllocTotalBytes = s.gAllocTotalBytes
  rlMemoryTraceState : t.rlMemoryTraceState = s.rlMemoryTraceState

structure Reported (s : MemState) (d : Draining MemNode Drain) (lines : List ReportLine)
    (t : MemState) : Prop where
  leaks : (lines.filter ReportLine.isLeak).map ReportLine.printed = s.gMemHeader.map MemNode.leak
  lines : lines = d.locals.report ++ (if s.gMemHeader = [] then [.noLeaks]
    else [.total d.locals.leakCount d.locals.leakBytes]) ++ [.rule]
  leakCount : d.locals.leakCount.toNat = s.gMemHeader.length
  leakBytes : d.locals.leakBytes = BitVec.ofNat 32 (recordedBytes s.gMemHeader)
  freed : d.freed = s.nodeBlocks
  once : d.freed.Nodup
  heap : t.heap = s.heap.hide s.nodeBlocks
  gMemHeader : t.gMemHeader = []
  rlMemoryTraceState : t.rlMemoryTraceState = false

/-- A failed `rl_memory_trace_deinit` leaves tracing intact. A successful one reports every node,
and its loop neither reads nor frees a cell that is freed already. -/
def ReportsLeaks (ans : DeinitAnswers) (s : MemState) (header : Option Addr)
    (cells : Cells MemNode) : Prop :=
  ((rlMemoryTraceDeinit ans s).1 = RL_FAILED → Untouched s (rlMemoryTraceDeinit ans s).2.2) ∧
  ((rlMemoryTraceDeinit ans s).1 = RL_SUCCESS → ∃ time d,
    ans.time = some time ∧
      (∀ fuel, s.gMemHeader.length ≤ fuel → drainTrace fuel header cells time s.heap = some d) ∧
      Reported s d (rlMemoryTraceDeinit ans s).2.1 (rlMemoryTraceDeinit ans s).2.2)

theorem printed_size_iff (size : BitVec 32) :
    signedDecimal 0 size.toInt = signedDecimal 0 size.toNat ↔ size.toNat < 2 ^ 31 := by
  constructor
  · intro h
    by_contra hlarge
    refine signedDecimal_minus ?_ _ _ h
    rw [BitVec.toInt_eq_toNat_cond]
    split_ifs
    · omega
    · have hlt := size.isLt
      omega
  · intro h
    rw [BitVec.toInt_eq_toNat_cond, if_pos (by omega)]

theorem printed_leak_iff (n : MemNode) :
    ReportLine.printed (.leak n.ptr n.size n.toCallSite) = n.leak ↔ n.size.toNat < 2 ^ 31 := by
  rw [ReportLine.printed, MemNode.leak, leakLine, leakLine, List.append_left_inj,
    List.append_right_inj, printed_size_iff]

namespace Drain

theorem nodes_report (d : Drain) (nodes : List MemNode) : (d.nodes nodes).report =
    d.report ++ nodes.map (fun n => .leak n.ptr n.size n.toCallSite) := by
  induction nodes generalizing d with
  | nil => rw [List.map_nil, List.append_nil, nodes, List.foldl_nil]
  | cons n ns ih =>
    rw [List.map_cons, List.append_cons]
    exact ih (d.node n)

theorem nodes_heap (d : Drain) (nodes : List MemNode) :
    (d.nodes nodes).heap = d.heap.hide (nodes.map MemNode.addr) := by
  induction nodes generalizing d with
  | nil => exact (Heap.hide_nil d.heap).symm
  | cons n ns ih => exact (ih (d.node n)).trans (Heap.hide_cut d.heap [] _ n.addr)

theorem nodes_totals (d : Drain) {done : List MemNode} (nodes : List MemNode)
    (h : ReleasesAll done d.leakCount d.leakBytes) :
    ReleasesAll (done ++ nodes) (d.nodes nodes).leakCount (d.nodes nodes).leakBytes := by
  induction nodes generalizing d done with
  | nil => rwa [List.append_nil]
  | cons n ns ih =>
    have hstep : ReleasesAll (done ++ [n]) (d.node n).leakCount (d.node n).leakBytes := by
      rw [← List.append_nil done] at h
      exact h.insert n
    rw [List.append_cons]
    exact ih (d.node n) hstep

end Drain

def MemState.drained (s : MemState) (time : RlTime) : Drain :=
  Drain.nodes ⟨reportHead time, 0, 0, s.heap⟩ s.gMemHeader

theorem rlMemoryTraceDeinit_succeeds {ans : DeinitAnswers} {time : RlTime} {s : MemState}
    (hs : s.rlMemoryTraceState = true) (h : ans.Succeeds time) :
    rlMemoryTraceDeinit ans s = (RL_SUCCESS,
      (s.drained time).report ++ (if s.gMemHeader = [] then [.noLeaks]
        else [.total (s.drained time).leakCount (s.drained time).leakBytes]) ++ [.rule],
      { s with
        memLock := s.memLock.lock.unlock.destroy
        gMemHeader := []
        heap := (s.drained time).heap
        rlMemoryTraceState := false }) := by
  obtain ⟨path, hpath, hne, hlength⟩ := h.path
  obtain ⟨name, hname⟩ := Option.ne_none_iff_exists'.mp h.name
  have hremain : 1024 - (path.length : ℤ) > 0 := by omega
  simp only [rlMemoryTraceDeinit, hs, Bool.true_eq_false, hpath, hne, hname, hremain,
    not_true_eq_false, h.time, h.fopen, ↓reduceIte]
  split_ifs with hnil
  · rfl
  · rfl

theorem rlMemoryTraceDeinit_fails {ans : DeinitAnswers} {s : MemState}
    (h : ∀ time, ¬ ans.Succeeds time) : (rlMemoryTraceDeinit ans s).1 = RL_FAILED := by
  rw [rlMemoryTraceDeinit]
  by_cases hs : s.rlMemoryTraceState = false
  · rw [if_pos hs]
  rw [if_neg hs]
  cases hpath : ans.path with
  | none => rfl
  | some path =>
    dsimp only
    by_cases hnil : path = []
    · rw [if_pos hnil]
    rw [if_neg hnil]
    cases hname : ans.name with
    | none => rfl
    | some name =>
      dsimp only
      by_cases hremain : 1024 - (path.length : ℤ) > 0
      · rw [if_neg (not_not.mpr hremain)]
        cases htime : ans.time with
        | none => rfl
        | some time =>
          dsimp only
          cases hfopen : ans.fopen with
          | false => rfl
          | true =>
            have hname' : ans.name ≠ none := by simp [hname]
            exact absurd ⟨⟨path, hpath, hnil, by omega⟩, hname', htime, hfopen⟩ (h time)
      · rw [if_pos hremain]

theorem rlMemoryTraceDeinit_untouched {ans : DeinitAnswers} {s : MemState}
    (h : (rlMemoryTraceDeinit ans s).1 = RL_FAILED) : Untouched s (rlMemoryTraceDeinit ans s).2.2 := by
  rcases rlMemoryTraceDeinit_cases ans s with ⟨_, hsame | hsame⟩ | ⟨_, hok, _⟩
  · rw [hsame]
    exact ⟨rfl, rfl, rfl, rfl⟩
  · rw [hsame]
    exact ⟨rfl, rfl, rfl, rfl⟩
  · rw [hok] at h
    cases h

section Drained

variable {s : MemState} {header : Option Addr} {cells : Cells MemNode}

theorem drainTrace_linked (hl : Linked MemNode.addr cells header s.gMemHeader) (time : RlTime)
    {fuel : ℕ} (hfuel : s.gMemHeader.length ≤ fuel) :
    drainTrace fuel header cells time s.heap =
      some ⟨cells.freeAll s.nodeBlocks, s.nodeBlocks, s.drained time⟩ :=
  drain_linked Drain.node hl hfuel [] _

theorem drained_totals (s : MemState) (time : RlTime) :
    ReleasesAll s.gMemHeader (s.drained time).leakCount (s.drained time).leakBytes := by
  have hstart : ReleasesAll [] (0 : BitVec 32) 0 := ⟨rfl, rfl⟩
  exact Drain.nodes_totals ⟨reportHead time, 0, 0, s.heap⟩ s.gMemHeader hstart

theorem leaks_written (s : MemState) (time : RlTime) {tail : List ReportLine}
    (htail : tail.filter ReportLine.isLeak = []) :
    ((s.drained time).report ++ tail ++ [ReportLine.rule]).filter ReportLine.isLeak =
      s.gMemHeader.map (fun n => .leak n.ptr n.size n.toCallSite) := by
  have hhead : (reportHead time).filter ReportLine.isLeak = [] := rfl
  have hleaks : (s.gMemHeader.map fun n => ReportLine.leak n.ptr n.size n.toCallSite).filter
      ReportLine.isLeak = s.gMemHeader.map fun n => .leak n.ptr n.size n.toCallSite := by
    rw [List.filter_eq_self]
    intro line hline
    obtain ⟨n, _, rfl⟩ := List.mem_map.mp hline
    rfl
  have hrule : [ReportLine.rule].filter ReportLine.isLeak = [] := rfl
  rw [drained, Drain.nodes_report, List.filter_append, List.filter_append, List.filter_append,
    hhead, hleaks, htail, hrule, List.nil_append, List.append_nil, List.append_nil]

theorem leaks_exact_iff {ans : DeinitAnswers} {time : RlTime} (hs : s.rlMemoryTraceState = true)
    (h : ans.Succeeds time) :
    ((rlMemoryTraceDeinit ans s).2.1.filter ReportLine.isLeak).map ReportLine.printed =
      s.gMemHeader.map MemNode.leak ↔ ∀ n ∈ s.gMemHeader, n.size.toNat < 2 ^ 31 := by
  have htail : (if s.gMemHeader = [] then [ReportLine.noLeaks]
      else [.total (s.drained time).leakCount (s.drained time).leakBytes]).filter
        ReportLine.isLeak = [] := by
    split_ifs <;> rfl
  rw [rlMemoryTraceDeinit_succeeds hs h, leaks_written s time htail, List.map_map,
    List.map_inj_left]
  constructor
  · exact fun hsame n hn => (printed_leak_iff n).mp (hsame n hn)
  · exact fun hsmall n hn => (printed_leak_iff n).mpr (hsmall n hn)

theorem count_exact_iff (s : MemState) (time : RlTime) :
    (s.drained time).leakCount.toNat = s.gMemHeader.length ↔ s.gMemHeader.length < 2 ^ 32 := by
  rw [(drained_totals s time).count, BitVec.toNat_ofNat]
  constructor
  · intro hlength
    rw [← hlength]
    exact Nat.mod_lt _ (by decide)
  · exact Nat.mod_eq_of_lt

theorem reported (hl : Linked MemNode.addr cells header s.gMemHeader) {ans : DeinitAnswers}
    {time : RlTime} (hs : s.rlMemoryTraceState = true) (h : ans.Succeeds time)
    (hlength : s.gMemHeader.length < 2 ^ 32) (hsizes : ∀ n ∈ s.gMemHeader, n.size.toNat < 2 ^ 31) :
    Reported s ⟨cells.freeAll s.nodeBlocks, s.nodeBlocks, s.drained time⟩
      (rlMemoryTraceDeinit ans s).2.1 (rlMemoryTraceDeinit ans s).2.2 := by
  have hleaks := (leaks_exact_iff hs h).mpr hsizes
  rw [rlMemoryTraceDeinit_succeeds hs h] at hleaks ⊢
  exact {
    leaks := hleaks
    lines := rfl
    leakCount := (count_exact_iff s time).mpr hlength
    leakBytes := (drained_totals s time).bytes
    freed := rfl
    once := hl.nodup
    heap := Drain.nodes_heap _ s.gMemHeader
    gMemHeader := rfl
    rlMemoryTraceState := rfl }

end Drained

theorem reports_leaks_iff (ans : DeinitAnswers) {s : MemState} {header : Option Addr}
    {cells : Cells MemNode} (hs : s.rlMemoryTraceState = true)
    (hl : Linked MemNode.addr cells header s.gMemHeader) :
    ReportsLeaks ans s header cells ↔ ∀ time, ans.Succeeds time →
      s.gMemHeader.length < 2 ^ 32 ∧ ∀ n ∈ s.gMemHeader, n.size.toNat < 2 ^ 31 := by
  constructor
  · intro hreports time h
    have hok : (rlMemoryTraceDeinit ans s).1 = RL_SUCCESS := by rw [rlMemoryTraceDeinit_succeeds hs h]
    obtain ⟨time', d, htime, hloop, hr⟩ := hreports.2 hok
    rw [h.time, Option.some_inj] at htime
    subst htime
    have hcount := hr.leakCount
    have hend := hloop _ le_rfl
    rw [drainTrace_linked hl time le_rfl, Option.some_inj] at hend
    rw [← hend] at hcount
    exact ⟨(count_exact_iff s time).mp hcount, (leaks_exact_iff hs h).mp hr.leaks⟩
  · intro hcond
    refine ⟨rlMemoryTraceDeinit_untouched, fun hok => ?_⟩
    by_cases hanswers : ∃ time, ans.Succeeds time
    · obtain ⟨time, h⟩ := hanswers
      obtain ⟨hlength, hsizes⟩ := hcond time h
      exact ⟨time, _, h.time, fun fuel hfuel => drainTrace_linked hl time hfuel,
        reported hl hs h hlength hsizes⟩
    · rw [rlMemoryTraceDeinit_fails (not_exists.mp hanswers)] at hok
      cases hok

theorem Tracked.exists_linked {w : World} (h : Tracked w) :
    ∃ cells header, Linked MemNode.addr cells header w.mem.gMemHeader :=
  Foundation.exists_linked h.heap.nodup

def leakOf (size : BitVec 32) : MemState :=
  (library.exec (World.start fun _ => none)
    [.init true true, .malloc size ⟨"a.c", "f", 1⟩ (some 100) (some 200)]).mem

def leakCells (size : BitVec 32) : Cells MemNode :=
  Function.update (fun _ => none) 200 (some ⟨⟨⟨"a.c", "f", 1⟩, 200, 100, size⟩, none⟩)

def written : DeinitAnswers := ⟨some [47], some [97], some ⟨0, 0, 12, 1, 0, 124, 1, 0, 0, 0, 0⟩, true⟩

def twoLeaks : MemState :=
  (library.exec (World.start fun _ => none)
    [.init true true, .malloc 8#32 ⟨"a.c", "f", 1⟩ (some 100) (some 200),
      .malloc 16#32 ⟨"b.c", "g", 2⟩ (some 300) (some 400)]).mem

def twoCells : Cells MemNode :=
  Function.update (leakCells 8#32) 400 (some ⟨⟨⟨"b.c", "g", 2⟩, 400, 300, 16#32⟩, some 200⟩)

theorem reports_leaks_two : ReportsLeaks written twoLeaks (some 400) twoCells := by
  have hlinked : Linked MemNode.addr twoCells (some 400) twoLeaks.gMemHeader :=
    .cons (x := (⟨⟨"b.c", "g", 2⟩, 400, 300, 16#32⟩ : MemNode)) rfl
      (.cons (x := (⟨⟨"a.c", "f", 1⟩, 200, 100, 8#32⟩ : MemNode)) rfl .nil)
  apply (reports_leaks_iff written rfl hlinked).mpr
  intro time h
  decide

theorem huge_leak_misprinted :
    ¬ ReportsLeaks written (leakOf 2147483648#32) (some 200) (leakCells 2147483648#32) := by
  intro h
  obtain ⟨time, d, htime, hloop, hr⟩ := h.2 rfl
  have hsucceeds : written.Succeeds time := ⟨⟨[47], rfl, by decide, by decide⟩, by decide, htime, rfl⟩
  have hsizes := (leaks_exact_iff rfl hsucceeds).mp hr.leaks
  exact absurd (hsizes _ List.mem_cons_self) (by decide)

end RlLibrary.Memory
