import RlLibrary.Foundation.Hexadecimal
import RlLibrary.Foundation.Lines
import RlLibrary.Memory.Report

namespace RlLibrary.Memory

open Foundation MemState

def reportText (report : List ReportLine) : List Byte := (report.map ReportLine.printed).flatten

structure CallSite.Plain (site : CallSite) : Prop where
  file : 10 ∉ text site.file
  func : 10 ∉ text site.func ∧ 58 ∉ text site.func

def MemNode.told (n : MemNode) : Addr × BitVec 32 × List Byte × List Byte × ℤ :=
  (n.ptr, n.size, text n.file, text n.func, n.line)

section Numbers

variable {p q : Addr} {b : Byte}

def hexText (p : Addr) : List Byte := (Nat.toDigits 16 p).map ascii

theorem digit_lowerDigit : ∀ n < 16, digit (ascii (Nat.digitChar n)) = n := by decide

theorem hexText_injective (h : hexText p = hexText q) : p = q := by
  rw [← value_mapped digit_lowerDigit p, ← value_mapped digit_lowerDigit q]
  exact congrArg (value 16) h

theorem hexText_digit (hb : b ∈ hexText p) : digit b < 16 := by
  obtain ⟨c, hc, rfl⟩ := List.mem_map.mp hb
  exact mapped_digits digit_lowerDigit hc

end Numbers

section Lines

variable {ptr ptr' : Addr} {bytes bytes' : ℤ} {site site' : CallSite}

theorem leakLine_eq (ptr : Addr) (bytes : ℤ) (site : CallSite) : leakLine ptr bytes site =
    text "[LEAK] 0x" ++ (hexText ptr ++ 32 :: 40 :: (signedDecimal 0 bytes ++ 32 ::
      (text "bytes) from " ++ ((text site.file ++ 58 :: text site.func) ++ 58 ::
        (signedDecimal 0 site.line ++ [10]))))) := by
  simp only [leakLine, pointerText, hexText, List.append_assoc, List.cons_append]
  rfl

theorem leakLine_injective (hsite : site.Plain) (hsite' : site'.Plain)
    (h : leakLine ptr bytes site = leakLine ptr' bytes' site') :
    ptr = ptr' ∧ bytes = bytes' ∧ text site.file = text site'.file ∧
      text site.func = text site'.func ∧ site.line = site'.line := by
  have hhex (p : Addr) : 32 ∉ hexText p := fun hmem => absurd (hexText_digit hmem) (by decide)
  have hblank (i : ℤ) : 32 ∉ signedDecimal 0 i := signedDecimal_stop (by decide) (by decide)
  have hcolon (i : ℤ) : 58 ∉ signedDecimal 0 i ++ [10] := by
    rw [List.mem_append, not_or]
    exact ⟨signedDecimal_stop (by decide) (by decide), by decide⟩
  rw [leakLine_eq, leakLine_eq] at h
  obtain ⟨hptr, h⟩ := cut_first (hhex ptr) (hhex ptr') (List.append_cancel_left h)
  obtain ⟨hbytes, h⟩ := cut_first (hblank bytes) (hblank bytes') (List.tail_eq_of_cons_eq h)
  obtain ⟨hnames, hline⟩ := cut_last (hcolon site.line) (hcolon site'.line) (List.append_cancel_left h)
  obtain ⟨hfile, hfunc⟩ := cut_last hsite.func.2 hsite'.func.2 hnames
  exact ⟨hexText_injective hptr, signedDecimal_injective hbytes, hfile, hfunc,
    signedDecimal_injective (List.append_cancel_right hline)⟩

theorem isLine_ends {line : List Byte} (body : List Byte) (hbody : 10 ∉ body) (h : line = body ++ [10]) :
    IsLine 10 line := ⟨body, hbody, h⟩

theorem leakLine_isLine (hsite : site.Plain) (ptr : Addr) (bytes : ℤ) :
    IsLine 10 (leakLine ptr bytes site) := by
  have hhex : 10 ∉ hexText ptr := fun hmem => absurd (hexText_digit hmem) (by decide)
  have hnumber (i : ℤ) : 10 ∉ signedDecimal 0 i := signedDecimal_stop (by decide) (by decide)
  have hfirst : 10 ∉ text "[LEAK] 0x" := by decide
  have hfrom : 10 ∉ text "bytes) from " := by decide
  refine isLine_ends (text "[LEAK] 0x" ++ (hexText ptr ++ 32 :: 40 :: (signedDecimal 0 bytes ++ 32 ::
      (text "bytes) from " ++ ((text site.file ++ 58 :: text site.func) ++ 58 ::
        signedDecimal 0 site.line))))) ?_ ?_
  · simp [hhex, hnumber, hfirst, hfrom, hsite.file, hsite.func.1]
  · simp only [leakLine_eq, List.append_assoc, List.cons_append]

end Lines

section Report

variable {time time' : RlTime} {nodes nodes' : List MemNode}

def leaksOf (nodes : List MemNode) : List ReportLine :=
  nodes.map fun n => .leak n.ptr n.size n.toCallSite

def reportTail (count bytes : BitVec 32) (nodes : List MemNode) : List ReportLine :=
  (if nodes = [] then [.noLeaks] else [.total count bytes]) ++ [.rule]

theorem deinit_report {ans : DeinitAnswers} {s : MemState}
    (h : (rlMemoryTraceDeinit ans s).1 = RL_SUCCESS) : ∃ time count bytes,
      (rlMemoryTraceDeinit ans s).2.1 =
        reportHead time ++ leaksOf s.gMemHeader ++ reportTail count bytes s.gMemHeader := by
  have hs : s.rlMemoryTraceState = true := by
    by_contra hoff
    rw [rlMemoryTraceDeinit, if_pos (by simpa using hoff)] at h
    exact failed_ne_success h
  obtain ⟨time, hans⟩ : ∃ time, ans.Succeeds time := by
    by_contra hnone
    rw [rlMemoryTraceDeinit_fails (not_exists.mp hnone)] at h
    exact failed_ne_success h
  refine ⟨time, (s.drained time).leakCount, (s.drained time).leakBytes, ?_⟩
  rw [rlMemoryTraceDeinit_succeeds hs hans, MemState.drained, Drain.nodes_report, reportTail,
    ← List.append_assoc]
  rfl

theorem printed_isLine {line : ReportLine}
    (hplain : ∀ ptr size site, line = .leak ptr size site → site.Plain) : IsLine 10 line.printed := by
  have hnumber (width : ℕ) (i : ℤ) : 10 ∉ signedDecimal width i :=
    signedDecimal_stop (by decide) (by decide)
  cases line with
  | title => exact isLine_ends (text "==== Memory Leak Report ====") (by decide) rfl
  | date year mon mday hour min sec =>
    refine isLine_ends (signedDecimal 4 year ++ text "-" ++ signedDecimal 2 mon ++ text "-" ++
      signedDecimal 2 mday ++ text " " ++ signedDecimal 2 hour ++ text ":" ++ signedDecimal 2 min ++
      text ":" ++ signedDecimal 2 sec) ?_ rfl
    have htext : ∀ sep ∈ ["-", " ", ":"], 10 ∉ text sep := by decide
    simp only [List.mem_append, hnumber, htext "-" (by decide), htext " " (by decide),
      htext ":" (by decide), or_self, not_false_iff]
  | noLeaks => exact isLine_ends (text "No leaks detected") (by decide) rfl
  | leak ptr size site => exact leakLine_isLine (hplain ptr size site rfl) ptr size.toInt
  | total leakCount leakBytes =>
    refine isLine_ends (text "Total leaks: " ++ signedDecimal 0 leakCount.toInt ++ text " blocks, " ++
      signedDecimal 0 leakBytes.toInt ++ text " bytes") ?_ ?_
    · have htext : ∀ sep ∈ ["Total leaks: ", " blocks, ", " bytes"], 10 ∉ text sep := by decide
      simp only [List.mem_append, hnumber, htext "Total leaks: " (by decide),
        htext " blocks, " (by decide), htext " bytes" (by decide), or_self, not_false_iff]
    · simp only [ReportLine.printed, List.append_assoc]
      rfl
  | rule => exact isLine_ends (text "============================") (by decide) rfl

theorem lines_printed (hnodes : ∀ n ∈ nodes, n.Plain) (time : RlTime) (count bytes : BitVec 32) :
    ∀ l ∈ (reportHead time ++ leaksOf nodes ++ reportTail count bytes nodes).map ReportLine.printed,
      IsLine 10 l := by
  intro l hl
  obtain ⟨line, hline, rfl⟩ := List.mem_map.mp hl
  refine printed_isLine fun ptr size site he => ?_
  subst he
  rcases List.mem_append.mp hline with hline | htail
  · rcases List.mem_append.mp hline with hhead | hleak
    · simp [reportHead] at hhead
    · obtain ⟨n, hn, he⟩ := List.mem_map.mp hleak
      obtain ⟨rfl, rfl, rfl⟩ := ReportLine.leak.inj he
      exact hnodes n hn
  · rw [reportTail] at htail
    split_ifs at htail <;> simp at htail

theorem told_of_printed (hnodes : ∀ n ∈ nodes, n.Plain) (hnodes' : ∀ n ∈ nodes', n.Plain)
    (h : (leaksOf nodes).map ReportLine.printed = (leaksOf nodes').map ReportLine.printed) :
    nodes.map MemNode.told = nodes'.map MemNode.told := by
  induction nodes generalizing nodes' with
  | nil =>
    cases nodes' with
    | nil => rfl
    | cons n nodes' => simp [leaksOf] at h
  | cons n nodes ih =>
    cases nodes' with
    | nil => simp [leaksOf] at h
    | cons n' nodes' =>
      simp only [leaksOf, List.map_cons, List.cons.injEq, ReportLine.printed] at h
      obtain ⟨hline, hrest⟩ := h
      obtain ⟨hptr, hsize, hfile, hfunc, hsite⟩ := leakLine_injective (hnodes n List.mem_cons_self)
        (hnodes' n' List.mem_cons_self) hline
      have htold : n.told = n'.told := by
        simp only [MemNode.told, hptr, BitVec.toInt_inj.mp hsize, hfile, hfunc, hsite]
      rw [List.map_cons, List.map_cons, htold, ih (fun m hm => hnodes m (List.mem_cons_of_mem n hm))
        (fun m hm => hnodes' m (List.mem_cons_of_mem n' hm)) hrest]

theorem reportTail_length (count bytes : BitVec 32) (nodes : List MemNode) :
    (reportTail count bytes nodes).length = 2 := by
  rw [reportTail]
  split_ifs <;> rfl

theorem report_tells_leaks {ans ans' : DeinitAnswers} {s s' : MemState}
    (h : (rlMemoryTraceDeinit ans s).1 = RL_SUCCESS) (h' : (rlMemoryTraceDeinit ans' s').1 = RL_SUCCESS)
    (hplain : ∀ n ∈ s.gMemHeader, n.Plain) (hplain' : ∀ n ∈ s'.gMemHeader, n.Plain)
    (htext : reportText (rlMemoryTraceDeinit ans s).2.1 = reportText (rlMemoryTraceDeinit ans' s').2.1) :
    s.gMemHeader.map MemNode.told = s'.gMemHeader.map MemNode.told := by
  obtain ⟨time, count, bytes, hreport⟩ := deinit_report h
  obtain ⟨time', count', bytes', hreport'⟩ := deinit_report h'
  rw [hreport, hreport'] at htext
  have hlines := lines_injective (lines_printed hplain time count bytes)
    (lines_printed hplain' time' count' bytes') htext
  have hlength := congrArg List.length hlines
  simp only [List.map_append, List.length_append, List.length_map, reportTail_length, reportHead,
    List.length_cons, List.length_nil, Nat.add_right_cancel_iff, Nat.add_left_cancel_iff] at hlength
  rw [List.append_assoc, List.append_assoc, List.map_append, List.map_append, List.map_append,
    List.map_append] at hlines
  obtain ⟨_, hbehind⟩ := List.append_inj hlines (by simp [reportHead])
  obtain ⟨hleaks, _⟩ := List.append_inj hbehind (by simpa using hlength)
  exact told_of_printed hplain hplain' hleaks

def movedLeak (size : BitVec 32) : MemState :=
  (library.exec (World.start fun _ => none)
    [.init true true, .malloc size ⟨"a.c", "f", 1⟩ (some 100) (some 300)]).mem

theorem single_plain {addr : Addr} {size : BitVec 32} :
    ∀ n ∈ [(⟨⟨"a.c", "f", 1⟩, addr, 100, size⟩ : MemNode)], n.Plain := by
  intro n hn
  obtain rfl := List.mem_singleton.mp hn
  exact ⟨show 10 ∉ text "a.c" by decide, show 10 ∉ text "f" ∧ 58 ∉ text "f" by decide⟩

theorem report_tells_leaks_moved :
    (leakOf 8#32).gMemHeader.map MemNode.told = (movedLeak 8#32).gMemHeader.map MemNode.told := by
  have hon : (rlMemoryTraceDeinit written (leakOf 8#32)).1 = RL_SUCCESS := rfl
  have hon' : (rlMemoryTraceDeinit written (movedLeak 8#32)).1 = RL_SUCCESS := rfl
  exact report_tells_leaks hon hon' single_plain single_plain rfl

end Report

end RlLibrary.Memory
