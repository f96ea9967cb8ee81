import RlLibrary.Eth.Routes
import RlLibrary.Foundation.Reading

namespace RlLibrary.Eth

open Foundation Str

/-- The scan of `inet_pton`: the octets before the current one, its value so far, whether it has a
digit, and how many octets have begun. -/
def inetPtonLoop : List Byte → List ℕ → ℕ → Bool → ℕ → Option (List ℕ)
  | [], done, current, _, octets => if octets < 4 then none else some (done ++ [current])
  | ch :: src, done, current, sawDigit, octets =>
    if isDigit ch = true then
      let new := current * 10 + digit ch
      if sawDigit = true ∧ current = 0 then none
      else if new > 255 then none
      else if sawDigit = false then
        if octets + 1 > 4 then none else inetPtonLoop src done new true (octets + 1)
      else inetPtonLoop src done new true octets
    else if ch = 46 ∧ sawDigit = true then
      if octets = 4 then none else inetPtonLoop src (done ++ [current]) 0 false octets
    else none

def addressOf (octets : List ℕ) : BitVec 32 :=
  BitVec.ofNat 32 (octets.foldr (fun o rest => o + 256 * rest) 0)

def inetPton (src : List Byte) : Option (BitVec 32) := (inetPtonLoop src [] 0 false 0).map addressOf

def rlIsIpv4 (str : Option CString) : Bool :=
  match str with
  | none => false
  | some s => if rlStrIsempty (some s) = true then false else (inetPton s.bytes).isSome

section Scan

variable {ds rest : List Byte} {done : List ℕ} {current octets : ℕ}

theorem loop_more (hds : ∀ b ∈ ds, isDigit b = true) (hcurrent : current ≤ 255) :
    inetPtonLoop (ds ++ rest) done current true octets =
      if ds ≠ [] ∧ current = 0 ∨ ds.foldl (fun v b => 10 * v + digit b) current > 255 then none
      else inetPtonLoop rest done (ds.foldl (fun v b => 10 * v + digit b) current) true octets := by
  induction ds generalizing current with
  | nil => simp [Nat.not_lt.mpr hcurrent]
  | cons b ds ih =>
    have hb := hds b List.mem_cons_self
    have hge := le_foldl_value ds (10 * current + digit b)
    have hnew : current * 10 + digit b = 10 * current + digit b := by omega
    rw [List.cons_append, inetPtonLoop, if_pos hb, List.foldl_cons]
    simp only [hnew, Bool.true_eq_false, ↓reduceIte, true_and]
    by_cases hzero : current = 0
    · rw [if_pos hzero, if_pos (Or.inl ⟨List.cons_ne_nil b ds, hzero⟩)]
    rw [if_neg hzero]
    by_cases hlarge : 10 * current + digit b > 255
    · rw [if_pos hlarge, if_pos (Or.inr (by omega))]
    rw [if_neg hlarge, ih (fun d hd => hds d (List.mem_cons_of_mem b hd)) (by omega)]
    have hpos : 10 * current + digit b ≠ 0 := by omega
    simp only [hpos, hzero, and_false, false_or]

theorem loop_octet (hds : ∀ b ∈ ds, isDigit b = true) (hne : ds ≠ []) (hfew : octets < 4) :
    inetPtonLoop (ds ++ rest) done 0 false octets =
      if decimal (value 10 ds) ≠ ds ∨ value 10 ds > 255 then none
      else inetPtonLoop rest done (value 10 ds) true (octets + 1) := by
  obtain ⟨b, more, rfl⟩ := List.exists_cons_of_ne_nil hne
  have hb := hds b List.mem_cons_self
  have hmore : ∀ d ∈ more, isDigit d = true := fun d hd => hds d (List.mem_cons_of_mem b hd)
  have hdigit := isDigit_iff.mp hb
  have hnew : 0 * 10 + digit b = digit b := by omega
  have hsmall : ¬ digit b > 255 := by omega
  have hroom : ¬ octets + 1 > 4 := by omega
  have hvalue : value 10 (b :: more) = more.foldl (fun v b => 10 * v + digit b) (digit b) := by
    rw [value, List.foldl_cons, Nat.mul_zero, Nat.zero_add]
  have hzero : (more ≠ [] ∧ digit b = 0) ↔ decimal (value 10 (b :: more)) ≠ b :: more :=
    decimal_value_ne_iff fun d hd => isDigit_iff.mp (hds d hd)
  rw [List.cons_append, inetPtonLoop, if_pos hb]
  simp only [hnew, Bool.false_eq_true, false_and, ↓reduceIte, hsmall, hroom]
  rw [loop_more hmore (by omega), ← hvalue]
  exact if_congr (or_congr_left hzero) rfl rfl

theorem loop_blank (hrest : Ends (fun b => isDigit b = false) rest) (hfew : octets < 4) :
    inetPtonLoop rest done current false octets = none := by
  cases rest with
  | nil => rw [inetPtonLoop, if_pos hfew]
  | cons b rest =>
    have hb : isDigit b = false := of_decide_eq_true (hrest b rfl)
    simp [inetPtonLoop, hb]

theorem loop_behind (hrest : Ends (fun b => isDigit b = false) rest) {result : List ℕ} :
    inetPtonLoop rest done current true octets = some result ↔
      rest = [] ∧ 4 ≤ octets ∧ result = done ++ [current] ∨
        ∃ more, rest = 46 :: more ∧ octets ≠ 4 ∧
          inetPtonLoop more (done ++ [current]) 0 false octets = some result := by
  cases rest with
  | nil =>
    rw [inetPtonLoop]
    by_cases hfew : octets < 4
    · rw [if_pos hfew]
      have hno : ¬ 4 ≤ octets := Nat.not_le_of_lt hfew
      simp [hno]
    · rw [if_neg hfew]
      simp only [Option.some.injEq, Nat.le_of_not_lt hfew, true_and, reduceCtorEq, false_and,
        exists_false, or_false]
      exact eq_comm
  | cons b rest =>
    have hb : isDigit b = false := of_decide_eq_true (hrest b rfl)
    rw [inetPtonLoop, if_neg (by simp [hb])]
    by_cases hdot : b = 46
    · by_cases hfour : octets = 4
      · simp [hdot, hfour]
      · simp [hdot, hfour]
    · simp [hdot]

theorem loop_complete {more : List ℕ} (hne : more ≠ []) (hlength : done.length + more.length = 4)
    (hoctets : ∀ o ∈ more, o < 256) :
    inetPtonLoop ([46].intercalate (more.map decimal)) done 0 false done.length =
      some (done ++ more) := by
  induction more generalizing done with
  | nil => exact absurd rfl hne
  | cons o more ih =>
    have ho := hoctets o List.mem_cons_self
    have hds : ∀ b ∈ decimal o, isDigit b = true := fun b hb => isDigit_iff.mpr (decimal_digits hb)
    rw [List.length_cons] at hlength
    have hoctet (rest : List Byte) : inetPtonLoop (decimal o ++ rest) done 0 false done.length =
        inetPtonLoop rest done o true (done.length + 1) := by
      rw [loop_octet hds (decimal_ne_nil o) (by omega), value_decimal, if_neg]
      rintro (h | h)
      · exact h rfl
      · omega
    cases more with
    | nil =>
      have hlast := hoctet []
      rw [List.append_nil] at hlast
      have hend : Ends (fun b => isDigit b = false) [] := by
        rintro b ⟨⟩
      rw [List.map_singleton, List.intercalate_singleton, hlast, loop_behind hend]
      rw [List.length_nil] at hlength
      exact Or.inl ⟨rfl, by omega, rfl⟩
    | cons o' more =>
      have hnext : (done ++ [o]).length + (o' :: more).length = 4 := by
        rw [List.length_append, List.length_singleton]
        omega
      have hrest := ih (List.cons_ne_nil o' more) hnext
        fun p hp => hoctets p (List.mem_cons_of_mem o hp)
      rw [List.length_append, List.length_singleton, List.append_assoc, List.singleton_append] at hrest
      have hdot : Ends (fun b => isDigit b = false) (46 :: [46].intercalate ((o' :: more).map decimal)) := by
        rintro b ⟨rfl⟩
        decide
      rw [List.length_cons] at hlength
      rw [List.map_cons, List.map_cons, List.intercalate_cons_cons, List.append_assoc,
        List.singleton_append, ← List.map_cons, hoctet, loop_behind hdot]
      exact Or.inr ⟨_, rfl, by omega, hrest⟩

theorem loop_sound {s : List Byte} {result : List ℕ} (hfew : done.length < 4)
    (h : inetPtonLoop s done 0 false done.length = some result) :
    ∃ more, more ≠ [] ∧ result = done ++ more ∧ result.length = 4 ∧ (∀ o ∈ more, o < 256) ∧
      s = [46].intercalate (more.map decimal) := by
  induction hn : s.length using Nat.strong_induction_on generalizing done s with
  | _ n ih =>
    obtain ⟨ds, rest, rfl, hds, hrest⟩ : ∃ ds rest, s = ds ++ rest ∧ (∀ b ∈ ds, isDigit b = true) ∧
        Ends (fun b => isDigit b = false) rest := by
      refine ⟨s.takeWhile isDigit, s.dropWhile isDigit, List.takeWhile_append_dropWhile.symm,
        fun b hb => List.mem_takeWhile_imp hb, fun b hb => ?_⟩
      have hstop := List.head?_dropWhile_not isDigit s
      rw [hb] at hstop
      simpa using hstop
    by_cases hne : ds = []
    · rw [hne, List.nil_append, loop_blank hrest hfew] at h
      cases h
    rw [loop_octet hds hne hfew] at h
    by_cases hbad : decimal (value 10 ds) ≠ ds ∨ value 10 ds > 255
    · rw [if_pos hbad] at h
      cases h
    rw [if_neg hbad, loop_behind hrest] at h
    obtain ⟨hsame, hsmall⟩ := not_or.mp hbad
    have hds' : decimal (value 10 ds) = ds := not_ne_iff.mp hsame
    rcases h with ⟨rfl, hfour, rfl⟩ | ⟨more, rfl, hfour, h⟩
    · refine ⟨[value 10 ds], List.cons_ne_nil _ _, rfl, ?_, ?_, ?_⟩
      · rw [List.length_append, List.length_singleton]
        omega
      · intro o ho
        rw [List.mem_singleton.mp ho]
        omega
      · rw [List.map_singleton, List.intercalate_singleton, hds', List.append_nil]
    · have hlength : (done ++ [value 10 ds]).length = done.length + 1 := by simp
      rw [← hlength] at h
      obtain ⟨others, hothers, rfl, hcount, hoctets, rfl⟩ :=
        ih more.length (by rw [← hn, List.length_append, List.length_cons]; omega)
          (by rw [hlength]; omega) h rfl
      refine ⟨value 10 ds :: others, List.cons_ne_nil _ _, by simp, hcount, ?_, ?_⟩
      · intro o ho
        rcases List.mem_cons.mp ho with rfl | ho
        · omega
        · exact hoctets o ho
      · obtain ⟨o, more, rfl⟩ := List.exists_cons_of_ne_nil hothers
        simp only [List.map_cons, List.intercalate_cons_cons, List.append_assoc,
          List.singleton_append, hds']

end Scan

section Acceptance

variable {s : List Byte} {addr : BitVec 32} {octets : List ℕ}

theorem octets_addressOf (hlength : octets.length = 4) (hoctets : ∀ o ∈ octets, o < 256) :
    (List.range 4).map (octet (addressOf octets)) = octets := by
  obtain ⟨a, b, c, d, rfl⟩ := List.length_eq_four.mp hlength
  have ha := hoctets a (by simp)
  have hb := hoctets b (by simp)
  have hc := hoctets c (by simp)
  have hd := hoctets d (by simp)
  have hnat : (addressOf [a, b, c, d]).toNat = a + 256 * (b + 256 * (c + 256 * d)) := by
    simp only [addressOf, List.foldr_cons, List.foldr_nil, BitVec.toNat_ofNat]
    omega
  have hrange : List.range 4 = [0, 1, 2, 3] := rfl
  simp only [hrange, List.map_cons, List.map_nil, octet, hnat, List.cons.injEq, and_true]
  omega

theorem addressOf_octets (addr : BitVec 32) : addressOf ((List.range 4).map (octet addr)) = addr := by
  have hrange : List.range 4 = [0, 1, 2, 3] := rfl
  have haddr := addr.isLt
  apply BitVec.eq_of_toNat_eq
  simp only [hrange, List.map_cons, List.map_nil, addressOf, List.foldr_cons, List.foldr_nil, octet,
    BitVec.toNat_ofNat]
  omega

theorem inetPton_iff : inetPton s = some addr ↔ s = dottedDecimal addr := by
  have hstart : ([] : List ℕ).length < 4 := by decide
  have hmap (addr : BitVec 32) : dottedDecimal addr =
      [46].intercalate (((List.range 4).map (octet addr)).map decimal) := by
    rw [dottedDecimal, List.map_map]
    rfl
  constructor
  · intro h
    obtain ⟨result, hresult, rfl⟩ := Option.map_eq_some_iff.mp h
    obtain ⟨more, _, rfl, hlength, hoctets, rfl⟩ := loop_sound hstart hresult
    rw [hmap, octets_addressOf hlength hoctets]
  · rintro rfl
    have hoctets : ∀ o ∈ (List.range 4).map (octet addr), o < 256 := by
      intro o ho
      obtain ⟨i, _, rfl⟩ := List.mem_map.mp ho
      exact octet_lt addr i
    have hne : (List.range 4).map (octet addr) ≠ [] := List.cons_ne_nil _ _
    have hlength : ([] : List ℕ).length + ((List.range 4).map (octet addr)).length = 4 := rfl
    have hloop := loop_complete hne hlength hoctets
    rw [List.nil_append, ← hmap] at hloop
    exact Option.map_eq_some_iff.mpr ⟨_, hloop, addressOf_octets addr⟩

theorem dottedDecimal_ne_nil (addr : BitVec 32) : dottedDecimal addr ≠ [] := by
  simp [dottedDecimal_eq]

theorem rl_is_ipv4_iff (s : CString) :
    rlIsIpv4 (some s) = true ↔ ∃ addr, s.bytes = dottedDecimal addr := by
  have hsome : (inetPton s.bytes).isSome = true ↔ ∃ addr, s.bytes = dottedDecimal addr := by
    rw [Option.isSome_iff_exists]
    exact exists_congr fun addr => inetPton_iff
  rw [rlIsIpv4]
  by_cases hempty : rlStrIsempty (some s) = true
  · rw [if_pos hempty]
    refine iff_of_false Bool.false_ne_true ?_
    rintro ⟨addr, haddr⟩
    rw [rlStrIsempty, List.isEmpty_iff, haddr] at hempty
    exact dottedDecimal_ne_nil addr hempty
  · rw [if_neg hempty, hsome]

end Acceptance

structure Answered (b : Buffer) (len : ℕ) (found : Option (BitVec 32)) (r : Lookup) : Prop where
  code : r.code = RL_SUCCESS ∨ r.code = RL_FAILED
  success : r.code = RL_SUCCESS ↔ ∃ addr, found = some addr ∧ (dottedDecimal addr).length < len
  read : r.code = RL_SUCCESS → ∃ b', r.buf = some b' ∧ rlIsIpv4 (some b'.string) = true ∧
    inetPton b'.string.bytes = found
  failed : r.code = RL_FAILED → r.buf = some b ∨ r.buf = some (b.set 0 0)
  below : ∀ b', r.buf = some b' → ∀ i ∈ b'.writes, i ∈ b.writes ∨ i < len

section Lookups

variable {b : Buffer} {len : ℕ} {addr : BitVec 32} {found : Option (BitVec 32)}

theorem inetNtop_eq (addr : BitVec 32) (len : ℕ) :
    inetNtop addr len =
      if (dottedDecimal addr).length < len then some (dottedDecimal addr) else none := by
  have hdot : text "." = [46] := rfl
  rw [inetNtop]
  simp only [extractLsb'_octet, hdot, ← dottedDecimal_eq]
  by_cases hfits : (dottedDecimal addr).length < len
  · rw [if_neg (by omega), if_pos hfits]
  · rw [if_pos (by omega), if_neg hfits]

theorem answered_failed {b' : Buffer} (hb' : b' = b ∨ 0 < len ∧ b' = b.set 0 0)
    (hnone : ¬ ∃ addr, found = some addr ∧ (dottedDecimal addr).length < len) :
    Answered b len found ⟨RL_FAILED, some b'⟩ := by
  refine ⟨.inr rfl, iff_of_false failed_ne_success hnone, fun h => absurd h failed_ne_success,
    fun _ => ?_, ?_⟩
  · exact hb'.imp (congrArg some) fun h => congrArg some h.2
  · rintro _ ⟨rfl⟩ i hi
    rcases hb' with rfl | ⟨hlen, rfl⟩
    · exact .inl hi
    · rw [Buffer.set, Buffer.mem_write_writes, List.length_singleton] at hi
      exact hi.imp_right fun hrange => by omega

theorem answered_success (hfits : (dottedDecimal addr).length < len) :
    Answered b len (some addr) ⟨RL_SUCCESS, some (b.strcpy (dottedDecimal addr))⟩ := by
  have hstring := (b.strcpy_holds (dottedDecimal_nonzero addr)).string
  refine ⟨.inl rfl, iff_of_true rfl ⟨addr, rfl, hfits⟩, fun _ => ⟨_, rfl, ?_, ?_⟩,
    fun h => absurd h failed_ne_success.symm, ?_⟩
  · exact (rl_is_ipv4_iff _).mpr ⟨addr, hstring⟩
  · exact inetPton_iff.mpr hstring
  · rintro _ ⟨rfl⟩ i hi
    rw [Buffer.strcpy, Buffer.mem_write_writes, List.length_append, List.length_singleton] at hi
    exact hi.imp_right fun hrange => by omega

theorem lookUp_answered (request : IfreqRequest) (b : Buffer) (len : ℕ) (env : IfreqEnv) :
    Answered b len (env.socket.bind fun _ => env.ioctl request SYS_USER_ETHERNET_CARD)
      (lookUp request (some b) len env).value := by
  by_cases hlen : len = 0
  · simp only [lookUp, hlen, ↓reduceIte]
    exact answered_failed (.inl rfl) (by simp)
  cases hsocket : env.socket with
  | none =>
    simp only [lookUp, hlen, hsocket, ↓reduceIte]
    exact answered_failed (.inl rfl) (by simp)
  | some sockfd =>
    have hpositive := Nat.pos_of_ne_zero hlen
    rw [Option.bind_some]
    cases hioctl : env.ioctl request SYS_USER_ETHERNET_CARD with
    | none =>
      simp only [lookUp, hlen, hsocket, hioctl, ↓reduceIte, Traced.bind_value]
      exact answered_failed (.inr ⟨hpositive, rfl⟩) (by simp)
    | some addr =>
      by_cases hfits : (dottedDecimal addr).length < len
      · simp only [lookUp, hlen, hsocket, hioctl, inetNtop_eq, hfits, ↓reduceIte, Traced.bind_value]
        exact answered_success hfits
      · simp only [lookUp, hlen, hsocket, hioctl, inetNtop_eq, hfits, ↓reduceIte, Traced.bind_value]
        exact answered_failed (.inr ⟨hpositive, rfl⟩) (by simpa using hfits)

theorem gatewayLoop_answered (b : Buffer) (len : ℕ) (overrun : Traced Handle Lookup)
    {lines : List (List Byte)} (hfit : LinesFit lines) :
    Answered b len ((lines.findSome? gatewayLine).map fun gw => gw.setWidth 32)
      (gatewayLoop b len overrun lines).value := by
  induction lines with
  | nil => exact answered_failed (.inl rfl) (by simp)
  | cons line lines ih =>
    cases hline : gatewayLine line with
    | none =>
      rw [List.findSome?_cons_of_isNone (by simp [hline])]
      simpa only [gatewayLoop, hfit.1, hline, Traced.bind_value, Bool.false_eq_true,
        ↓reduceIte] using ih (hfit.2 hline)
    | some gw =>
      rw [List.findSome?_cons_of_isSome (by simp [hline]), hline, Option.map_some]
      by_cases hfits : (dottedDecimal (gw.setWidth 32)).length < len
      · simp only [gatewayLoop, hfit.1, hline, inetNtop_eq, hfits, Bool.false_eq_true, ↓reduceIte,
          Traced.bind_value]
        exact answered_success hfits
      · simp only [gatewayLoop, hfit.1, hline, inetNtop_eq, hfits, Bool.false_eq_true, ↓reduceIte,
          Traced.bind_value]
        exact answered_failed (.inl rfl) (by simpa using hfits)

theorem addresses_answered (b : Buffer) (len : ℕ) (env : IfreqEnv) (file : RouteEnv)
    (hfits : file.Fits (some b) len) :
    Answered b len (env.socket.bind fun _ => env.ioctl .SIOCGIFADDR SYS_USER_ETHERNET_CARD)
        (rlGetIpAddress (some b) len env).value ∧
      Answered b len (env.socket.bind fun _ => env.ioctl .SIOCGIFNETMASK SYS_USER_ETHERNET_CARD)
        (rlGetSubnetMask (some b) len env).value ∧
      Answered b len (if file.fopen = true then
          ((fileLines 256 file.read).tail.findSome? gatewayLine).map fun gw => gw.setWidth 32
        else none) (rlGetGateway (some b) len file).value := by
  refine ⟨lookUp_answered .SIOCGIFADDR b len env, lookUp_answered .SIOCGIFNETMASK b len env, ?_⟩
  by_cases hlen : len = 0
  · simp only [rlGetGateway, hlen, ↓reduceIte]
    exact answered_failed (.inl rfl) (by simp)
  cases hopen : file.fopen with
  | false =>
    simp only [rlGetGateway, hlen, hopen, ↓reduceIte]
    exact answered_failed (.inl rfl) (by simp)
  | true =>
    simp only [rlGetGateway, hlen, hopen, Bool.true_eq_false, ↓reduceIte, Traced.bind_value]
    exact gatewayLoop_answered b len _ (hfits (Option.some_ne_none b) hlen hopen)

def longestRoute : RouteEnv where
  fopen := true
  read := text "Iface Destination\nabcdefghijklmno 0 0 0\neth0 00000000 0101A8C0 0003 0\n"
  overrun := pure ⟨RL_FAILED, none⟩

theorem addresses_answered_longest : longestRoute.Fits (some ⟨List.replicate 16 7, []⟩) 16 ∧
    (rlGetGateway (some ⟨List.replicate 16 7, []⟩) 16 longestRoute).value.code = RL_SUCCESS := by
  have hfits : longestRoute.Fits (some ⟨List.replicate 16 7, []⟩) 16 := by
    refine fun _ _ _ => ⟨by decide, fun _ => ⟨by decide, fun h => absurd h (by decide)⟩⟩
  have hanswered := (addresses_answered ⟨List.replicate 16 7, []⟩ 16
    ⟨none, fun _ _ => none⟩ longestRoute hfits).2.2
  exact ⟨hfits, hanswered.success.mpr ⟨0x0101A8C0, by decide, by decide⟩⟩

end Lookups

end RlLibrary.Eth
