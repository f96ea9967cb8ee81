import Mathlib.Data.List.Find
import RlLibrary.Eth.FileLines
import RlLibrary.Foundation.Hexadecimal

namespace RlLibrary.Eth

open Foundation Traced Str

/-- A route; `more` is what its row goes on with after the mask. -/
structure Route where
  iface : List Byte
  destination : BitVec 32
  gateway : BitVec 32
  flags : BitVec 32
  refCnt : ℤ
  use : ℕ
  metric : ℤ
  mask : BitVec 32
  more : List Byte
  iface_ne : iface ≠ []
  iface_short : iface.length ≤ 15
  iface_word : ∀ b ∈ iface, b ≠ 0 ∧ isSpace b = false
  more_ends : Ends isSpace more
  more_line : ∀ b ∈ more, b ≠ 0 ∧ b ≠ 10

namespace Route

def tail (r : Route) : List Byte :=
  9 :: (signedDecimal 0 r.refCnt ++ 9 :: (decimal r.use ++ 9 :: (signedDecimal 0 r.metric ++
    9 :: (hexadecimal 8 r.mask.toNat ++ r.more))))

def row (r : Route) : List Byte :=
  r.iface ++ 9 :: (hexadecimal 8 r.destination.toNat ++ 9 :: (hexadecimal 8 r.gateway.toNat ++
    9 :: (hexadecimal 4 r.flags.toNat ++ r.tail)))

/-- A route of the card to destination 0, through a gateway (`RTF_GATEWAY` is 2). -/
def ViaGateway (r : Route) : Prop :=
  r.iface = text SYS_USER_ETHERNET_CARD ∧ r.destination = 0 ∧ r.flags &&& 2 ≠ 0

instance (r : Route) : Decidable r.ViaGateway := inferInstanceAs (Decidable (_ ∧ _))

def Default (r : Route) : Prop := r.ViaGateway ∧ r.mask = 0

instance (r : Route) : Decidable r.Default := inferInstanceAs (Decidable (_ ∧ _))

end Route

structure RouteTable where
  header : List Byte
  routes : List Route
  header_line : 10 ∉ header
  header_short : header.length < 255
  rows_short : ∀ r ∈ routes, r.row.length < 255

def rowsText (routes : List Route) : List Byte := (routes.map fun r => r.row ++ [10]).flatten

def RouteTable.text (t : RouteTable) : List Byte := t.header ++ 10 :: rowsText t.routes

def octet (addr : BitVec 32) (i : ℕ) : ℕ := addr.toNat / 2 ^ (8 * i) % 256

def dottedDecimal (addr : BitVec 32) : List Byte :=
  [46].intercalate ((List.range 4).map fun i => decimal (octet addr i))

def GatewayRight (t : RouteTable) (b : Buffer) (len : ℕ) : Prop :=
  ∀ overrun,
  let r := (rlGetGateway (some b) len ⟨⟨true, t.text⟩, overrun⟩).value
  (r.code = RL_SUCCESS ↔ ∃ route ∈ t.routes, route.Default) ∧
    (∀ route, t.routes.find? (fun r => r.Default) = some route →
      ∃ b', r.buf = some b' ∧ b'.Holds (dottedDecimal route.gateway)) ∧
    ((∀ route ∈ t.routes, ¬ route.Default) → r.code = RL_FAILED)

section Rows

variable {r : Route} {routes : List Route}

theorem signedDecimal_printed {width : ℕ} {i : ℤ} {b : Byte} (hb : b ∈ signedDecimal width i) :
    b ≠ 0 ∧ b ≠ 10 := by
  simp only [signedDecimal, List.mem_append] at hb
  rcases hb with (hsign | hzero) | hdigit
  · split_ifs at hsign with hneg
    · rw [List.mem_singleton.mp hsign]
      decide
    · cases hsign
  · rw [List.eq_of_mem_replicate hzero]
    decide
  · exact digit_printed ((decimal_digits hdigit).trans (by decide))

theorem row_printed {b : Byte} (hb : b ∈ r.row) : b ≠ 0 ∧ b ≠ 10 := by
  have htab : (9 : Byte) ≠ 0 ∧ (9 : Byte) ≠ 10 := by decide
  simp only [Route.row, Route.tail, List.mem_append, List.mem_cons] at hb
  rcases hb with hiface | rfl | hdest | rfl | hgw | rfl | hflags | rfl | href | rfl | huse | rfl |
    hmetric | rfl | hmask | hmore
  · refine ⟨(r.iface_word b hiface).1, ?_⟩
    rintro rfl
    exact absurd (r.iface_word 10 hiface).2 (by decide)
  · exact htab
  · exact digit_printed (hexadecimal_digits hdest)
  · exact htab
  · exact digit_printed (hexadecimal_digits hgw)
  · exact htab
  · exact digit_printed (hexadecimal_digits hflags)
  · exact htab
  · exact signedDecimal_printed href
  · exact htab
  · exact digit_printed ((decimal_digits huse).trans (by decide))
  · exact htab
  · exact signedDecimal_printed hmetric
  · exact htab
  · exact digit_printed (hexadecimal_digits hmask)
  · exact r.more_line b hmore

theorem fileLines_rows (hshort : ∀ r ∈ routes, r.row.length < 255) :
    fileLines 256 (rowsText routes) = routes.map fun r => r.row ++ [10] := by
  induction routes with
  | nil => rfl
  | cons r routes ih =>
    have hline : 10 ∉ r.row := fun h => (row_printed h).2 rfl
    have hfits : r.row.length + 1 < 256 := Nat.succ_lt_succ (hshort r List.mem_cons_self)
    have hrest := ih fun r hr => hshort r (List.mem_cons_of_mem _ hr)
    have hrows : rowsText (r :: routes) = r.row ++ 10 :: rowsText routes := by simp [rowsText]
    rw [hrows, fileLines_line hline hfits, hrest, List.map_cons]

theorem ends_tab (rest : List Byte) : Ends isSpace (9 :: rest) := by
  rintro b ⟨rfl⟩
  decide

theorem sscanf_row (r : Route) : sscanf routeFormat (r.row ++ [10]) =
    [.word r.iface, .number (.ofNat 64 r.destination.toNat), .number (.ofNat 64 r.gateway.toNat),
      .number (.ofNat 64 r.flags.toNat)] := by
  have hlt (v : BitVec 32) : v.toNat < 2 ^ 64 := v.isLt.trans (by decide)
  have hfield (rest : List Byte) : Field none r.iface (9 :: rest) (r.iface ++ 9 :: rest) :=
    ⟨[], rfl, nofun, r.iface_ne, fun b hb => (r.iface_word b hb).2, nofun, Or.inr (ends_tab rest)⟩
  simp only [routeFormat, Route.row, Route.tail, List.append_assoc, List.cons_append]
  rw [sscanf_word_iff.mpr ⟨_, hfield _, sscanf_hexadecimal _ (hlt _) (ends_tab _)⟩,
    sscanf_hexadecimal _ (hlt _) (ends_tab _), sscanf_hexadecimal _ (hlt _) (ends_tab _)]
  rfl

theorem wide_eq_zero (v : BitVec 32) : BitVec.ofNat 64 v.toNat = 0 ↔ v = 0 := by
  rw [BitVec.ofNat_toNat, ← BitVec.toNat_inj, ← BitVec.toNat_inj, BitVec.toNat_setWidth]
  have hlt := v.isLt
  have hwide : v.toNat % 2 ^ 64 = v.toNat := Nat.mod_eq_of_lt (by omega)
  rw [hwide]
  rfl

theorem wide_flag (v : BitVec 32) : BitVec.ofNat 64 v.toNat &&& 2 = 0 ↔ v &&& 2 = 0 := by
  have hwide : BitVec.ofNat 64 v.toNat &&& 2 = BitVec.ofNat 64 (v &&& 2).toNat := by
    rw [BitVec.ofNat_toNat, BitVec.ofNat_toNat, BitVec.setWidth_and]
    rfl
  rw [hwide, wide_eq_zero]

theorem row_zero (r : Route) : 0 ∉ r.row ++ [10] := by
  rw [List.mem_append, not_or]
  exact ⟨fun h => (row_printed h).1 rfl, by decide⟩

theorem ifaceOverruns_row (r : Route) : ifaceOverruns (r.row ++ [10]) = false := by
  rw [ifaceOverruns, CString.ofBuffer_of_notMem (row_zero r), sscanf_row]
  exact decide_eq_false (Nat.not_lt.mpr (Nat.succ_le_succ r.iface_short))

theorem gatewayLine_row (r : Route) :
    gatewayLine (r.row ++ [10]) =
      if r.ViaGateway then some (.ofNat 64 r.gateway.toNat) else none := by
  have hname := rlStrcmp_text (fun h => (r.iface_word 0 h).1 rfl)
    (show 0 ∉ text SYS_USER_ETHERNET_CARD by decide) (by decide)
  simp only [gatewayLine, CString.ofBuffer_of_notMem (row_zero r), sscanf_row, wide_eq_zero, ne_eq, wide_flag,
    hname, Route.ViaGateway]
  by_cases hroute : r.destination = 0 ∧ ¬ r.flags &&& 2 = 0
  · by_cases hcard : r.iface = text SYS_USER_ETHERNET_CARD
    · simp only [hroute, hcard, not_false_eq_true, and_self, not_true_eq_false, ↓reduceIte]
    · simp only [hroute, hcard, not_false_eq_true, and_self, and_true, ↓reduceIte]
  · simp only [hroute, and_false, ↓reduceIte]

end Rows

section Addresses

variable {a b : BitVec 32} {len : ℕ}

theorem octet_lt (addr : BitVec 32) (i : ℕ) : octet addr i < 256 := Nat.mod_lt _ (by decide)

theorem extractLsb'_octet (addr : BitVec 32) (i : ℕ) :
    (addr.extractLsb' (8 * i) 8).toNat = octet addr i := by
  rw [BitVec.extractLsb'_toNat, Nat.shiftRight_eq_div_pow]
  rfl

theorem dottedDecimal_eq (addr : BitVec 32) : dottedDecimal addr =
    decimal (octet addr 0) ++ [46] ++ decimal (octet addr 1) ++ [46] ++ decimal (octet addr 2) ++
      [46] ++ decimal (octet addr 3) := by
  have hrange : List.range 4 = [0, 1, 2, 3] := rfl
  simp only [dottedDecimal, hrange, List.map_cons, List.map_nil, List.intercalate_cons_cons,
    List.intercalate_singleton, List.append_assoc]

theorem inetNtop_dotted (h : 16 ≤ len) (addr : BitVec 32) :
    inetNtop addr len = some (dottedDecimal addr) := by
  have hpart (i : ℕ) : (decimal (octet addr i)).length ≤ 3 :=
    decimal_length_le (by decide) ((octet_lt addr i).trans (by decide))
  have hdot : text "." = [46] := rfl
  have h0 := hpart 0
  have h1 := hpart 1
  have h2 := hpart 2
  have h3 := hpart 3
  have hfits : ¬ (dottedDecimal addr).length + 1 > len := by
    simp only [dottedDecimal_eq, List.length_append, List.length_singleton]
    omega
  rw [inetNtop]
  simp only [extractLsb'_octet, hdot, ← dottedDecimal_eq, hfits, ↓reduceIte]

theorem dottedDecimal_injective (h : dottedDecimal a = dottedDecimal b) : a = b := by
  have hsplit (addr : BitVec 32) : (dottedDecimal addr).splitOn 46 =
      (List.range 4).map fun i => decimal (octet addr i) := by
    refine List.splitOn_intercalate 46 (fun part hpart hdot => ?_) (List.cons_ne_nil _ _)
    obtain ⟨i, _, rfl⟩ := List.mem_map.mp hpart
    exact absurd (decimal_digits hdot) (by decide)
  have hparts := congrArg (List.splitOn 46) h
  rw [hsplit, hsplit, List.map_inj_left] at hparts
  have hoctet (i : ℕ) (hi : i < 4) : octet a i = octet b i := by
    have hsame := congrArg (value 10) (hparts i (List.mem_range.mpr hi))
    rwa [value_decimal, value_decimal] at hsame
  have h0 := hoctet 0 (by decide)
  have h1 := hoctet 1 (by decide)
  have h2 := hoctet 2 (by decide)
  have h3 := hoctet 3 (by decide)
  have ha := a.isLt
  have hb := b.isLt
  simp only [octet] at h0 h1 h2 h3
  apply BitVec.eq_of_toNat_eq
  omega

theorem dottedDecimal_nonzero (addr : BitVec 32) : 0 ∉ dottedDecimal addr := by
  have hpart (i : ℕ) : 0 ∉ decimal (octet addr i) := fun h =>
    absurd (decimal_digits h) (by decide)
  simp [dottedDecimal_eq, hpart]

end Addresses

section Lookups

variable {t : RouteTable} {b : Buffer} {len : ℕ}

theorem gatewayLoop_rows (hlen : 16 ≤ len) (b : Buffer) (overrun : Traced Handle Lookup)
    (routes : List Route) :
    (gatewayLoop b len overrun (routes.map fun r => r.row ++ [10])).value =
      (routes.find? fun r => r.ViaGateway).elim ⟨RL_FAILED, some b⟩ fun r =>
        ⟨RL_SUCCESS, some (b.strcpy (dottedDecimal r.gateway))⟩ := by
  induction routes with
  | nil => rfl
  | cons r routes ih =>
    have hrow := gatewayLine_row r
    by_cases hvia : r.ViaGateway
    · have haddr : (BitVec.ofNat 64 r.gateway.toNat).setWidth 32 = r.gateway := by
        rw [BitVec.ofNat_toNat, BitVec.setWidth_setWidth_of_le _ (by decide), BitVec.setWidth_eq]
      have hfind : (r :: routes).find? (fun r => r.ViaGateway) = some r :=
        List.find?_cons_of_pos (decide_eq_true hvia)
      rw [if_pos hvia] at hrow
      rw [hfind]
      simp only [List.map_cons, gatewayLoop, ifaceOverruns_row, hrow, bind_value, haddr,
        inetNtop_dotted hlen, Bool.false_eq_true, ↓reduceIte]
      rfl
    · rw [if_neg hvia] at hrow
      rw [List.find?_cons_of_neg (by simpa using hvia), ← ih]
      simp only [List.map_cons, gatewayLoop, ifaceOverruns_row, hrow, bind_value,
        Bool.false_eq_true, ↓reduceIte]

theorem rlGetGateway_table (hlen : 16 ≤ len) (t : RouteTable) (b : Buffer)
    (overrun : Traced Handle Lookup) :
    (rlGetGateway (some b) len ⟨⟨true, t.text⟩, overrun⟩).value =
      (t.routes.find? fun r => r.ViaGateway).elim ⟨RL_FAILED, some b⟩ fun r =>
        ⟨RL_SUCCESS, some (b.strcpy (dottedDecimal r.gateway))⟩ := by
  have hpositive : ¬ len = 0 := by omega
  have hheader : t.header.length + 1 < 256 := Nat.succ_lt_succ t.header_short
  have hlines : (fileLines 256 t.text).tail = t.routes.map fun r => r.row ++ [10] := by
    rw [RouteTable.text, fileLines_line t.header_line hheader, List.tail_cons,
      fileLines_rows t.rows_short]
  rw [← gatewayLoop_rows hlen b overrun]
  simp only [rlGetGateway, hpositive, Bool.true_eq_false, ↓reduceIte, bind_value, hlines]

theorem default_found {routes : List Route} :
    (∃ route ∈ routes, route.Default) ↔ ∃ route, routes.find? (fun r => r.Default) = some route := by
  rw [← Option.isSome_iff_exists, List.find?_isSome]
  simp only [decide_eq_true_eq]

/-- The answer is right if and only if the first route of the card to destination 0 through a gateway,
whatever its mask, has the gateway of the first default route. -/
theorem gateway_right_iff (t : RouteTable) (b : Buffer) (len : ℕ) (hlen : 16 ≤ len) :
    GatewayRight t b len ↔ ∀ route, t.routes.find? (fun r => r.ViaGateway) = some route →
      (t.routes.find? fun r => r.Default).map Route.gateway = some route.gateway := by
  have hsome : Nonempty (Traced Handle Lookup) := ⟨pure ⟨RL_FAILED, none⟩⟩
  simp only [GatewayRight, rlGetGateway_table hlen, default_found, forall_const]
  cases hvia : t.routes.find? fun r => r.ViaGateway with
  | none =>
    have hnone : ∀ route ∈ t.routes, ¬ route.ViaGateway := by simpa using hvia
    have hdefault : ¬ ∃ route, t.routes.find? (fun r => r.Default) = some route := by
      rw [← default_found]
      rintro ⟨route, hroute, hdefault⟩
      exact hnone route hroute hdefault.1
    refine iff_of_true ⟨iff_of_false failed_ne_success hdefault, fun route hroute => ?_, fun _ => rfl⟩ nofun
    exact absurd ⟨route, hroute⟩ hdefault
  | some route =>
    have hheld := b.strcpy_holds (dottedDecimal_nonzero route.gateway)
    constructor
    · rintro ⟨hsuccess, hgateway, _⟩ _ ⟨rfl⟩
      obtain ⟨first, hfirst⟩ := hsuccess.mp rfl
      obtain ⟨b', hb', hheld'⟩ := hgateway first hfirst
      rw [← Option.some.inj hb'] at hheld'
      rw [hfirst, Option.map_some, dottedDecimal_injective (hheld'.string.symm.trans hheld.string)]
    · intro hsame
      obtain ⟨first, hfirst, hgateway⟩ := Option.map_eq_some_iff.mp (hsame route rfl)
      refine ⟨iff_of_true rfl ⟨first, hfirst⟩, fun route' hroute' => ?_, fun hnone => ?_⟩
      · rw [hfirst] at hroute'
        rw [← Option.some.inj hroute', hgateway]
        exact ⟨_, rfl, hheld⟩
      · obtain ⟨route', hroute', hdefault⟩ := default_found.mpr ⟨first, hfirst⟩
        exact absurd hdefault (hnone route' hroute')

theorem gateway_right_of_masks (t : RouteTable) (b : Buffer) (hlen : 16 ≤ len)
    (hmask : ∀ route ∈ t.routes, route.ViaGateway → route.mask = 0) : GatewayRight t b len := by
  have hsame : t.routes.find? (fun r => r.Default) = t.routes.find? fun r => r.ViaGateway :=
    List.find?_congr fun r hr => decide_eq_decide.mpr ⟨And.left, fun h => ⟨h, hmask r hr h⟩⟩
  apply (gateway_right_iff t b len hlen).mpr
  intro route hroute
  rw [hsame, hroute, Option.map_some]

def cardRoute (gateway mask : BitVec 32) : Route where
  iface := text SYS_USER_ETHERNET_CARD
  destination := 0
  gateway := gateway
  flags := 3
  refCnt := 0
  use := 0
  metric := 100
  mask := mask
  more := text "\t0\t0\t0"
  iface_ne := by decide
  iface_short := by decide
  iface_word := forall_of_all (by decide)
  more_ends := ends_tab _
  more_line := forall_of_all (by decide)

def halfTable : RouteTable where
  header := text "Iface\tDestination\tGateway \tFlags\tRefCnt\tUse\tMetric\tMask"
  routes := [cardRoute 0x0100080A 0x80, cardRoute 0x0101A8C0 0]
  header_line := by decide
  header_short := by decide
  rows_short := by decide

theorem gateway_right_iff_half :
    GatewayRight halfTable ⟨List.replicate 16 7, []⟩ 16 ↔
      ∀ route, halfTable.routes.find? (fun r => r.ViaGateway) = some route →
        (halfTable.routes.find? fun r => r.Default).map Route.gateway = some route.gateway :=
  gateway_right_iff halfTable _ 16 (by decide)

theorem half_route_taken :
    ¬ GatewayRight halfTable ⟨List.replicate 16 7, []⟩ 16 ∧
      (rlGetGateway (some ⟨List.replicate 16 7, []⟩) 16
        ⟨⟨true, halfTable.text⟩, pure ⟨RL_FAILED, none⟩⟩).value.buf.map
        (fun b => b.string.bytes) = some (text "10.8.0.1") := by
  refine ⟨?_, ?_⟩
  · rw [gateway_right_iff _ _ _ (by decide)]
    intro h
    exact absurd (h _ rfl) (by decide)
  · rw [rlGetGateway_table (by decide)]
    decide

end Lookups

end RlLibrary.Eth
