import Mathlib.Data.Nat.Digits.Defs
import RlLibrary.Eth.Probes

namespace RlLibrary.Eth

open Foundation Traced

def pointerAt (k : ℕ) (memory : ℕ → Byte) (a : ℕ) : ℕ :=
  Nat.ofDigits 256 ((readBytes memory a k).map UInt8.toNat)

/-- `h_addr_list` points to an array of pointers to the addresses, ended by a null pointer. -/
structure Resolves (k : ℕ) (memory : ℕ → Byte) (host : Hostent) (addrs : List (List Byte)) :
    Prop where
  length : host.hLength = 4
  nonempty : addrs ≠ []
  entries : ∀ i (h : i < addrs.length), pointerAt k memory (host.hAddrList + k * i) ≠ 0 ∧
    readBytes memory (pointerAt k memory (host.hAddrList + k * i)) 4 = addrs[i]
  last : pointerAt k memory (host.hAddrList + k * addrs.length) = 0

def TcpEnv.Resolved (env : TcpEnv) (memory : ℕ → Byte) (host : Hostent) : Prop :=
  env.memory = memory ∧ env.gethostbyname SYS_ETH_CONNETC_TCP_NAME = some host

def TcpSelEnv.Resolved (env : TcpSelEnv) (memory : ℕ → Byte) (host : Hostent) : Prop :=
  env.memory = memory ∧ env.gethostbyname SYS_ETH_CONNETC_TCP_NAME = some host

structure Targets (addrs : List (List Byte)) (r : TcpResult) : Prop where
  passed : ∀ server, r.passed = some server → server.sinAddr ∈ addrs
  established : r.code = RL_SUCCESS →
    ∃ server, r.established = some server ∧ server.sinAddr ∈ addrs

def ProbesResolved (memory : ℕ → Byte) (host : Hostent) (addrs : List (List Byte)) : Prop :=
  ∀ trySec trySec' env env', TcpEnv.Resolved env memory host → TcpSelEnv.Resolved env' memory host →
    TcpSelEnv.SetFits env' → Targets addrs (rlGetEthernetConnectTcp trySec env).value ∧
      Targets addrs (rlGetEthernetConnectTcpSel trySec' env').value ∧
      ∀ server server', (rlGetEthernetConnectTcp trySec env).value.passed = some server →
        (rlGetEthernetConnectTcpSel trySec' env').value.passed = some server' → server = server'

structure ConnectsOnly (server : SockAddrIn) (r : TcpResult) : Prop where
  passed : ∀ s, r.passed = some s → s = server
  established : r.code = RL_SUCCESS → r.established = some server

section Probes

variable {memory : ℕ → Byte} {host : Hostent} {addrs : List (List Byte)} {server : SockAddrIn}

theorem connectsOnly_failed {passed : Option SockAddrIn}
    (h : ∀ s, passed = some s → s = server) (established : Option SockAddrIn) :
    ConnectsOnly server ⟨RL_FAILED, passed, established⟩ where
  passed := h
  established hcode := by
    have hfailed : RL_FAILED = RL_SUCCESS := hcode
    exact absurd hfailed (by decide)

theorem connectsOnly_early : ConnectsOnly server ⟨RL_FAILED, none, none⟩ := by
  apply connectsOnly_failed
  rintro s ⟨⟩

theorem connectsOnly_late (established : Option SockAddrIn) :
    ConnectsOnly server ⟨RL_FAILED, some server, established⟩ :=
  connectsOnly_failed (fun _ hs => (Option.some.inj hs).symm) established

theorem connectsOnly_success : ConnectsOnly server ⟨RL_SUCCESS, some server, some server⟩ :=
  ⟨fun _ hs => (Option.some.inj hs).symm, fun _ => rfl⟩

theorem connectsOnly_ite {c : Prop} [Decidable c] {x y : Traced Handle TcpResult}
    (hx : ConnectsOnly server x.value) (hy : ConnectsOnly server y.value) :
    ConnectsOnly server (if c then x else y).value := by
  split_ifs
  · exact hx
  · exact hy

theorem connectTcp_only (trySec : BitVec 32) {env : TcpEnv} (h : env.Resolved memory host) :
    ConnectsOnly (serverOf memory host) (rlGetEthernetConnectTcp trySec env).value := by
  obtain ⟨rfl, hhost⟩ := h
  rw [rlGetEthernetConnectTcp]
  cases env.socket with
  | none => exact connectsOnly_early
  | some sockfd =>
    simp only [bind_value, hhost]
    apply connectsOnly_ite connectsOnly_early
    exact connectsOnly_ite connectsOnly_success (connectsOnly_late none)

theorem connectTcpSel_only (trySec : BitVec 32) {env : TcpSelEnv}
    (h : env.Resolved memory host) (hfits : env.SetFits) :
    ConnectsOnly (serverOf memory host) (rlGetEthernetConnectTcpSel trySec env).value := by
  obtain ⟨rfl, hhost⟩ := h
  rw [rlGetEthernetConnectTcpSel]
  cases hsocket : env.socket with
  | none => exact connectsOnly_early
  | some sockfd =>
    simp only [bind_value, hhost]
    by_cases hnonblock : (setNonblock sockfd env).value = false
    · rw [if_pos hnonblock]
      exact connectsOnly_early
    rw [if_neg hnonblock]
    by_cases hfailed : env.connect (serverOf env.memory host) = .failed
    · simp only [bind_value, hfailed, ↓reduceIte]
      exact connectsOnly_late none
    have hset : sockfd < FD_SETSIZE :=
      hfits sockfd host hsocket (eq_true_of_ne_false hnonblock) hhost hfailed
    simp only [bind_value, hfailed, Nat.not_le_of_lt hset, ↓reduceIte]
    apply connectsOnly_ite _ (connectsOnly_late _)
    exact connectsOnly_ite connectsOnly_success (connectsOnly_late _)

theorem connectTcpSel_overruns (trySec : BitVec 32) {env : TcpSelEnv} (h : ¬ env.SetFits) :
    (rlGetEthernetConnectTcpSel trySec env).value = env.overrun.value := by
  simp only [TcpSelEnv.SetFits, not_forall, Nat.not_lt] at h
  obtain ⟨sockfd, host, hsocket, hnonblock, hhost, hconnect, hset⟩ := h
  simp only [rlGetEthernetConnectTcpSel, hsocket, bind_value, hnonblock, hhost, hconnect, hset,
    Bool.true_eq_false, ↓reduceIte]

theorem targets_of_only (h : server.sinAddr ∈ addrs) {r : TcpResult} (hr : ConnectsOnly server r) :
    Targets addrs r where
  passed s hs := by rwa [hr.passed s hs]
  established hcode := ⟨server, hr.established hcode, h⟩

theorem sinAddr_serverOf (h : host.hLength = 4) :
    (serverOf memory host).sinAddr = readBytes memory host.hAddrList 4 := by
  rw [serverOf, h]
  apply List.take_left'
  rw [readBytes, List.length_map, List.length_range']

def reachable (memory : ℕ → Byte) (host : Hostent) : TcpEnv :=
  ⟨some 3, fun _ => true, fun _ => some host, memory, fun _ => true⟩

def reachableSel (memory : ℕ → Byte) (host : Hostent) : TcpSelEnv :=
  ⟨some 3, some 2, fun _ => true, fun _ => some host, memory, fun _ => .inProgress, fun _ => 1, some 0,
    pure ⟨RL_FAILED, none, none⟩⟩

theorem reachableSel_fits (memory : ℕ → Byte) (host : Hostent) :
    (reachableSel memory host).SetFits := by
  rintro sockfd _ ⟨rfl⟩ _ _ _
  decide

/-- The probes connect to resolved addresses if and only if the first four bytes of the array of
pointers happen to be one; for a socket outside `fdset` nothing is certain. -/
theorem probes_resolved_iff (k : ℕ) (memory : ℕ → Byte) (host : Hostent)
    (addrs : List (List Byte)) (h : Resolves k memory host addrs) :
    (ProbesResolved memory host addrs ↔ readBytes memory host.hAddrList 4 ∈ addrs) ∧
      ∀ trySec env, ¬ TcpSelEnv.SetFits env →
        ∃ overrun, ¬ Targets addrs
          (rlGetEthernetConnectTcpSel trySec { env with overrun := overrun }).value := by
  rw [← sinAddr_serverOf h.length]
  refine ⟨⟨fun hprobes => ?_, ?_⟩, fun trySec env hset => ?_⟩
  · obtain ⟨htcp, _⟩ := hprobes 5 5 (reachable memory host) (reachableSel memory host) ⟨rfl, rfl⟩
      ⟨rfl, rfl⟩ (reachableSel_fits memory host)
    exact htcp.passed _ rfl
  · intro hmem trySec trySec' env env' henv henv' hfits
    have htcp := connectTcp_only trySec henv
    have hsel := connectTcpSel_only trySec' henv' hfits
    refine ⟨targets_of_only hmem htcp, targets_of_only hmem hsel, fun server server' hs hs' => ?_⟩
    rw [htcp.passed server hs, hsel.passed server' hs']
  · refine ⟨pure ⟨RL_SUCCESS, none, none⟩, fun htargets => ?_⟩
    have hset' : ¬ TcpSelEnv.SetFits { env with overrun := pure ⟨RL_SUCCESS, none, none⟩ } := hset
    rw [connectTcpSel_overruns trySec hset'] at htargets
    obtain ⟨server, hserver, _⟩ := htargets.established rfl
    cases hserver

end Probes

section Examples

/-- The array of pointers at 16, with one pointer, to the address at 64. -/
def placed (a : ℕ) : Byte :=
  if a = 16 then 64 else if a = 64 then 220 else if a = 65 then 181 else if a = 66 then 111 else
  if a = 67 then 232 else 0

theorem placed_resolves : Resolves 8 placed ⟨4, 16⟩ [[220, 181, 111, 232]] where
  length := rfl
  nonempty := List.cons_ne_nil _ _
  entries i h := by
    obtain rfl : i = 0 := by simpa using h
    have haddr : readBytes placed (pointerAt 8 placed 16) 4 = [220, 181, 111, 232] := by decide
    exact ⟨by decide, haddr⟩
  last := by decide

theorem probes_resolved_iff_placed :
    ProbesResolved placed ⟨4, 16⟩ [[220, 181, 111, 232]] ↔
      readBytes placed 16 4 ∈ [[220, 181, 111, 232]] :=
  (probes_resolved_iff 8 placed ⟨4, 16⟩ [[220, 181, 111, 232]] placed_resolves).1

theorem probe_connects_to_pointer :
    Resolves 8 placed ⟨4, 16⟩ [[220, 181, 111, 232]] ∧
      ¬ ProbesResolved placed ⟨4, 16⟩ [[220, 181, 111, 232]] := by
  refine ⟨placed_resolves, fun h => ?_⟩
  obtain ⟨htcp, _⟩ := h 5 5 (reachable placed ⟨4, 16⟩) (reachableSel placed ⟨4, 16⟩) ⟨rfl, rfl⟩
    ⟨rfl, rfl⟩ (reachableSel_fits placed ⟨4, 16⟩)
  exact absurd (htcp.passed _ rfl) (by decide)

end Examples

end RlLibrary.Eth
