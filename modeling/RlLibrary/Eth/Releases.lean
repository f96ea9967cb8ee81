import RlLibrary.Eth.Configuration
import RlLibrary.Time.Tracing

namespace RlLibrary.Eth

open Foundation Traced

section Probes

theorem keeps_cardLoop (timeoutMs : BitVec 32) (env : ℕ → CardAttempt) (n : ℕ)
    (slept : List (BitVec 32)) : (cardLoop timeoutMs env n slept).Keeps [] [] := by
  induction n generalizing slept with
  | zero => exact keeps_pure _ _
  | succ n ih =>
    rw [cardLoop]
    cases (env n).socket with
    | none => exact ih _
    | some sockfd =>
      apply Keeps.acquire
      apply Keeps.use_only
      cases (env n).ioctl SYS_USER_ETHERNET_CARD with
      | none => exact (ih _).release_only
      | some flags => exact Keeps.ite (keeps_leave _ _) (ih _).release_only

theorem cardState_releasesAll (timeoutMs retryCount : BitVec 32) (env : ℕ → CardAttempt) :
    (rlGetEthernetCardState timeoutMs retryCount env).ReleasesAll :=
  Keeps.ite (keeps_pure _ _) (keeps_cardLoop _ _ _ _)

theorem connectTcp_releasesAll (trySec : BitVec 32) (env : TcpEnv) :
    (rlGetEthernetConnectTcp trySec env).ReleasesAll := by
  rw [ReleasesAll, rlGetEthernetConnectTcp]
  cases env.socket with
  | none => exact keeps_pure _ _
  | some sockfd =>
    apply Keeps.acquire
    apply Keeps.use_only
    apply Keeps.ite (keeps_leave _ _)
    cases env.gethostbyname SYS_ETH_CONNETC_TCP_NAME with
    | none => exact keeps_leave _ _
    | some host =>
      apply Keeps.use_only
      exact Keeps.ite (keeps_leave _ _) (keeps_leave _ _)

theorem keeps_setNonblock (sockfd : ℕ) (env : TcpSelEnv) :
    (setNonblock sockfd env).Keeps [.socket sockfd] [.socket sockfd] := by
  apply Keeps.use_only
  cases env.getFlags with
  | none => exact keeps_pure _ _
  | some flags => exact (keeps_pure _ _).use_only

theorem connectTcpSel_releasesAll (trySec : BitVec 32) {env : TcpSelEnv} (hfits : env.SetFits) :
    (rlGetEthernetConnectTcpSel trySec env).ReleasesAll := by
  rw [ReleasesAll, rlGetEthernetConnectTcpSel]
  cases hsocket : env.socket with
  | none => exact keeps_pure _ _
  | some sockfd =>
    apply Keeps.acquire
    apply Keeps.bind [.socket sockfd] (keeps_setNonblock sockfd env)
    by_cases hnonblock : (setNonblock sockfd env).value = false
    · rw [if_pos hnonblock]
      exact keeps_leave _ _
    rw [if_neg hnonblock]
    cases hhost : env.gethostbyname SYS_ETH_CONNETC_TCP_NAME with
    | none => exact keeps_leave _ _
    | some host =>
      apply Keeps.use_only
      by_cases hfailed : env.connect (serverOf env.memory host) = .failed
      · simp only [hfailed, ↓reduceIte]
        exact keeps_leave _ _
      have hset : sockfd < FD_SETSIZE :=
        hfits sockfd host hsocket (eq_true_of_ne_false hnonblock) hhost hfailed
      simp only [hfailed, Nat.not_le_of_lt hset, ↓reduceIte]
      apply Keeps.use_only
      apply Keeps.ite _ (keeps_leave _ _)
      apply Keeps.use_only
      exact Keeps.ite (keeps_leave _ _) (keeps_leave _ _)

theorem connectTcpSel_keeps (trySec : BitVec 32) {env : TcpSelEnv} (h : ¬ env.SetFits) :
    ∃ sockfd, ∀ after, env.overrun.Keeps [.socket sockfd] after →
      (rlGetEthernetConnectTcpSel trySec env).Keeps [] after := by
  simp only [TcpSelEnv.SetFits, not_forall, Nat.not_lt] at h
  obtain ⟨sockfd, host, hsocket, hnonblock, hhost, hconnect, hset⟩ := h
  refine ⟨sockfd, fun after hafter => ?_⟩
  rw [rlGetEthernetConnectTcpSel, hsocket]
  apply Keeps.acquire
  apply Keeps.bind [.socket sockfd] (keeps_setNonblock sockfd env)
  simp only [hnonblock, hhost, hconnect, hset, Bool.true_eq_false, ↓reduceIte]
  exact hafter.use_only

theorem connectTcpSel_releases_iff (trySec : BitVec 32) (env : TcpSelEnv) :
    (∀ overrun, (rlGetEthernetConnectTcpSel trySec { env with overrun := overrun }).ReleasesAll) ↔
      env.SetFits := by
  constructor
  · intro h
    by_contra hset
    have hset' : ¬ TcpSelEnv.SetFits { env with overrun := pure ⟨RL_FAILED, none, none⟩ } := hset
    obtain ⟨sockfd, hkeeps⟩ := connectTcpSel_keeps trySec hset'
    exact absurd ((h _).symm.trans (hkeeps _ (keeps_pure _ _))) (by simp)
  · intro hset overrun
    have hset' : TcpSelEnv.SetFits { env with overrun := overrun } := hset
    exact connectTcpSel_releasesAll trySec hset'

theorem connectUdp_releasesAll (trySec : BitVec 32) (env : UdpEnv) :
    (rlGetEthernetConnectUdp trySec env).ReleasesAll := by
  rw [ReleasesAll, rlGetEthernetConnectUdp]
  cases env.socket with
  | none => exact keeps_pure _ _
  | some sockfd =>
    apply Keeps.acquire
    apply Keeps.use_only
    apply Keeps.use_only
    cases env.inetPton SYS_ETH_CONNETC_UDP_IP with
    | none => exact keeps_leave _ _
    | some ip =>
      apply Keeps.use_only
      apply Keeps.ite (keeps_leave _ _)
      apply Keeps.use_only
      exact Keeps.ite (keeps_leave _ _) (keeps_leave _ _)

end Probes

section Configuration

theorem keeps_dhcpLoop (lines : List (List Byte)) : (dhcpLoop lines).Keeps [.file] [] := by
  induction lines with
  | nil =>
    apply Keeps.use_only
    exact keeps_leave _ _
  | cons line lines ih =>
    apply Keeps.use_only
    cases dhcpLine line with
    | none => exact ih
    | some code => exact keeps_leave _ _

theorem dhcp_releasesAll (env : FileEnv) : (rlGetDhcp env).ReleasesAll := by
  apply Keeps.ite (keeps_pure _ _)
  apply Keeps.acquire
  exact keeps_dhcpLoop _

section Gateway

variable {overrun : Traced Handle Lookup} {lines : List (List Byte)}

theorem keeps_gatewayLoop (buf : Buffer) (len : ℕ) (hfit : LinesFit lines) :
    (gatewayLoop buf len overrun lines).Keeps [.file] [] := by
  induction lines with
  | nil =>
    apply Keeps.use_only
    exact keeps_leave _ _
  | cons line lines ih =>
    apply Keeps.use_only
    rw [if_neg (Bool.eq_false_iff.mp hfit.1)]
    cases hline : gatewayLine line with
    | none => exact ih (hfit.2 hline)
    | some gw =>
      dsimp only
      cases inetNtop (gw.setWidth 32) len with
      | none => exact keeps_leave _ _
      | some dotted => exact keeps_leave _ _

theorem gatewayLoop_keeps (buf : Buffer) (len : ℕ) (hfit : ¬ LinesFit lines) {after : List Handle}
    (hafter : overrun.Keeps [.file] after) :
    (gatewayLoop buf len overrun lines).Keeps [.file] after := by
  induction lines with
  | nil => exact absurd trivial hfit
  | cons line lines ih =>
    apply Keeps.use_only
    cases hover : ifaceOverruns line with
    | true => exact hafter
    | false =>
      rw [if_neg Bool.false_ne_true]
      rw [LinesFit, hover, not_and, Classical.not_imp] at hfit
      obtain ⟨hline, hmore⟩ := hfit rfl
      rw [hline]
      exact ih hmore

theorem gateway_releasesAll {buf : Option Buffer} {len : ℕ} {env : RouteEnv}
    (hfits : env.Fits buf len) : (rlGetGateway buf len env).ReleasesAll := by
  cases buf with
  | none => exact keeps_pure _ _
  | some b =>
    rw [ReleasesAll, rlGetGateway]
    by_cases hlen : len = 0
    · rw [if_pos hlen]
      exact keeps_pure _ _
    rw [if_neg hlen]
    cases hopen : env.fopen with
    | false => exact keeps_pure _ _
    | true =>
      apply Keeps.acquire
      apply Keeps.use_only
      exact keeps_gatewayLoop _ _ (hfits nofun hlen hopen)

theorem gateway_releases_iff (buf : Option Buffer) (len : ℕ) (env : RouteEnv) :
    (∀ overrun, (rlGetGateway buf len { env with overrun := overrun }).ReleasesAll) ↔
      env.Fits buf len := by
  constructor
  · intro h hbuf hlen hopen
    by_contra hfit
    obtain ⟨b, rfl⟩ := Option.ne_none_iff_exists'.mp hbuf
    -- a call that returns straight behind the overrun leaves the file open
    have hopened : (rlGetGateway (some b) len { env with overrun := pure ⟨RL_FAILED, none⟩ }).Keeps
        [] [.file] := by
      rw [rlGetGateway, if_neg hlen, if_neg (by simp [hopen])]
      apply Keeps.acquire
      apply Keeps.use_only
      exact gatewayLoop_keeps b len hfit (keeps_pure _ _)
    exact absurd ((h _).symm.trans hopened) (by simp)
  · intro hfits overrun
    have hfits' : RouteEnv.Fits buf len { env with overrun := overrun } := hfits
    exact gateway_releasesAll hfits'

end Gateway

theorem lookUp_releasesAll (request : IfreqRequest) (buf : Option Buffer) (len : ℕ)
    (env : IfreqEnv) : (lookUp request buf len env).ReleasesAll := by
  cases buf with
  | none => exact keeps_pure _ _
  | some b =>
    apply Keeps.ite (keeps_pure _ _)
    cases env.socket with
    | none => exact keeps_pure _ _
    | some sockfd =>
      apply Keeps.acquire
      apply Keeps.use_only
      cases env.ioctl request SYS_USER_ETHERNET_CARD with
      | none => exact keeps_leave _ _
      | some addr =>
        dsimp only
        cases inetNtop addr len with
        | none => exact keeps_leave _ _
        | some dotted => exact keeps_leave _ _

end Configuration

/-- Seven of the nine functions release exactly once what they acquire and do not use it
afterwards, whatever the system answers. The other two do if and only if they stay inside `fdset` and
inside `iface`. -/
theorem network_functions_release (trySec timeoutMs retryCount : BitVec 32)
    (attempts : ℕ → CardAttempt) (tcp : TcpEnv) (sel : TcpSelEnv) (udp : UdpEnv)
    (interfaces : FileEnv) (buf : Option Buffer) (len : ℕ) (card : IfreqEnv) (routes : RouteEnv)
    (time : RlTime) (server : Time.ServerEnv) :
    (rlGetEthernetCardState timeoutMs retryCount attempts).ReleasesAll ∧
      (rlGetEthernetConnectTcp trySec tcp).ReleasesAll ∧
      ((∀ overrun, (rlGetEthernetConnectTcpSel trySec { sel with overrun := overrun }).ReleasesAll) ↔
        sel.SetFits) ∧
      (rlGetEthernetConnectUdp trySec udp).ReleasesAll ∧
      (rlGetDhcp interfaces).ReleasesAll ∧
      (rlGetIpAddress buf len card).ReleasesAll ∧
      (rlGetSubnetMask buf len card).ReleasesAll ∧
      ((∀ overrun, (rlGetGateway buf len { routes with overrun := overrun }).ReleasesAll) ↔
        routes.Fits buf len) ∧
      (Time.tracedServer trySec time server).ReleasesAll ∧
      (Time.tracedServer trySec time server).value =
        (Time.rlGetTimeFromServer trySec time server).result :=
  ⟨cardState_releasesAll timeoutMs retryCount attempts, connectTcp_releasesAll trySec tcp,
    connectTcpSel_releases_iff trySec sel, connectUdp_releasesAll trySec udp,
    dhcp_releasesAll interfaces, lookUp_releasesAll .SIOCGIFADDR buf len card,
    lookUp_releasesAll .SIOCGIFNETMASK buf len card, gateway_releases_iff buf len routes,
    Time.tracedServer_releasesAll trySec time server, Time.tracedServer_value trySec time server⟩

/-- The socket is 1472 and the bit that `FD_SET` sets makes it 1473: a descriptor of somebody else is
asked, closed, and the own one stays open. -/
def overrunEnv : TcpSelEnv where
  socket := some 1472
  getFlags := some 2
  setFlags _ := true
  gethostbyname _ := some ⟨4, 16⟩
  memory _ := 0
  connect _ := .inProgress
  select _ := 1
  getsockopt := some 111
  overrun := do
    use (.socket 1473)
    use (.socket 1473)
    release (.socket 1473)
    pure ⟨RL_SUCCESS, some (serverOf (fun _ => 0) ⟨4, 16⟩), none⟩

theorem overrun_not_released : ¬ (rlGetEthernetConnectTcpSel 5 overrunEnv).ReleasesAll :=
  nofun

end RlLibrary.Eth
