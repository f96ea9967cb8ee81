import RlLibrary.Foundation.CString
import RlLibrary.Foundation.Resources
import RlLibrary.Public

/-!
The probes of `rleth.c`: the state of the card, and the connections over TCP and UDP. What
the system calls answer is in the environment of each function, with the memory as it is after
`gethostbyname`; a socket is known by its descriptor.
-/

namespace RlLibrary.Eth

open Foundation Traced

def SYS_USER_ETHERNET_CARD : String := "eth0"

def SYS_ETH_CONNETC_TCP_NAME : String := "www.baidu.com"

def SYS_ETH_CONNETC_TCP_PORT : ℕ := 80

def SYS_ETH_CONNETC_UDP_IP : String := "8.8.8.8"

def SYS_ETH_CONNETC_UDP_PORT : ℕ := 53

inductive Handle where
  | socket (fd : ℕ)
  | file
  deriving DecidableEq, Repr

/-- `sockaddr_in` of an IPv4 address, the address as its bytes lie in memory. -/
structure SockAddrIn where
  sinPort : ℕ
  sinAddr : List Byte
  deriving DecidableEq, Repr

section Card

structure CardAttempt where
  socket : Option ℕ
  ioctl : String → Option (BitVec 16)

def IFF_UP : BitVec 16 := 0x1

def IFF_RUNNING : BitVec 16 := 0x40

abbrev CardResult := ℤ × List (BitVec 32)

def cardLoop (timeoutMs : BitVec 32) (env : ℕ → CardAttempt) :
    ℕ → List (BitVec 32) → Traced Handle CardResult
  | 0, slept => pure (RL_FAILED, slept)
  | n + 1, slept =>
    match (env n).socket with
    | none => cardLoop timeoutMs env n (slept ++ [timeoutMs * 1000])
    | some sockfd => do
      acquire (.socket sockfd)
      use (.socket sockfd)
      match (env n).ioctl SYS_USER_ETHERNET_CARD with
      | none => do
        release (.socket sockfd)
        cardLoop timeoutMs env n (slept ++ [timeoutMs * 1000])
      | some flags =>
        if flags &&& IFF_UP ≠ 0 ∧ flags &&& IFF_RUNNING ≠ 0 then do
          release (.socket sockfd)
          pure (RL_SUCCESS, slept)
        else do
          release (.socket sockfd)
          cardLoop timeoutMs env n (slept ++ [timeoutMs * 1000])

def rlGetEthernetCardState (timeoutMs : BitVec 32) (retryCount : BitVec 32)
    (env : ℕ → CardAttempt) : Traced Handle CardResult :=
  if retryCount.toInt < 0 then pure (RL_FAILED, []) else
  cardLoop timeoutMs env retryCount.toInt.toNat []

end Card

section Tcp

structure Hostent where
  hLength : ℕ
  hAddrList : ℕ
  deriving DecidableEq, Repr

def readBytes (memory : ℕ → Byte) (a n : ℕ) : List Byte := (List.range' a n).map memory

/-- `server`, cleared and then filled; `memcpy` starts at the place that `h_addr_list` points to. -/
def serverOf (memory : ℕ → Byte) (host : Hostent) : SockAddrIn where
  sinPort := SYS_ETH_CONNETC_TCP_PORT
  sinAddr := (readBytes memory host.hAddrList host.hLength ++ [0, 0, 0, 0]).take 4

structure TcpResult where
  code : ℤ
  passed : Option SockAddrIn
  established : Option SockAddrIn
  deriving DecidableEq

structure TcpEnv where
  socket : Option ℕ
  setsockopt : BitVec 32 → Bool
  gethostbyname : String → Option Hostent
  memory : ℕ → Byte
  connect : SockAddrIn → Bool

def rlGetEthernetConnectTcp (trySec : BitVec 32) (env : TcpEnv) : Traced Handle TcpResult :=
  match env.socket with
  | none => pure ⟨RL_FAILED, none, none⟩
  | some sockfd => do
    acquire (.socket sockfd)
    use (.socket sockfd)
    if env.setsockopt trySec = false then do
      release (.socket sockfd)
      pure ⟨RL_FAILED, none, none⟩
    else
    match env.gethostbyname SYS_ETH_CONNETC_TCP_NAME with
    | none => do
      release (.socket sockfd)
      pure ⟨RL_FAILED, none, none⟩
    | some host => do
      let server := serverOf env.memory host
      use (.socket sockfd)
      if env.connect server = true then do
        release (.socket sockfd)
        pure ⟨RL_SUCCESS, some server, some server⟩
      else do
        release (.socket sockfd)
        pure ⟨RL_FAILED, some server, none⟩

inductive ConnectAnswer where
  | connected
  | inProgress
  | failed
  deriving DecidableEq, Repr

/-- `overrun` is what becomes of the call once `FD_SET` has written outside `fdset`. -/
structure TcpSelEnv where
  socket : Option ℕ
  getFlags : Option (BitVec 32)
  setFlags : BitVec 32 → Bool
  gethostbyname : String → Option Hostent
  memory : ℕ → Byte
  connect : SockAddrIn → ConnectAnswer
  select : BitVec 32 → ℤ
  getsockopt : Option ℤ
  overrun : Traced Handle TcpResult

def FD_SETSIZE : ℕ := 1024

def O_NONBLOCK : BitVec 32 := 0x800

def setNonblock (sockfd : ℕ) (env : TcpSelEnv) : Traced Handle Bool := do
  use (.socket sockfd)
  match env.getFlags with
  | none => pure false
  | some flags => do
    use (.socket sockfd)
    pure (env.setFlags (flags ||| O_NONBLOCK))

def rlGetEthernetConnectTcpSel (trySec : BitVec 32) (env : TcpSelEnv) :
    Traced Handle TcpResult :=
  match env.socket with
  | none => pure ⟨RL_FAILED, none, none⟩
  | some sockfd => do
    acquire (.socket sockfd)
    let nonblock ← setNonblock sockfd env
    if nonblock = false then do
      release (.socket sockfd)
      pure ⟨RL_FAILED, none, none⟩
    else
    match env.gethostbyname SYS_ETH_CONNETC_TCP_NAME with
    | none => do
      release (.socket sockfd)
      pure ⟨RL_FAILED, none, none⟩
    | some host => do
      let server := serverOf env.memory host
      use (.socket sockfd)
      let ret := env.connect server
      if ret = .failed then do
        release (.socket sockfd)
        pure ⟨RL_FAILED, some server, none⟩
      else if FD_SETSIZE ≤ sockfd then env.overrun else do
        let established := if ret = .connected then some server else none
        use (.socket sockfd)
        if env.select trySec = 1 then do
          use (.socket sockfd)
          if env.getsockopt = some 0 then do
            release (.socket sockfd)
            pure ⟨RL_SUCCESS, some server, some server⟩
          else do
            release (.socket sockfd)
            pure ⟨RL_FAILED, some server, established⟩
        else do
          release (.socket sockfd)
          pure ⟨RL_FAILED, some server, established⟩

def TcpSelEnv.SetFits (env : TcpSelEnv) : Prop :=
  ∀ sockfd host, env.socket = some sockfd → (setNonblock sockfd env).value = true →
    env.gethostbyname SYS_ETH_CONNETC_TCP_NAME = some host →
    env.connect (serverOf env.memory host) ≠ .failed → sockfd < FD_SETSIZE

end Tcp

section Udp

structure UdpEnv where
  socket : Option ℕ
  sndtimeo : BitVec 32 → Bool
  rcvtimeo : BitVec 32 → Bool
  inetPton : String → Option (List Byte)
  sendto : List Byte → SockAddrIn → Bool
  recvfrom : Bool

def dnsQuery : List Byte :=
  [0x12, 0x34, 0x01, 0x00, 0x00, 0x01, 0x00, 0x00, 0x00, 0x00, 0x00, 0x00] ++
    [0x03] ++ text "www" ++ [0x06] ++ text "google" ++ [0x03] ++ text "com" ++
    [0x00, 0x00, 0x01, 0x00, 0x01]

def rlGetEthernetConnectUdp (trySec : BitVec 32) (env : UdpEnv) : Traced Handle ℤ :=
  match env.socket with
  | none => pure RL_FAILED
  | some sockfd => do
    acquire (.socket sockfd)
    -- what the two calls of `setsockopt` answer is not looked at
    use (.socket sockfd)
    let _ := env.sndtimeo trySec
    use (.socket sockfd)
    let _ := env.rcvtimeo trySec
    match env.inetPton SYS_ETH_CONNETC_UDP_IP with
    | none => do
      release (.socket sockfd)
      pure RL_FAILED
    | some ip => do
      use (.socket sockfd)
      if env.sendto dnsQuery ⟨SYS_ETH_CONNETC_UDP_PORT, ip⟩ = false then do
        release (.socket sockfd)
        pure RL_FAILED
      else do
        use (.socket sockfd)
        if env.recvfrom = true then do
          release (.socket sockfd)
          pure RL_SUCCESS
        else do
          release (.socket sockfd)
          pure RL_FAILED

end Udp

end RlLibrary.Eth
