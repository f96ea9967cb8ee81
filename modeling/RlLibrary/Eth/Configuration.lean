import RlLibrary.Eth.Probes
import RlLibrary.Foundation.Buffer
import RlLibrary.Foundation.Scan
import RlLibrary.Str.Basic

namespace RlLibrary.Eth

open Foundation Traced Str

def inetNtop (addr : BitVec 32) (len : ℕ) : Option (List Byte) :=
  let part (i : ℕ) : List Byte := decimal ((addr.extractLsb' (8 * i) 8).toNat)
  let dotted := part 0 ++ text "." ++ part 1 ++ text "." ++ part 2 ++ text "." ++ part 3
  -- there has to be room for the terminator
  if dotted.length + 1 > len then none else some dotted

structure FileEnv where
  fopen : Bool
  read : List Byte
  deriving DecidableEq

/-- The lines that successive calls of `fgets` with a buffer of `size` bytes read, with no more
than `fuel` calls. -/
def linesOf (size : ℕ) : ℕ → List Byte → List (List Byte)
  | 0, _ => []
  | fuel + 1, file =>
    match fgets size file with
    | none => []
    | some (line, rest) => line :: linesOf size fuel rest

def fileLines (size : ℕ) (file : List Byte) : List (List Byte) := linesOf size file.length file

theorem linesOf_flatten {size fuel : ℕ} (hsize : 1 < size) {file : List Byte}
    (hfuel : file.length ≤ fuel) : (linesOf size fuel file).flatten = file := by
  induction fuel generalizing file with
  | zero =>
    rw [List.length_eq_zero_iff.mp (Nat.le_zero.mp hfuel)]
    rfl
  | succ fuel ih =>
    by_cases hfile : file = []
    · simp [linesOf, fgets, hfile]
    · have hpos := takeLine_pos (n := size - 1) (by omega) hfile
      have hrest : (file.drop (takeLine (size - 1) file).length).length ≤ fuel := by
        rw [List.length_drop]
        omega
      simp only [linesOf, fgets, hfile, ↓reduceIte, List.flatten_cons, ih hrest]
      exact List.prefix_iff_eq_append.mp (takeLine_starts (size - 1) file)

theorem fileLines_flatten {size : ℕ} (hsize : 1 < size) (file : List Byte) :
    (fileLines size file).flatten = file := linesOf_flatten hsize (Nat.le_refl _)

structure Lookup where
  code : ℤ
  buf : Option Buffer
  deriving DecidableEq

section Dhcp

def ifaceFormat : List Directive :=
  -- "iface %31s %31s %31s"
  (text "iface").map .literal ++ (List.replicate 3 [Directive.blanks, .word (some 31)]).flatten

def dhcpLine (line : List Byte) : Option ℤ :=
  let trimmed := (CString.ofBuffer line).bytes.dropWhile fun b => b = 32 ∨ b = 9
  if strncmpZero trimmed (text "iface") 5 = false then none else
  match sscanf ifaceFormat trimmed with
  | [.word iface, .word _, .word mode] =>
    if rlStrcmp (some (.ofBuffer iface)) (some (.ofBuffer (text SYS_USER_ETHERNET_CARD))) ≠ 0 then
      none
    else if rlStrcmp (some (.ofBuffer mode)) (some (.ofBuffer (text "dhcp"))) = 0 then some RL_TRUE
    else if rlStrcmp (some (.ofBuffer mode)) (some (.ofBuffer (text "static"))) = 0 then
      some RL_FALSE
    else none
  | _ => none

def dhcpLoop : List (List Byte) → Traced Handle ℤ
  | [] => do
    use .file
    release .file
    pure RL_FAILED
  | line :: lines => do
    use .file
    match dhcpLine line with
    | some code => do
      release .file
      pure code
    | none => dhcpLoop lines

def rlGetDhcp (env : FileEnv) : Traced Handle ℤ :=
  if env.fopen = false then pure RL_FAILED else do
  acquire .file
  dhcpLoop (fileLines 256 env.read)

end Dhcp

section Gateway

def routeFormat : List Directive :=
  -- "%s\t%lx\t%lx\t%lx"
  [.word none, .blanks, .unsigned 16, .blanks, .unsigned 16, .blanks, .unsigned 16]

def gatewayLine (line : List Byte) : Option (BitVec 64) :=
  match sscanf routeFormat (CString.ofBuffer line).bytes with
  | [.word iface, .number dest, .number gw, .number flags] =>
    if dest = 0 ∧ flags &&& 0x2 ≠ 0 then
      if rlStrcmp (some (.ofBuffer iface)) (some (.ofBuffer (text SYS_USER_ETHERNET_CARD))) ≠ 0 then
        none
      else some gw
    else none
  | _ => none

def IFNAMSIZ : ℕ := 16

/-- `%s` puts a word of the line and a terminator into `iface`, which has `IFNAMSIZ` bytes. -/
def ifaceOverruns (line : List Byte) : Bool :=
  match sscanf routeFormat (CString.ofBuffer line).bytes with
  | .word iface :: _ => decide (IFNAMSIZ < iface.length + 1)
  | _ => false

/-- `overrun` is what becomes of the call once `sscanf` has written outside `iface`. -/
structure RouteEnv extends FileEnv where
  overrun : Traced Handle Lookup

def gatewayLoop (buf : Buffer) (len : ℕ) (overrun : Traced Handle Lookup) :
    List (List Byte) → Traced Handle Lookup
  | [] => do
    use .file
    release .file
    pure ⟨RL_FAILED, some buf⟩
  | line :: lines => do
    use .file
    if ifaceOverruns line = true then overrun else
    match gatewayLine line with
    | none => gatewayLoop buf len overrun lines
    | some gw =>
      match inetNtop (gw.setWidth 32) len with
      | none => do
        release .file
        pure ⟨RL_FAILED, some buf⟩
      | some dotted => do
        release .file
        pure ⟨RL_SUCCESS, some (buf.strcpy dotted)⟩

def rlGetGateway (buf : Option Buffer) (len : ℕ) (env : RouteEnv) : Traced Handle Lookup :=
  match buf with
  | none => pure ⟨RL_FAILED, buf⟩
  | some b =>
    if len = 0 then pure ⟨RL_FAILED, buf⟩ else
    if env.fopen = false then pure ⟨RL_FAILED, buf⟩ else do
    acquire .file
    -- the first line is skipped
    use .file
    gatewayLoop b len env.overrun (fileLines 256 env.read).tail

def LinesFit : List (List Byte) → Prop
  | [] => True
  | line :: lines => ifaceOverruns line = false ∧ (gatewayLine line = none → LinesFit lines)

def RouteEnv.Fits (buf : Option Buffer) (len : ℕ) (env : RouteEnv) : Prop :=
  buf ≠ none → len ≠ 0 → env.fopen = true → LinesFit (fileLines 256 env.read).tail

end Gateway

section Ioctl

inductive IfreqRequest where
  | SIOCGIFADDR
  | SIOCGIFNETMASK
  deriving DecidableEq, Repr

/-- `ioctl` answers the address, its bytes in the order in which they lie in memory. -/
structure IfreqEnv where
  socket : Option ℕ
  ioctl : IfreqRequest → String → Option (BitVec 32)

def lookUp (request : IfreqRequest) (buf : Option Buffer) (len : ℕ) (env : IfreqEnv) :
    Traced Handle Lookup :=
  match buf with
  | none => pure ⟨RL_FAILED, buf⟩
  | some b =>
    if len = 0 then pure ⟨RL_FAILED, buf⟩ else
    match env.socket with
    | none => pure ⟨RL_FAILED, buf⟩
    | some sockfd => do
      acquire (.socket sockfd)
      use (.socket sockfd)
      match env.ioctl request SYS_USER_ETHERNET_CARD with
      | none => do
        release (.socket sockfd)
        pure ⟨RL_FAILED, some (b.set 0 0)⟩
      | some addr =>
        match inetNtop addr len with
        | none => do
          release (.socket sockfd)
          pure ⟨RL_FAILED, some (b.set 0 0)⟩
        | some dotted => do
          release (.socket sockfd)
          pure ⟨RL_SUCCESS, some (b.strcpy dotted)⟩

def rlGetIpAddress : Option Buffer → ℕ → IfreqEnv → Traced Handle Lookup := lookUp .SIOCGIFADDR

def rlGetSubnetMask : Option Buffer → ℕ → IfreqEnv → Traced Handle Lookup := lookUp .SIOCGIFNETMASK

end Ioctl

end RlLibrary.Eth
