import RlLibrary.Foundation.CString
import RlLibrary.Public

/-!
`rl_get_time_from_server` of `rltime.c`. The answers of the network calls and `strptime` are
arguments; `held` lists what the call has acquired and not yet given back, `accepted` is the
date string that `strptime` has accepted.
-/

namespace RlLibrary.Time

open Foundation

def GET_TIME_SOCKET_DNS : String := "www.baidu.com"

def GET_TIME_SOCKET_PORT : ℕ := 80

inductive TimeoutOption where
  | receive
  | send
  deriving DecidableEq, Repr

/-- A call of `recv` that fails or times out, or the bytes there are to read; no bytes mean
that the peer has closed. -/
inductive RecvResult where
  | failed
  | bytes (chunk : List Byte)
  deriving DecidableEq

structure ServerEnv where
  socket : Bool
  setsockopt : TimeoutOption → BitVec 32 → Bool
  getaddrinfo : String → Option (BitVec 32)
  connect : BitVec 32 → ℕ → Bool
  send : List Byte → Bool
  recv : List RecvResult
  strptime : List Byte → String → RlTime → RlTime × Bool

inductive Resource where
  | socket
  | addrinfo
  deriving DecidableEq, Repr

structure ServerResult where
  code : ℤ
  time : RlTime
  accepted : Option (List Byte)
  held : List Resource
  deriving DecidableEq

def request : List Byte :=
  text "GET / HTTP/1.1\r\n" ++ text "Host: " ++ text GET_TIME_SOCKET_DNS ++ text "\r\n" ++
    text "Connection: close\r\n\r\n"

def responseSize : ℕ := 2048

def headerEnd : List Byte := text "\r\n\r\n"

def dateFormat : String := "%a, %d %b %Y %H:%M:%S GMT"

/-- The receive loop, with what is in `response` so far; `none` when it ends with `ret <= 0`,
as it does when no result is left. -/
def recvLoop : List RecvResult → List Byte → Option (List Byte)
  | [], _ => none
  | .failed :: _, _ => none
  | .bytes chunk :: rest, received =>
    let got := chunk.take (responseSize - received.length - 1)
    if got = [] then none else
    let received := received ++ got
    if received.length ≥ responseSize - 1 then some received
    else if (strstr (CString.ofBuffer received).bytes headerEnd).isSome then some received
    else recvLoop rest received

inductive DateField where
  | missing
  | malformed
  | found (dateStr : List Byte)
  deriving DecidableEq

def dateField (response : List Byte) : DateField :=
  match strstr response (text "Date: ") with
  | none => .missing
  | some dateHeader =>
    match cutAt (text "\r\n") dateHeader with
    | none => .malformed
    -- `*end = 0` leaves the line, its first 6 bytes are the field name
    | some (line, _) => .found (line.drop 6)

def close (held : List Resource) : List Resource := held.erase .socket

def freeaddrinfo (held : List Resource) : List Resource := held.erase .addrinfo

def readTime (env : ServerEnv) (response : List Byte) (time : RlTime) (held : List Resource) :
    ServerResult :=
  if strncmpZero response (text "HTTP/") 5 = false ∨ strstr response (text "200 OK") = none then
    ⟨RL_FALSE, time, none, close held⟩
  else
    match dateField response with
    | .missing => ⟨RL_FAILED, time, none, close held⟩
    | .malformed => ⟨RL_FAILED, time, none, close held⟩
    | .found dateStr =>
      -- `*time` is cleared before `strptime` writes into it
      let r := env.strptime dateStr dateFormat .zero
      if r.2 = false then ⟨RL_FAILED, r.1, none, close held⟩
      else ⟨RL_SUCCESS, r.1, some dateStr, close held⟩

def askServer (env : ServerEnv) (address : BitVec 32) (time : RlTime) (held : List Resource) :
    ServerResult :=
  if env.connect address GET_TIME_SOCKET_PORT = false then ⟨RL_FALSE, time, none, close held⟩ else
  if env.send request = false then ⟨RL_FALSE, time, none, close held⟩ else
  match recvLoop env.recv [] with
  | none => ⟨RL_FALSE, time, none, close held⟩
  | some received => readTime env (CString.ofBuffer received).bytes time held

def rlGetTimeFromServer (trySec : BitVec 32) (time : RlTime) (env : ServerEnv) : ServerResult :=
  if env.socket = false then ⟨RL_FAILED, time, none, []⟩ else
  let held := [Resource.socket]
  if env.setsockopt .receive trySec = false then ⟨RL_FAILED, time, none, close held⟩ else
  if env.setsockopt .send trySec = false then ⟨RL_FAILED, time, none, close held⟩ else
  match env.getaddrinfo GET_TIME_SOCKET_DNS with
  | none => ⟨RL_FAILED, time, none, close held⟩
  | some address => askServer env address time (freeaddrinfo (.addrinfo :: held))

end RlLibrary.Time
