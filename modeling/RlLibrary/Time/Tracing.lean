import RlLibrary.Foundation.Resources
import RlLibrary.Time.Server

namespace RlLibrary.Time

open Foundation Traced

abbrev Answer := ℤ × RlTime × Option (List Byte)

def ServerResult.result (r : ServerResult) : Answer := (r.code, r.time, r.accepted)

def tracedRecvLoop : List RecvResult → List Byte → Traced Resource (Option (List Byte))
  | [], _ => do
    use .socket
    pure none
  | .failed :: _, _ => do
    use .socket
    pure none
  | .bytes chunk :: rest, received => do
    use .socket
    let got := chunk.take (responseSize - received.length - 1)
    if got = [] then pure none else
    if (received ++ got).length ≥ responseSize - 1 then pure (some (received ++ got))
    else if (strstr (CString.ofBuffer (received ++ got)).bytes headerEnd).isSome then
      pure (some (received ++ got))
    else tracedRecvLoop rest (received ++ got)

def closing (answer : Answer) : Traced Resource Answer := do
  release .socket
  pure answer

def tracedReadTime (env : ServerEnv) (response : List Byte) (time : RlTime) :
    Traced Resource Answer :=
  if strncmpZero response (text "HTTP/") 5 = false ∨ strstr response (text "200 OK") = none then
    closing (RL_FALSE, time, none)
  else
    match dateField response with
    | .missing => closing (RL_FAILED, time, none)
    | .malformed => closing (RL_FAILED, time, none)
    | .found dateStr =>
      let r := env.strptime dateStr dateFormat .zero
      if r.2 = false then closing (RL_FAILED, r.1, none)
      else closing (RL_SUCCESS, r.1, some dateStr)

def tracedAskServer (env : ServerEnv) (address : BitVec 32) (time : RlTime) :
    Traced Resource Answer := do
  use .socket
  if env.connect address GET_TIME_SOCKET_PORT = false then closing (RL_FALSE, time, none) else do
  use .socket
  if env.send request = false then closing (RL_FALSE, time, none) else do
  let response ← tracedRecvLoop env.recv []
  match response with
  | none => closing (RL_FALSE, time, none)
  | some received => tracedReadTime env (CString.ofBuffer received).bytes time

def tracedServer (trySec : BitVec 32) (time : RlTime) (env : ServerEnv) :
    Traced Resource Answer :=
  if env.socket = false then pure (RL_FAILED, time, none) else do
  acquire .socket
  use .socket
  if env.setsockopt .receive trySec = false then closing (RL_FAILED, time, none) else do
  use .socket
  if env.setsockopt .send trySec = false then closing (RL_FAILED, time, none) else
  match env.getaddrinfo GET_TIME_SOCKET_DNS with
  | none => closing (RL_FAILED, time, none)
  | some address => do
    acquire .addrinfo
    use .addrinfo
    release .addrinfo
    tracedAskServer env address time

section Value

theorem tracedRecvLoop_value (rs : List RecvResult) (received : List Byte) :
    (tracedRecvLoop rs received).value = recvLoop rs received := by
  induction rs generalizing received with
  | nil => rfl
  | cons r rs ih =>
    cases r with
    | failed => rfl
    | bytes chunk =>
      simp only [tracedRecvLoop, recvLoop, bind_value]
      split_ifs
      · rfl
      · rfl
      · rfl
      · exact ih _

theorem tracedReadTime_value (env : ServerEnv) (response : List Byte) (time : RlTime)
    (held : List Resource) :
    (tracedReadTime env response time).value = (readTime env response time held).result := by
  simp only [tracedReadTime, readTime]
  split_ifs
  · rfl
  · cases dateField response with
    | missing => rfl
    | malformed => rfl
    | found dateStr =>
      simp only
      split_ifs <;> rfl

theorem tracedAskServer_value (env : ServerEnv) (address : BitVec 32) (time : RlTime)
    (held : List Resource) :
    (tracedAskServer env address time).value = (askServer env address time held).result := by
  simp only [tracedAskServer, askServer, bind_value]
  split_ifs
  · rfl
  · rfl
  · rw [bind_value, bind_value, tracedRecvLoop_value]
    cases recvLoop env.recv [] with
    | none => rfl
    | some received => exact tracedReadTime_value env _ time held

theorem tracedServer_value (trySec : BitVec 32) (time : RlTime) (env : ServerEnv) :
    (tracedServer trySec time env).value = (rlGetTimeFromServer trySec time env).result := by
  simp only [tracedServer, rlGetTimeFromServer]
  split_ifs
  · rfl
  · rfl
  · rfl
  · cases env.getaddrinfo GET_TIME_SOCKET_DNS with
    | none => rfl
    | some address => exact tracedAskServer_value env address time _

end Value

section Release

theorem keeps_closing (answer : Answer) : (closing answer).Keeps [Resource.socket] [] :=
  (keeps_pure answer []).release_only

theorem keeps_tracedRecvLoop (rs : List RecvResult) (received : List Byte) :
    (tracedRecvLoop rs received).Keeps [.socket] [.socket] := by
  induction rs generalizing received with
  | nil => exact (keeps_pure none _).use_only
  | cons r rs ih =>
    cases r with
    | failed => exact (keeps_pure none _).use_only
    | bytes chunk =>
      apply Keeps.use_only
      apply Keeps.ite (keeps_pure none _)
      apply Keeps.ite (keeps_pure _ _)
      exact Keeps.ite (keeps_pure _ _) (ih _)

theorem keeps_tracedReadTime (env : ServerEnv) (response : List Byte) (time : RlTime) :
    (tracedReadTime env response time).Keeps [.socket] [] := by
  apply Keeps.ite (keeps_closing _)
  cases dateField response with
  | missing => exact keeps_closing _
  | malformed => exact keeps_closing _
  | found dateStr => exact Keeps.ite (keeps_closing _) (keeps_closing _)

theorem keeps_tracedAskServer (env : ServerEnv) (address : BitVec 32) (time : RlTime) :
    (tracedAskServer env address time).Keeps [.socket] [] := by
  apply Keeps.use_only
  apply Keeps.ite (keeps_closing _)
  apply Keeps.use_only
  apply Keeps.ite (keeps_closing _)
  apply Keeps.bind [.socket] (keeps_tracedRecvLoop env.recv [])
  cases (tracedRecvLoop env.recv []).value with
  | none => exact keeps_closing _
  | some received => exact keeps_tracedReadTime env _ time

theorem tracedServer_releasesAll (trySec : BitVec 32) (time : RlTime) (env : ServerEnv) :
    (tracedServer trySec time env).ReleasesAll := by
  apply Keeps.ite (keeps_pure _ _)
  apply Keeps.acquire
  apply Keeps.use_only
  apply Keeps.ite (keeps_closing _)
  apply Keeps.use_only
  apply Keeps.ite (keeps_closing _)
  cases env.getaddrinfo GET_TIME_SOCKET_DNS with
  | none => exact keeps_closing _
  | some address =>
    apply Keeps.acquire
    apply Keeps.use (by decide)
    apply Keeps.release (by decide)
    exact keeps_tracedAskServer env address time

end Release

end RlLibrary.Time
