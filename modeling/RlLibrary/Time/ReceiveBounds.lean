import RlLibrary.Foundation.Buffer
import RlLibrary.Foundation.Checked
import RlLibrary.Time.Server

namespace RlLibrary.Time

open Foundation

structure RecvCall where
  total : ℤ
  requested : ℕ

/-- The last value of `ret`, the array after the loop, the calls of `recv`, and what the array
held at each search for the end of the header. -/
structure Reception where
  ret : ℤ
  response : Buffer
  calls : List RecvCall
  searched : List (List Byte)

def requestedLength (total : ℤ) : ℕ := (2048#64 - BitVec.ofInt 64 total - 1#64).toNat

/-- The loop from the `k`-th call of `recv` on; `none` when the fuel does not suffice or
`total_received` overflows. -/
def receive (recv : ℕ → RecvResult) : ℕ → ℕ → Buffer → ℤ → Option Reception
  | 0, _, _, _ => none
  | fuel + 1, k, response, total =>
    let call : RecvCall := ⟨total, requestedLength total⟩
    match recv k with
    | .failed => some ⟨-1, response, [call], []⟩
    | .bytes chunk =>
      let got := chunk.take (requestedLength total)
      if got = [] then some ⟨0, response, [call], []⟩ else do
      let response := response.write total.toNat got
      let total ← checked (total + got.length)
      if total ≥ 2048 - 1 then some ⟨got.length, response, [call], []⟩ else
      let response := response.set total.toNat 0
      if (strstr response.string.bytes headerEnd).isSome then
        some ⟨got.length, response, [call], [response.bytes]⟩
      else do
        let rest ← receive recv fuel (k + 1) response total
        some { rest with calls := call :: rest.calls, searched := response.bytes :: rest.searched }

def emptyResponse : Buffer := ⟨List.replicate responseSize 0, []⟩

def Terminated (bytes : List Byte) : Prop := bytes.length = responseSize ∧ 0 ∈ bytes

structure Reception.Bounded (r : Reception) : Prop where
  calls : ∀ c ∈ r.calls, 0 ≤ c.total ∧ c.total ≤ 2046 ∧ 1 ≤ c.requested ∧
    c.requested ≤ 2047 - c.total
  writes : ∀ i ∈ r.response.writes, i < 2047
  searched : ∀ bytes ∈ r.searched, Terminated bytes
  response : Terminated r.response.bytes

def arrived (received : List Byte) : List Byte :=
  received ++ List.replicate (responseSize - received.length) 0

structure Receiving (received : List Byte) (response : Buffer) (total : ℤ) : Prop where
  bytes : response.bytes = arrived received
  total : total = received.length
  room : received.length ≤ 2046
  writes : ∀ i ∈ response.writes, i < 2047

section Step

variable {received got : List Byte} {response : Buffer} {total : ℤ}

theorem arrived_terminated (h : received.length ≤ 2047) : Terminated (arrived received) := by
  have hroom : responseSize - received.length ≠ 0 := by
    rw [responseSize]
    omega
  refine ⟨?_, List.mem_append_right _ (List.mem_replicate.mpr ⟨hroom, rfl⟩)⟩
  rw [arrived, List.length_append, List.length_replicate, responseSize]
  omega

theorem arrived_string (received : List Byte) :
    (CString.ofBuffer (arrived received)).bytes = (CString.ofBuffer received).bytes := by
  rw [arrived]
  by_cases hzero : 0 ∈ received
  · exact CString.ofBuffer_append_of_mem hzero _
  · have hzeros (n : ℕ) : (CString.ofBuffer (List.replicate n 0)).bytes = [] := by
      cases n <;> simp [CString.ofBuffer, List.replicate_succ]
    rw [CString.ofBuffer_append_of_notMem hzero, hzeros, List.append_nil,
      CString.ofBuffer_of_notMem hzero]

theorem Receiving.requested (h : Receiving received response total) :
    requestedLength total = 2047 - received.length := by
  have hroom := h.room
  rw [requestedLength, h.total, BitVec.ofInt_natCast]
  bv_omega

theorem Receiving.store (h : Receiving received response total)
    (hgot : got.length ≤ 2047 - received.length) :
    (response.write total.toNat got).bytes = arrived (received ++ got) ∧
      ∀ i ∈ (response.write total.toNat got).writes, i < 2047 := by
  have hroom := h.room
  have hindex : total.toNat = received.length := by
    rw [h.total, Int.toNat_natCast]
  constructor
  · have hsplit : responseSize - received.length =
        got.length + (responseSize - (received ++ got).length) := by
      rw [List.length_append, responseSize]
      omega
    have hbytes : response.bytes = received ++ List.replicate got.length 0 ++
        List.replicate (responseSize - (received ++ got).length) 0 := by
      rw [h.bytes, arrived, hsplit, List.replicate_add, List.append_assoc]
    rw [hindex, Buffer.write_eq hbytes (by simp), arrived]
  · intro i hi
    rw [Buffer.mem_write_writes] at hi
    rcases hi with hi | hi
    · exact h.writes i hi
    · omega

theorem Receiving.terminate (hbytes : response.bytes = arrived received)
    (hwrites : ∀ i ∈ response.writes, i < 2047) (hroom : received.length ≤ 2046) :
    Receiving received (response.set received.length 0) received.length := by
  refine ⟨?_, rfl, hroom, fun i hi => ?_⟩
  · obtain ⟨n, hn⟩ : ∃ n, responseSize - received.length = n + 1 :=
      ⟨responseSize - received.length - 1, by rw [responseSize]; omega⟩
    have hzeros : response.bytes = received ++ [0] ++ List.replicate n 0 := by
      rw [hbytes, arrived, hn, List.replicate_succ, List.append_assoc]
      rfl
    rw [Buffer.set, Buffer.write_eq hzeros rfl, ← hzeros, hbytes]
  · rw [Buffer.set, Buffer.mem_write_writes, List.length_singleton] at hi
    rcases hi with hi | hi
    · exact hwrites i hi
    · omega

end Step

def Reception.Agrees (r : Reception) : Option (List Byte) → Prop
  | none => r.ret ≤ 0
  | some received => 0 < r.ret ∧ r.response.bytes = arrived received

section Run

variable {received got : List Byte} {response response' : Buffer} {total : ℤ}
  {model : Option (List Byte)}

structure Reception.Ends (r : Reception) (received : List Byte) (model : Option (List Byte)) :
    Prop where
  bounded : r.Bounded
  calls : r.calls.length + received.length ≤ 2047
  agrees : r.Agrees model

theorem Receiving.call (h : Receiving received response total) :
    0 ≤ total ∧ total ≤ 2046 ∧ 1 ≤ requestedLength total ∧ requestedLength total ≤ 2047 - total := by
  have hroom := h.room
  rw [h.requested, h.total]
  omega

theorem Receiving.counted (h : Receiving received response total)
    (hgot : got.length ≤ 2047 - received.length) :
    checked (total + got.length) = some ((received ++ got).length : ℤ) ∧
      (received ++ got).length ≤ 2047 := by
  have hroom := h.room
  have htotal : total + got.length = ((received ++ got).length : ℤ) := by
    rw [h.total, List.length_append]
    push_cast
    rfl
  have hlength : (received ++ got).length ≤ 2047 := by
    rw [List.length_append]
    omega
  have hint : InInt ((received ++ got).length : ℤ) := by
    constructor <;> omega
  rw [htotal]
  exact ⟨checked_of hint, hlength⟩

theorem Receiving.last (h : Receiving received response total) (ret : ℤ) {final : List Byte}
    (hbytes : response'.bytes = arrived final) (hfinal : final.length ≤ 2047)
    (hwrites : ∀ i ∈ response'.writes, i < 2047) {searched : List (List Byte)}
    (hsearched : ∀ bytes ∈ searched, bytes = arrived final)
    (hagrees : (⟨ret, response', [⟨total, requestedLength total⟩], searched⟩ : Reception).Agrees
      model) :
    (⟨ret, response', [⟨total, requestedLength total⟩], searched⟩ : Reception).Ends received model := by
  have hterminated := arrived_terminated hfinal
  have hroom := h.room
  refine ⟨⟨List.forall_mem_singleton.mpr h.call, hwrites, fun bytes hmem => ?_, ?_⟩, ?_, hagrees⟩
  · rw [hsearched bytes hmem]
    exact hterminated
  · rw [hbytes]
    exact hterminated
  · rw [List.length_singleton]
    omega

theorem Receiving.more (h : Receiving received response total) (hne : got ≠ []) {rest : Reception}
    (hrest : rest.Ends (received ++ got) model) {bytes : List Byte}
    (hbytes : bytes = arrived (received ++ got)) (hlength : (received ++ got).length ≤ 2047) :
    ({ rest with
      calls := ⟨total, requestedLength total⟩ :: rest.calls
      searched := bytes :: rest.searched } : Reception).Ends received model := by
  have hpos := List.length_pos_of_ne_nil hne
  have hcalls := hrest.calls
  rw [List.length_append] at hcalls
  refine ⟨⟨?_, hrest.bounded.writes, ?_, hrest.bounded.response⟩, ?_, hrest.agrees⟩
  · exact List.forall_mem_cons.mpr ⟨h.call, hrest.bounded.calls⟩
  · exact List.forall_mem_cons.mpr ⟨hbytes ▸ arrived_terminated hlength, hrest.bounded.searched⟩
  · rw [List.length_cons]
    omega

theorem receive_bytes {recv : ℕ → RecvResult} {k : ℕ} {chunk got : List Byte}
    (hrecv : recv k = .bytes chunk) (hgot : chunk.take (requestedLength total) = got)
    (hne : got ≠ []) {next : ℤ} (hnext : checked (total + got.length) = some next) (fuel : ℕ) :
    receive recv (fuel + 1) k response total =
      if next ≥ 2048 - 1 then
        some ⟨got.length, response.write total.toNat got, [⟨total, requestedLength total⟩], []⟩
      else if (strstr ((response.write total.toNat got).set next.toNat 0).string.bytes
          headerEnd).isSome then
        some ⟨got.length, (response.write total.toNat got).set next.toNat 0,
          [⟨total, requestedLength total⟩], [((response.write total.toNat got).set next.toNat 0).bytes]⟩
      else
        (receive recv fuel (k + 1) ((response.write total.toNat got).set next.toNat 0) next).bind
          fun rest => some { rest with
            calls := ⟨total, requestedLength total⟩ :: rest.calls
            searched := ((response.write total.toNat got).set next.toNat 0).bytes :: rest.searched } := by
  simp only [receive, hrecv, hgot, hne, ↓reduceIte, hnext, Option.bind_eq_bind, Option.bind_some]

theorem receive_spec (recv : ℕ → RecvResult) {fuel : ℕ} (k : ℕ)
    (h : Receiving received response total) (hfuel : 2047 ≤ received.length + fuel) :
    ∃ r, receive recv fuel k response total = some r ∧
      r.Ends received (recvLoop ((List.range' k fuel).map recv) received) := by
  -- on the fuel: what is left of the array shrinks with every byte that arrives
  induction fuel generalizing k received response total with
  | zero =>
    have hroom := h.room
    omega
  | succ fuel ih =>
    have hroom : received.length ≤ 2047 := Nat.le_succ_of_le h.room
    have hnone : ∀ bytes ∈ ([] : List (List Byte)), bytes = arrived received := by simp
    rw [List.range'_succ, List.map_cons]
    cases hrecv : recv k with
    | failed =>
      refine ⟨_, by simp only [receive, hrecv], h.last (-1) h.bytes hroom h.writes hnone ?_⟩
      simp [recvLoop, Reception.Agrees]
    | bytes chunk =>
      have hrequested := h.requested
      have hmodel : responseSize - received.length - 1 = requestedLength total := by
        rw [hrequested, responseSize]
        omega
      rw [recvLoop, hmodel]
      by_cases hempty : chunk.take (requestedLength total) = []
      · refine ⟨_, by simp only [receive, hrecv, hempty, ↓reduceIte],
          h.last 0 h.bytes hroom h.writes hnone ?_⟩
        simp [hempty, Reception.Agrees]
      have hle : (chunk.take (requestedLength total)).length ≤ 2047 - received.length := by
        rw [List.length_take, ← hrequested]
        exact Nat.min_le_left _ _
      rw [if_neg hempty]
      generalize hgot : chunk.take (requestedLength total) = got at hempty hle ⊢
      have hpos := List.length_pos_of_ne_nil hempty
      obtain ⟨hbytes, hwrites⟩ := h.store hle
      obtain ⟨hnext, hlength⟩ := h.counted hle
      rw [receive_bytes hrecv hgot hempty hnext]
      dsimp only
      by_cases hfull : (received ++ got).length ≥ 2047
      · rw [if_pos (show ((received ++ got).length : ℤ) ≥ 2048 - 1 by omega)]
        rw [if_pos (show (received ++ got).length ≥ responseSize - 1 from hfull)]
        exact ⟨_, rfl, h.last _ hbytes hlength hwrites (by simp) ⟨by simpa using hpos, hbytes⟩⟩
      rw [if_neg (show ¬ ((received ++ got).length : ℤ) ≥ 2048 - 1 by omega)]
      rw [if_neg (show ¬ (received ++ got).length ≥ responseSize - 1 from hfull)]
      have hset := Receiving.terminate hbytes hwrites (by omega)
      rw [Int.toNat_natCast, Buffer.string, hset.bytes, arrived_string]
      split_ifs with hfound
      · exact ⟨_, rfl, h.last _ hset.bytes hlength hset.writes (by simp)
          ⟨by simpa using hpos, hset.bytes⟩⟩
      · obtain ⟨rest, hrest, hends⟩ := ih (k + 1) hset (by
          rw [List.length_append]
          omega)
        rw [hrest, Option.bind_some]
        exact ⟨_, rfl, h.more hempty hends rfl hlength⟩

end Run

theorem receive_bounded (recv : ℕ → RecvResult) :
    ∃ r, receive recv 2047 0 emptyResponse 0 = some r ∧ r.Bounded ∧ r.calls.length ≤ 2047 ∧
      r.Agrees (recvLoop ((List.range' 0 2047).map recv) []) := by
  have hstart : Receiving [] emptyResponse 0 := ⟨rfl, rfl, by decide, by simp [emptyResponse]⟩
  have hfuel : 2047 ≤ ([] : List Byte).length + 2047 := by decide
  obtain ⟨r, hr, hends⟩ := receive_spec recv 0 hstart hfuel
  exact ⟨r, hr, hends.bounded, hends.calls, hends.agrees⟩

end RlLibrary.Time
