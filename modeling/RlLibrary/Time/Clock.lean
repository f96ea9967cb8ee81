import RlLibrary.Foundation.Machine
import RlLibrary.Str.Basic
import RlLibrary.Time.SettingClock
import RlLibrary.Time.Strptime

namespace RlLibrary.Time

open Foundation Str

/-- A time zone: for every second the offset from UTC, and what `localtime_r` makes of the second. Of
local times before 1970 nothing is known. -/
structure Zone where
  offset : ℕ → ℤ
  localtime : ℕ → RlTime
  lawful : ∀ t n : ℕ, t + offset t = n → ∃ isdst name, localtime t =
    { brokenDown (CivilTime.breakdown n) with tmIsdst := isdst, tmGmtoff := offset t, tmZone := name }

structure TimeWorld where
  clock : ℕ
  zone : Zone

structure ReadClock where
  time : Bool
  localtime : Bool

def rlSetTimezone (zones : List Byte → Zone) (timezone : Option CString) (setenv : Bool)
    (w : TimeWorld) : ℤ × TimeWorld :=
  match timezone with
  | none => (RL_FAILED, w)
  | some name =>
    if rlStrIsempty (some name) = true then (RL_FAILED, w) else
    if setenv = false then (RL_FAILED, w) else
    (RL_SUCCESS, { w with zone := zones name.bytes })

def rlGetTimeStamp (r : ReadClock) (w : TimeWorld) (timeResult : RlTime) : ℤ × RlTime :=
  if r.time = false then (RL_FAILED, timeResult) else
  if r.localtime = false then (RL_FAILED, timeResult) else
  (w.clock, w.zone.localtime w.clock)

def rlGetTime (r : ReadClock) (w : TimeWorld) (timeResult : RlTime) : ℤ × RlTime :=
  if r.time = false then (RL_FAILED, timeResult) else
  if r.localtime = false then (RL_FAILED, timeResult) else
  (RL_SUCCESS, w.zone.localtime w.clock)

/-- What `date` does of which `sets` tells the second that a command sets the clock to: with `-u -s` it
takes a text of this form for a time in UTC. -/
def SetsUtc (sets : List Byte → Option ℕ) : Prop :=
  ∀ c : CivilTime, c.Valid → c.year < 2201 →
    sets (text "sudo date -u -s \"" ++ (signedDecimal 4 c.year ++ (text "-" ++
      (signedDecimal 2 c.month ++ (text "-" ++ (signedDecimal 2 c.day ++ (text " " ++
      (signedDecimal 2 c.hour ++ (text ":" ++ (signedDecimal 2 c.minute ++ (text ":" ++
      (signedDecimal 2 c.second ++ text "\"")))))))))))) = some c.seconds

/-- What happens to the clock and to the zone; `took` tells whether `date` came as far as setting
the clock. -/
inductive TimeOp where
  | setTimezone (timezone : Option CString) (setenv : Bool)
  | updateSysTime (a : ClockArgs) (env : ClockEnv) (took : Bool)
  | pass (seconds : ℕ)

def setClock (sets : List Byte → Option ℕ) (a : ClockArgs) (env : ClockEnv) (took : Bool)
    (clock : ℕ) : ℕ :=
  if took = true then ((rlUpdateSysTime a env).commands.head?.bind sets).getD clock else clock

def timeMachine (zones : List Byte → Zone) (sets : List Byte → Option ℕ) : Machine TimeWorld TimeOp where
  enabled _
    | .updateSysTime _ env took => (env.date = some (.exited 0) → took = true) ∧
        (env.date = none → took = false)
    | _ => True
  next w
    | .setTimezone timezone setenv => (rlSetTimezone zones timezone setenv w).2
    | .updateSysTime a env took => { w with clock := setClock sets a env took w.clock }
    | .pass seconds => { w with clock := w.clock + seconds }

namespace TimeOp

def elapsed : TimeOp → ℕ
  | pass seconds => seconds
  | _ => 0

def Leaves : TimeOp → Prop
  | updateSysTime a _ took => acceptsTime a = false ∨ took = false
  | _ => True

end TimeOp

section Setting

variable {a : ClockArgs} {zones : List Byte → Zone} {sets : List Byte → Option ℕ} {w : TimeWorld}

theorem dateBuf_accepted (h : acceptsTime a = true) (stack : List Byte) :
    dateBuf a stack = dateCommand a := by
  have hlength := dateCommand_length h
  have hholds := (Buffer.mk stack []).snprintf_holds (show 0 < 64 by decide) (dateCommand_nonzero h)
  rw [List.take_of_length_le (by omega)] at hholds
  exact hholds.string

theorem sets_accepted (hsets : SetsUtc sets) (h : acceptsTime a = true) (stack : List Byte) :
    sets (dateBuf a stack) = some a.civil.seconds := by
  obtain ⟨hvalid, hyear⟩ := (acceptsTime_iff a).mp h
  rw [dateBuf_accepted h, dateCommand_accepted h]
  exact hsets a.civil hvalid hyear

theorem setClock_accepted (hsets : SetsUtc sets) (h : acceptsTime a = true) {env : ClockEnv}
    (hdate : env.date = some (.exited 0)) (clock : ℕ) :
    setClock sets a env true clock = a.civil.seconds := by
  have hran : env.date ≠ none := by simp [hdate]
  simp only [setClock, ↓reduceIte, rlUpdateSysTime_commands h hran, List.head?_cons, Option.bind_some,
    sets_accepted hsets h, Option.getD_some]

theorem next_leaves {op : TimeOp} (h : op.Leaves) (w : TimeWorld) :
    ((timeMachine zones sets).next w op).clock = w.clock + op.elapsed := by
  cases op with
  | setTimezone timezone setenv =>
    change (rlSetTimezone zones timezone setenv w).2.clock = w.clock
    cases timezone with
    | none => rfl
    | some name =>
      rw [rlSetTimezone]
      split_ifs <;> rfl
  | updateSysTime a env took =>
    change setClock sets a env took w.clock = w.clock
    rcases h with hrejects | rfl
    · simp only [setClock, rlUpdateSysTime, hrejects, ↓reduceIte, List.head?_nil, Option.bind_none,
        Option.getD_none, ite_self]
    · rfl
  | pass seconds => rfl

theorem exec_leaves {ops : List TimeOp} (h : ∀ op ∈ ops, op.Leaves) (w : TimeWorld) :
    ((timeMachine zones sets).exec w ops).clock = w.clock + (ops.map TimeOp.elapsed).sum := by
  induction ops generalizing w with
  | nil => rfl
  | cons op ops ih =>
    have hnext : ((timeMachine zones sets).next w op).clock = w.clock + op.elapsed :=
      next_leaves (h op List.mem_cons_self) w
    rw [Machine.exec_cons, ih (fun op' h' => h op' (List.mem_cons_of_mem op h')), hnext, List.map_cons,
      List.sum_cons, Nat.add_assoc]

end Setting

section Reading

variable {sets : List Byte → Option ℕ} {w : TimeWorld} {r : ReadClock}

theorem read_succeeds (htime : r.time = true) (hlocal : r.localtime = true) (w : TimeWorld)
    (old : RlTime) : rlGetTimeStamp r w old = (↑w.clock, w.zone.localtime w.clock) ∧
      rlGetTime r w old = (RL_SUCCESS, w.zone.localtime w.clock) := by
  simp only [rlGetTimeStamp, rlGetTime, htime, hlocal, Bool.true_eq_false, ↓reduceIte, and_self]

theorem read_after_setting (zones : List Byte → Zone) (hsets : SetsUtc sets) {w : TimeWorld}
    {front back : List TimeOp} {a : ClockArgs} {env : ClockEnv} {took : Bool}
    (hvalid : (timeMachine zones sets).Valid w (front ++ .updateSysTime a env took :: back))
    (ha : acceptsTime a = true) (hdate : env.date = some (.exited 0))
    (hback : ∀ op ∈ back, op.Leaves) (htime : r.time = true) (hlocal : r.localtime = true)
    (old : RlTime) :
    let t := a.civil.seconds + (back.map TimeOp.elapsed).sum
    let last := (timeMachine zones sets).exec w (front ++ .updateSysTime a env took :: back)
    rlGetTimeStamp r last old = (↑t, last.zone.localtime t) ∧
      rlGetTime r last old = (RL_SUCCESS, last.zone.localtime t) := by
  intro t last
  obtain ⟨_, henabled, _⟩ := ((timeMachine zones sets).valid_append _ _ _).mp hvalid
  obtain rfl : took = true := henabled.1 hdate
  have hclock : last.clock = t := by
    change ((timeMachine zones sets).exec w (front ++ .updateSysTime a env true :: back)).clock = t
    rw [Machine.exec_append, Machine.exec_cons, exec_leaves hback]
    change setClock sets a env true _ + _ = t
    rw [setClock_accepted hsets ha hdate]
  have hread := read_succeeds htime hlocal last old
  rwa [hclock] at hread

def ClockArgs.ofTime (tm : RlTime) : ClockArgs where
  year := .ofInt 32 (tm.tmYear + 1900)
  mon := .ofInt 32 (tm.tmMon + 1)
  day := .ofInt 32 tm.tmMday
  hour := .ofInt 32 tm.tmHour
  min := .ofInt 32 tm.tmMin
  sec := .ofInt 32 tm.tmSec

theorem ofTime_civil {c : CivilTime} (hc : c.Valid) (hyear : c.year < 2201) (isdst gmtoff : ℤ) (zone : ℕ) :
    (ClockArgs.ofTime { brokenDown c with tmIsdst := isdst, tmGmtoff := gmtoff, tmZone := zone }).civil =
      c := by
  have hword {i : ℤ} {n : ℕ} (hi : i = n) (hn : n < 2 ^ 32) : (BitVec.ofInt 32 i).toNat = n := by
    rw [hi, BitVec.ofInt_natCast, BitVec.toNat_ofNat, Nat.mod_eq_of_lt hn]
  have hlast : monthLength c.year c.month ≤ 31 := by
    rw [monthLength]
    split_ifs <;> decide
  obtain ⟨hfirst, hmonth, hday, hhour, hminute, hsecond⟩ := hc
  simp only [ClockArgs.ofTime, ClockArgs.civil, brokenDown]
  rw [hword (n := c.year) (by omega) (by omega), hword (n := c.month) (by omega) (by omega),
    hword rfl (by omega), hword rfl (by omega), hword rfl (by omega), hword rfl (by omega)]

def aheadByEight : Zone where
  offset _ := 28800
  localtime t := { brokenDown (CivilTime.breakdown (t + 28800)) with tmGmtoff := 28800 }
  lawful t n hn := by
    obtain rfl : t + 28800 = n := by omega
    exact ⟨0, 0, rfl⟩

def dateSets (command : List Byte) : Option ℕ :=
  match sscanf commandFormat command with
  | [.number year, .number mon, .number day, .number hour, .number min, .number sec] =>
    some (CivilTime.seconds ⟨year.toNat, mon.toNat, day.toNat, hour.toNat, min.toNat, sec.toNat⟩)
  | _ => none

theorem dateSets_utc : SetsUtc dateSets := by
  intro c hvalid hyear
  obtain ⟨a, rfl⟩ : ∃ a : ClockArgs, a.civil = c := ⟨_, ofTime_civil hvalid hyear 0 0 0⟩
  have haccepts : acceptsTime a = true := (acceptsTime_iff a).mpr ⟨hvalid, hyear⟩
  have hread := dateCommand_read haccepts
  rw [dateCommand_accepted haccepts] at hread
  have hwide (v : BitVec 32) : (v.setWidth 64).toNat = v.toNat := by
    rw [BitVec.toNat_setWidth]
    exact Nat.mod_eq_of_lt (v.isLt.trans (by decide))
  change dateSets (_ ++ (signedDecimal 4 a.year.toNat ++ (_ ++ (signedDecimal 2 a.mon.toNat ++ (_ ++
    (signedDecimal 2 a.day.toNat ++ _)))))) = _
  rw [dateSets]
  simp only [hread, ClockArgs.numbers, List.map_cons, List.map_nil, hwide, ClockArgs.civil]

def bothSucceed : ClockEnv := ⟨List.replicate 64 0, some (.exited 0), some (.exited 0)⟩

theorem minute_valid : (timeMachine (fun _ => aheadByEight) dateSets).Valid ⟨0, aheadByEight⟩
    ([.setTimezone (some ⟨text "CST-8", by decide⟩) true] ++
      .updateSysTime ⟨2024, 2, 29, 12, 30, 45⟩ bothSucceed true :: [.pass 60]) :=
  ⟨trivial, ⟨fun _ => rfl, fun h => absurd h (by decide)⟩, trivial, trivial⟩

theorem read_after_setting_minute :
    let ops : List TimeOp := [.setTimezone (some ⟨text "CST-8", by decide⟩) true] ++
      .updateSysTime ⟨2024, 2, 29, 12, 30, 45⟩ bothSucceed true :: [.pass 60]
    let t := (ClockArgs.mk 2024 2 29 12 30 45).civil.seconds + ([.pass 60].map TimeOp.elapsed).sum
    let last := (timeMachine (fun _ => aheadByEight) dateSets).exec ⟨0, aheadByEight⟩ ops
    rlGetTimeStamp ⟨true, true⟩ last .zero = (↑t, last.zone.localtime t) ∧
      rlGetTime ⟨true, true⟩ last .zero = (RL_SUCCESS, last.zone.localtime t) :=
  read_after_setting (fun _ => aheadByEight) dateSets_utc minute_valid (by decide) rfl
    (by simp [TimeOp.Leaves]) rfl rfl .zero

/-- To set the clock to the local time that was read moves it by the offset of the zone, because what
`rl_update_sys_time` is given is taken for UTC. -/
theorem set_what_was_read (hsets : SetsUtc sets) (htime : r.time = true) (hlocal : r.localtime = true)
    {t : ℕ} (hoffset : w.clock + w.zone.offset w.clock = t)
    (ht : t < (⟨2201, 1, 1, 0, 0, 0⟩ : CivilTime).seconds) (old : RlTime) {env : ClockEnv}
    (hdate : env.date = some (.exited 0)) :
    let a := ClockArgs.ofTime (rlGetTime r w old).2
    acceptsTime a = true ∧ setClock sets a env true w.clock = t ∧
      (setClock sets a env true w.clock = w.clock ↔ w.zone.offset w.clock = 0) := by
  intro a
  obtain ⟨hvalid, hyear⟩ := (CivilTime.exists_breakdown (by decide)).mp ⟨t, ht, rfl⟩
  have hcivil : a.civil = CivilTime.breakdown t := by
    have hread := (read_succeeds htime hlocal w old).2
    obtain ⟨isdst, name, hlawful⟩ := w.zone.lawful w.clock t hoffset
    change (ClockArgs.ofTime (rlGetTime r w old).2).civil = _
    rw [hread, hlawful]
    exact ofTime_civil hvalid hyear _ _ _
  have haccepts : acceptsTime a = true := by
    rw [acceptsTime_iff, hcivil]
    exact ⟨hvalid, hyear⟩
  have hset : setClock sets a env true w.clock = t := by
    rw [setClock_accepted hsets haccepts hdate, hcivil, (CivilTime.breakdown_counts t).2]
  refine ⟨haccepts, hset, ?_⟩
  rw [hset]
  omega

theorem set_what_was_read_epoch :
    let a := ClockArgs.ofTime (rlGetTime ⟨true, true⟩ ⟨0, aheadByEight⟩ .zero).2
    acceptsTime a = true ∧ setClock dateSets a bothSucceed true 0 = 28800 ∧
      (setClock dateSets a bothSucceed true 0 = 0 ↔ aheadByEight.offset 0 = 0) :=
  set_what_was_read (w := ⟨0, aheadByEight⟩) dateSets_utc rfl rfl rfl (by decide +kernel) .zero rfl

end Reading

end RlLibrary.Time
