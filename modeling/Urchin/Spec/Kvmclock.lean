import Urchin.Exec.Outcome

/-!
# The paravirtual clock (`arch/x86_64/kvmclock.rs`)

The host publishes a record: a time stamp counter value, the system time at that
moment, and the scale that turns counter ticks into nanoseconds. `getMonotonicTime`
reads the counter, and the record until two reads agree on a version.

`getCalendar` adds the monotonic time to the wall clock the host publishes, and
`getCalendarFromEpoch` turns the seconds since the epoch into a date, in cycles of 400, 100,
4 and one years counted from March.

`ClockSys` is the clock in use: the record in force, which the host replaces between the
calls, and the results so far.
-/

namespace Urchin

open Exec

structure PVClockVcpuTimeInfo where
  version : UInt32
  tscTimestamp : UInt64
  systemTime : UInt64
  tscToSystemMul : UInt32
  tscShift : Int8
  flags : UInt8
  deriving DecidableEq

namespace PVClockVcpuTimeInfo

def new : PVClockVcpuTimeInfo := ⟨0, 0, 0, 0, 0, 0⟩

/-- The bits a `u128` is shifted by for an `i8`: modulo 128, and negating the least `i8`
gives itself. -/
def shiftBits (shift : Int8) : ℕ :=
  (if 0 ≤ shift then shift else -shift).toUInt8.toNat % 128

/-- `shifted_delta`, in 128 bits. -/
def shiftedDelta (info : PVClockVcpuTimeInfo) (tscDelta : ℕ) : ℕ :=
  if 0 ≤ info.tscShift then tscDelta * 2 ^ shiftBits info.tscShift % 2 ^ 128
  else tscDelta / 2 ^ shiftBits info.tscShift

/-- What one round of the loop computes from the record it has read; the difference of
the counters is in 64 bits, the product in 128. -/
def scaled (info : PVClockVcpuTimeInfo) (nowtsc : UInt64) : UInt64 :=
  let tscDelta := (nowtsc - info.tscTimestamp).toNat
  UInt64.ofNat (info.shiftedDelta tscDelta * info.tscToSystemMul.toNat % 2 ^ 128 / 2 ^ 32)

end PVClockVcpuTimeInfo

/-- The loop of `get_monotonic_time`, for at most `fuel` rounds; `reads` are the
successive reads of the record, two in a round. -/
def getMonotonicTime (nowtsc : UInt64) : ℕ → (ℕ → PVClockVcpuTimeInfo) → Option UInt64
  | 0, _ => none
  | fuel + 1, reads =>
    let oldVal := reads 0
    let ret := oldVal.scaled nowtsc
    let newVal := reads 1
    if newVal.version &&& 1 ≠ 0 then getMonotonicTime nowtsc fuel fun i => reads (i + 2)
    else if newVal.version ≠ oldVal.version &&& ~~~1 then
      getMonotonicTime nowtsc fuel fun i => reads (i + 2)
    else some ret

/-! ## The calendar -/

structure PVClockWallClock where
  version : UInt32
  sec : UInt32
  nsec : UInt32
  deriving DecidableEq

def PVClockWallClock.new : PVClockWallClock := ⟨0, 0, 0⟩

structure CalendarTime where
  year : UInt16
  month : UInt8
  day : UInt8
  hour : UInt8
  min : UInt8
  sec : UInt8
  deriving DecidableEq

def daysOfMonth : List UInt64 := [0, 31, 61, 92, 122, 153, 184, 214, 245, 275, 306, 337]

def daysOfOneYear : UInt64 := 365

def daysOfFourYear : UInt64 := daysOfOneYear * 4 + 1

def daysOfHundredYear : UInt64 := daysOfFourYear * 25 - 1

def daysOfFourHundredYear : UInt64 := daysOfHundredYear * 4 + 1

/-- A subtraction with its overflow check, which the debug build has. -/
def checkedSub (a b : UInt64) : Except Panic UInt64 :=
  if b ≤ a then .ok (a - b) else .error (.explicit "attempt to subtract with overflow")

/-- The year from March, the day in it, and whether the day is the leap day that ends a
cycle: the first half of `get_calendar_from_epoch`. -/
def yearAndDay (dayFromMarch : UInt64) : UInt64 × UInt64 × Bool :=
  let year := 400 * (dayFromMarch / daysOfFourHundredYear)
  let day := dayFromMarch % daysOfFourHundredYear
  let n := day / daysOfHundredYear
  let year := year + n * 100
  let day := day % daysOfHundredYear
  if n = 4 then (year, day, true)
  else
    let year := year + day / daysOfFourYear * 4
    let day := day % daysOfFourYear
    let n := day / daysOfOneYear
    (year + n, day % daysOfOneYear, n = 4)

/-- The year, the month and the day: its second half. -/
def yearMonthDay : UInt64 × UInt64 × Bool → Except Panic (UInt64 × UInt64 × UInt64)
  | (year, _, true) => .ok (year, 2, 29)
  | (year, day, false) => do
    let monthDiff := (day * 5 + 2) / 153
    let before ← match daysOfMonth[monthDiff.toNat]? with
      | some before => .ok before
      | none => .error .bounds
    let day := (← checkedSub day before) + 1
    if 9 < monthDiff then return (year + 1, ← checkedSub monthDiff 9, day)
    else return (year, monthDiff + 3, day)

def getCalendarFromEpoch (sec : UInt64) : Except Panic CalendarTime := do
  let second := sec % 60
  let minute := sec / 60 % 60
  let hour := sec / 3600 % 24
  let dayFromEpoch := sec / (24 * 60 * 60)
  let dayFromMarch := dayFromEpoch + (1969 * 365 + 1969 / 4 - 1969 / 100 + 1969 / 400 + 306)
  let (year, month, day) ← yearMonthDay (yearAndDay dayFromMarch)
  return ⟨year.toUInt16, month.toUInt8, day.toUInt8, hour.toUInt8, minute.toUInt8,
    second.toUInt8⟩

/-- The loop of `get_calendar` over the wall clock, as that of `getMonotonicTime`. -/
def readWallClock : ℕ → (ℕ → PVClockWallClock) → Option (UInt64 × UInt64)
  | 0, _ => none
  | fuel + 1, reads =>
    let oldVal := reads 0
    let newVal := reads 1
    if newVal.version &&& 1 ≠ 0 then readWallClock fuel fun i => reads (i + 2)
    else if newVal.version ≠ oldVal.version then readWallClock fuel fun i => reads (i + 2)
    else some (oldVal.sec.toUInt64, oldVal.nsec.toUInt64)

def secToNsec : UInt64 := 1000000000

/-- The monotonic time is taken twice, and the first result (`delta`) is dropped. -/
def getCalendar (fuel : ℕ) (wall : ℕ → PVClockWallClock) (nowtsc nowtsc' : UInt64)
    (reads reads' : ℕ → PVClockVcpuTimeInfo) : Option (Except Panic CalendarTime) := do
  let (wcSec, wcNsec) ← readWallClock fuel wall
  let _delta ← getMonotonicTime nowtsc fuel reads
  let monotonic ← getMonotonicTime nowtsc' fuel reads'
  let nsecFromEpoch := wcSec * secToNsec + wcNsec + monotonic
  let secFromEpoch := nsecFromEpoch / secToNsec
  return getCalendarFromEpoch secFromEpoch

/-! ## The clock in use -/

/-- The record in force, the record and the counter value of the last call, and the
results so far, oldest first. -/
structure ClockSys where
  info : PVClockVcpuTimeInfo
  last : Option (PVClockVcpuTimeInfo × UInt64)
  results : List UInt64

inductive ClockOp where
  | update (info : PVClockVcpuTimeInfo)
  | call (nowtsc : UInt64)

namespace ClockSys

def init (info : PVClockVcpuTimeInfo) : ClockSys := ⟨info, none, []⟩

/-- A call reads the record in force, which does not change under it. A call on a record
that is being written does not return. -/
def step (s : ClockSys) : ClockOp → Except Panic ClockSys
  | .update info => .ok { s with info := info }
  | .call nowtsc =>
    match getMonotonicTime nowtsc 1 fun _ => s.info with
    | some ret => .ok { s with last := some (s.info, nowtsc), results := s.results ++ [ret] }
    | none => .ok s

end ClockSys

end Urchin
