import BleKeyboard.Data.KeyedInsert
import BleKeyboard.Data.Machine
import BleKeyboard.Sched.Rtc

namespace BleKeyboard.Sched

open BleKeyboard.Ble (RetCode nrfSuccess nrfErrorNoMem)
open BleKeyboard.Data

/-! The application timers (`app_timer2.c`).

All timers share one compare register.  A start or a stop is a request, which the interrupt of the
counter serves; the interrupt then hands the timers that have expired to the scheduler and sets the
register for the next one.  Ticks pass between the parts of the interrupt handler as they do
outside. -/

/-- `APP_TIMER_SAFE_WINDOW`, `APP_TIMER_TICKS` of 300 seconds. -/
def appTimerSafeWindow : Nat := 4915200

def appTimerRtcMaxValue : Nat := drvRtcMaxCnt - appTimerSafeWindow

def appTimerConfigOpQueueSize : Nat := 10

/-- `app_timer_t`.  The last two fields are bookkeeping of the model: the tick of the last start,
and the ticks in which the expiries since then were put into the scheduler. -/
structure AppTimer where
  endVal : Nat
  repeatPeriod : Nat
  active : Bool
  startedAt : Nat
  posts : List Nat
deriving DecidableEq, Repr

def AppTimer.create (repeated : Bool) : AppTimer :=
  { endVal := 0, repeatPeriod := if repeated then 1 else 0, active := false, startedAt := 0,
    posts := [] }

inductive TimerReq (ι : Type*) where
  | start (timer : ι)
  | stop (timer : ι)
deriving DecidableEq, Repr

def TimerReq.timer {ι : Type*} : TimerReq ι → ι
  | .start timer => timer
  | .stop timer => timer

inductive IrqPart where
  | overflow
  | compare0
  | compare1
  | requests
  | update
deriving DecidableEq, Repr

structure AppTimers (ι : Type*) where
  timers : ι → AppTimer
  sortlist : List ι
  activeTimer : Option ι
  requests : List (TimerReq ι)
  baseCounter : Nat
  stamp64 : Nat
  rtc : Rtc
  part : IrqPart

inductive AppTimersInput (ι : Type*) where
  | tick (extra : Bool)
  | start (timer : ι) (timeoutTicks : Nat)
  | stop (timer : ι)
  | interrupt (delays : RtcDelays)

/-- What `get_now` makes of the three values that it reads. -/
def nowOf (base counter stamp : Nat) : Nat :=
  if base + counter < stamp then base + counter + (drvRtcMaxCnt + 1) else base + counter

namespace AppTimers

variable {ι : Type*} [DecidableEq ι]

def init (repeated : ι → Bool) : AppTimers ι :=
  { timers := fun timer => AppTimer.create (repeated timer)
    sortlist := []
    activeTimer := none
    requests := []
    baseCounter := 0
    stamp64 := 0
    rtc :=
      { clock := { time := 0, running := false, overflow := false, compare1 := false }
        cc := 0, written := 0, compareEnabled := false, compare := false }
    part := .overflow }

variable (system : AppTimers ι)

def getNow : Nat := nowOf system.baseCounter system.rtc.clock.counter system.stamp64

def modify (timer : ι) (change : AppTimer → AppTimer) : AppTimers ι :=
  { system with timers := Function.update system.timers timer (change (system.timers timer)) }

def endVal (timer : ι) : Nat := (system.timers timer).endVal

/-- `nrf_sortlist_add` with `compare_func`. -/
def nrfSortlistAdd (timer : ι) : AppTimers ι :=
  { system with sortlist := insertByKey system.endVal timer system.sortlist }

def eventPut (timer : ι) : AppTimers ι :=
  system.modify timer fun data => { data with posts := data.posts ++ [system.getNow] }

def timerExpire (timer : ι) : AppTimers ι :=
  if (system.timers timer).active then
    if system.endVal timer ≤ system.getNow then
      if (system.timers timer).repeatPeriod = 0 then
        (system.modify timer fun data => { data with active := false }).eventPut timer
      else
        ((system.eventPut timer).modify timer fun data =>
          { data with endVal := data.endVal + data.repeatPeriod }).nrfSortlistAdd timer
    else system.nrfSortlistAdd timer
  else system

/-- `cc_val`; what is left is cut to 32 bits.  The source reads the counter again after `get_now`;
here no tick comes between the two reads. -/
def ccVal (timer : ι) : Nat :=
  if appTimerRtcMaxValue < (system.endVal timer - system.getNow) % 2 ^ 32 then
    system.rtc.clock.counter + appTimerRtcMaxValue
  else system.endVal timer

/-- `rtc_schedule`, whose second result is false whenever the first is true. -/
def rtcSchedule (timer : ι) (delays : RtcDelays) : Bool × AppTimers ι :=
  if system.getNow < system.endVal timer then
    let result := system.rtc.windowedCompareSet (system.ccVal timer) appTimerSafeWindow delays
    let system := { system with rtc := result.2 }
    if result.1 = nrfSuccess then (true, system) else (false, system.timerExpire timer)
  else (false, { system with rtc := system.rtc.compareDisable }.timerExpire timer)

/-- The timer that the compare register is set for goes back into the list. -/
def putBack : AppTimers ι :=
  match system.activeTimer with
  | none => system
  | some active => if (system.timers active).active then system.nrfSortlistAdd active else system

def rtcReconf (next : ι) : Bool :=
  match system.activeTimer with
  | none => true
  | some active => system.endVal next < system.endVal active

def popAndSchedule (delays : RtcDelays) : Bool × AppTimers ι :=
  match system.sortlist with
  | [] => (false, system)
  | next :: rest =>
      let result := { system with sortlist := rest }.rtcSchedule next delays
      if result.1 then
        let rtc := if result.2.activeTimer = none then result.2.rtc.start else result.2.rtc
        (false, { result.2 with rtc, activeTimer := some next })
      else (true, { result.2 with activeTimer := none })

/-- One pass of the loop of `rtc_update`, and whether another one follows. -/
def rtcUpdate (delays : RtcDelays) : Bool × AppTimers ι :=
  match system.sortlist with
  | [] =>
      (false, if system.activeTimer = none then { system with rtc := system.rtc.stop } else system)
  | next :: _ =>
      if system.rtcReconf next then system.putBack.popAndSchedule delays else (false, system)

def serve : TimerReq ι → AppTimers ι
  | .start timer =>
      if (system.timers timer).active then system
      else (system.modify timer fun data => { data with active := true }).nrfSortlistAdd timer
  | .stop timer =>
      if system.activeTimer = some timer then { system with activeTimer := none }
      else { system with sortlist := system.sortlist.erase timer }

def timerReqProcess : AppTimers ι := system.requests.foldl serve { system with requests := [] }

def onCompareEvt : AppTimers ι :=
  match system.activeTimer with
  | none => system
  | some active => { system.timerExpire active with activeTimer := none }

def overflowPending : AppTimers ι :=
  if system.rtc.clock.overflow then
    { system with
      rtc := { system.rtc with clock := { system.rtc.clock with overflow := false } }
      baseCounter := system.baseCounter + (drvRtcMaxCnt + 1) }
  else system

def comparePending : AppTimers ι :=
  if system.rtc.compare then
    { system with rtc := { system.rtc with compare := false } }.onCompareEvt
  else system

def compare1Pending : AppTimers ι :=
  if system.rtc.clock.compare1 then
    { system with
      rtc := { system.rtc with clock := { system.rtc.clock with compare1 := false } }
      stamp64 := system.getNow }
  else system

/-- `rtc_irq`, one part at a time. -/
def rtcIrq (delays : RtcDelays) : AppTimers ι :=
  match system.part with
  | .overflow => { system.overflowPending with part := .compare0 }
  | .compare0 => { system.comparePending with part := .compare1 }
  | .compare1 => { system.compare1Pending with part := .requests }
  | .requests => { system.timerReqProcess with part := .update }
  | .update =>
      let result := system.rtcUpdate delays
      { result.2 with part := if result.1 then .update else .overflow }

def timerReqSchedule (request : TimerReq ι) : RetCode × AppTimers ι :=
  if system.requests.length < appTimerConfigOpQueueSize then
    (nrfSuccess, { system with requests := system.requests ++ [request] })
  else (nrfErrorNoMem, system)

def appTimerStart (timer : ι) (timeoutTicks : Nat) : RetCode × AppTimers ι :=
  if (system.timers timer).active then (nrfSuccess, system)
  else
    let system := system.modify timer fun data =>
      { data with
        endVal := system.getNow + timeoutTicks
        repeatPeriod := if data.repeatPeriod ≠ 0 then timeoutTicks else 0
        startedAt := system.getNow, posts := [] }
    system.timerReqSchedule (.start timer)

def appTimerStop (timer : ι) : RetCode × AppTimers ι :=
  (system.modify timer fun data => { data with active := false }).timerReqSchedule (.stop timer)

def step : AppTimersInput ι → AppTimers ι
  | .tick extra => { system with rtc := system.rtc.tick extra }
  | .start timer timeoutTicks => (system.appTimerStart timer timeoutTicks).2
  | .stop timer => (system.appTimerStop timer).2
  | .interrupt delays => system.rtcIrq delays

end AppTimers

end BleKeyboard.Sched
