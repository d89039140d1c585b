import BleKeyboard.Ble.Hids
import Mathlib.Logic.Function.Iterate

namespace BleKeyboard.Sched

open BleKeyboard.Ble (RetCode nrfSuccess nrfErrorTimeout)

/-! The real-time counter and its driver (`drv_rtc.c`).

Ticks pass between any two accesses to the registers.  A tick may come with a compare event that
nobody asked for: the events of a compare register that was set to the next tick or overwritten in
its last one are such events, and the others are certain. -/

/-- `DRV_RTC_MAX_CNT` and `RTC_COUNTER_COUNTER_Msk`. -/
def drvRtcMaxCnt : Nat := 0xFFFFFF

/-- The value of the compare register 1, `DRV_RTC_MAX_CNT >> 1`. -/
def drvRtcHalf : Nat := 0x7FFFFF

/-- The ticks since the counter was first started, with the
overflow event and the event of compare register 1. -/
structure RtcClock where
  time : Nat
  running : Bool
  overflow : Bool
  compare1 : Bool
deriving DecidableEq, Repr

/-- Compare register 0, the tick in which it was written, and its event. -/
structure Rtc where
  clock : RtcClock
  cc : Nat
  written : Nat
  compareEnabled : Bool
  compare : Bool
deriving DecidableEq, Repr

namespace RtcClock

variable (clock : RtcClock)

/-- `nrf_rtc_counter_get`. -/
def counter : Nat := clock.time % (drvRtcMaxCnt + 1)

def tick : RtcClock :=
  if clock.running then
    let time := clock.time + 1
    { clock with
      time
      overflow := clock.overflow || time % (drvRtcMaxCnt + 1) = 0
      compare1 := clock.compare1 || time % (drvRtcMaxCnt + 1) = drvRtcHalf }
  else clock

end RtcClock

/-- `ticks_sub`, which is also `app_timer_cnt_diff_compute`. -/
def ticksSub (first second : Nat) : Nat :=
  (first + (drvRtcMaxCnt + 1) - second % (drvRtcMaxCnt + 1)) % (drvRtcMaxCnt + 1)

/-- The ticks that pass in a call of `drv_rtc_windowed_compare_set`,
each with the compare event it may bring. -/
structure RtcDelays where
  atEntry : List Bool
  onPrefiring : List Bool
  beforeWrite : List Bool
  beforeCheck : List Bool
  beforeRecheck : List Bool
deriving DecidableEq, Repr

def RtcDelays.none : RtcDelays := ⟨[], [], [], [], []⟩

def RtcDelays.total (delays : RtcDelays) : Nat :=
  delays.atEntry.length + delays.onPrefiring.length + delays.beforeWrite.length +
    delays.beforeCheck.length +
    delays.beforeRecheck.length

namespace Rtc

variable (rtc : Rtc)

/-- The compare event is certain when the register was written two ticks before or earlier. -/
def tick (extra : Bool) : Rtc :=
  let clock := rtc.clock.tick
  { rtc with
    clock
    compare := rtc.compare ||
      rtc.compareEnabled && rtc.clock.running &&
      (extra || clock.counter = rtc.cc && rtc.written + 2 ≤ clock.time) }

def elapse (ticks : List Bool) : Rtc := ticks.foldl tick rtc

def start : Rtc := { rtc with clock := { rtc.clock with running := true } }

def stop : Rtc := { rtc with clock := { rtc.clock with running := false } }

/-- `nrf_rtc_cc_set`; the register has 24 bits. -/
def ccSet (value : Nat) : Rtc :=
  { rtc with cc := value % (drvRtcMaxCnt + 1), written := rtc.clock.time }

def compareEnable : Rtc := { rtc with compareEnabled := true }

def compareDisable : Rtc := { rtc with compareEnabled := false }

/-- The beginning of `drv_rtc_windowed_compare_set`: the register is moved away from the counter,
and an event of its previous value is waited for and cleared. -/
def clearPrefiring (delays : RtcDelays) : Rtc :=
  let rtc := rtc.compareDisable.elapse delays.atEntry
  let prevCcSet := rtc.cc
  let now := rtc.clock.counter
  let rtc := { rtc.ccSet now with compare := false }
  if ticksSub prevCcSet now = 1 then { rtc.elapse delays.onPrefiring with compare := false }
  else rtc

/-- The event of the next tick may be missed, so the register is set to the one after it. -/
def compareNext (absValue : Nat) (delays : RtcDelays) : RetCode × Rtc :=
  let now := rtc.clock.counter
  let rtc := ((rtc.elapse delays.beforeWrite).ccSet (absValue + 1)).elapse delays.beforeCheck
  if now ≠ rtc.clock.counter then (nrfErrorTimeout, rtc) else (nrfSuccess, rtc)

def compareLater (absValue safeWindow : Nat) (delays : RtcDelays) : RetCode × Rtc :=
  let rtc := ((rtc.elapse delays.beforeWrite).ccSet absValue).elapse delays.beforeCheck
  let now := rtc.clock.counter
  let diff := ticksSub (absValue + drvRtcMaxCnt) now
  if drvRtcMaxCnt - safeWindow < diff then (nrfErrorTimeout, rtc)
  else if diff = 0 then
    let rtc := (rtc.ccSet (absValue + 1)).elapse delays.beforeRecheck
    if now ≠ rtc.clock.counter then (nrfErrorTimeout, rtc) else (nrfSuccess, rtc)
  else (nrfSuccess, rtc)

/-- `drv_rtc_windowed_compare_set` for compare register 0. -/
def windowedCompareSet (absValue safeWindow : Nat) (delays : RtcDelays) : RetCode × Rtc :=
  let rtc := (rtc.clearPrefiring delays).compareEnable
  if ticksSub (absValue % (drvRtcMaxCnt + 1)) rtc.clock.counter = 1 then
    rtc.compareNext (absValue % (drvRtcMaxCnt + 1)) delays
  else rtc.compareLater (absValue % (drvRtcMaxCnt + 1)) safeWindow delays

end Rtc

namespace RtcClock

variable {clock : RtcClock} {count : Nat}

@[simp] theorem tick_running : clock.tick.running = clock.running := by
  simp only [tick]
  split
  · rfl
  · rfl

theorem iterate_running : (tick^[count] clock).running = clock.running := by
  induction count generalizing clock with
  | zero => rfl
  | succ count ih => rw [Function.iterate_succ_apply, ih, tick_running]

theorem iterate_time : (tick^[count] clock).time = if clock.running then clock.time + count
    else clock.time := by
  induction count generalizing clock with
  | zero => simp
  | succ count ih =>
      rw [Function.iterate_succ_apply, ih, tick_running]
      cases running : clock.running with
      | false => simp [tick, running]
      | true =>
          simp only [tick, running, if_true]
          omega

theorem le_iterate_time : clock.time ≤ (tick^[count] clock).time := by
  rw [iterate_time]
  split <;> omega

theorem iterate_time_le : (tick^[count] clock).time ≤ clock.time + count := by
  rw [iterate_time]
  split <;> omega

end RtcClock

structure Rtc.Elapsed (before after : Rtc) (count : Nat) : Prop where
  clock : after.clock = RtcClock.tick^[count] before.clock
  cc : after.cc = before.cc
  written : after.written = before.written
  compareEnabled : after.compareEnabled = before.compareEnabled

structure Rtc.Fires (rtc : Rtc) (bound : Nat) : Prop where
  enabled : rtc.compareEnabled = true
  due : ∃ fires, rtc.clock.time < fires ∧ fires ≤ bound ∧ fires % (drvRtcMaxCnt + 1) = rtc.cc ∧
    rtc.written + 2 ≤ fires

namespace Rtc

variable {rtc : Rtc} {bound : Nat}

theorem compareEnable_clock : rtc.compareEnable.clock = rtc.clock := rfl

theorem compareEnable_compareEnabled : rtc.compareEnable.compareEnabled = true := rfl

theorem elapse_elapsed (ticks : List Bool) : Elapsed rtc (rtc.elapse ticks) ticks.length := by
  induction ticks generalizing rtc with
  | nil => exact ⟨rfl, rfl, rfl, rfl⟩
  | cons extra rest ih =>
      have later := @ih (rtc.tick extra)
      exact ⟨later.clock, later.cc, later.written, later.compareEnabled⟩

theorem Fires.tick (fires : rtc.Fires bound) (running : rtc.clock.running = true) (extra : Bool) :
    (rtc.tick extra).compare = true ∨ (rtc.tick extra).Fires bound := by
  rcases fires.due with ⟨due, later, within, cc, written⟩
  have time : rtc.clock.tick.time = rtc.clock.time + 1 := by simp [RtcClock.tick, running]
  rcases Nat.eq_or_lt_of_le (Nat.succ_le_of_lt later) with now | future
  · have now : rtc.clock.time + 1 = due := now
    have counter : rtc.clock.tick.counter = rtc.cc := by rw [RtcClock.counter, time, now, cc]
    left
    simp only [Rtc.tick, fires.enabled, running, counter, Bool.true_and, decide_true]
    have early : rtc.written + 2 ≤ rtc.clock.tick.time := by omega
    simp [early]
  · exact .inr ⟨fires.enabled, due, by simp only [Rtc.tick]; omega, within, cc, written⟩

theorem Elapsed.time_le {after : Rtc} {count : Nat} (elapsed : Elapsed rtc after count) :
    rtc.clock.time ≤ after.clock.time ∧ after.clock.time ≤ rtc.clock.time + count := by
  rw [elapsed.clock]
  exact ⟨RtcClock.le_iterate_time, RtcClock.iterate_time_le⟩

theorem clearPrefiring_clock (delays : RtcDelays) :
    ∃ count ≤ delays.atEntry.length + delays.onPrefiring.length,
      (rtc.clearPrefiring delays).clock = RtcClock.tick^[count] rtc.clock := by
  have entered := @elapse_elapsed rtc.compareDisable delays.atEntry
  simp only [clearPrefiring]
  split
  · have waited := @elapse_elapsed
      { (rtc.compareDisable.elapse delays.atEntry).ccSet
          (rtc.compareDisable.elapse delays.atEntry).clock.counter with
        compare := false } delays.onPrefiring
    refine ⟨delays.onPrefiring.length + delays.atEntry.length, by omega, ?_⟩
    rw [Function.iterate_add_apply]
    exact waited.clock.trans (congrArg _ entered.clock)
  · exact ⟨delays.atEntry.length, by omega, entered.clock⟩

/-- What a call promises about its target: the event will come, or the target has been reached. -/
def Settled (target : Nat) (result : RetCode × Rtc) : Prop :=
  result.1 = nrfSuccess ∧ result.2.Fires (target + 1) ∨ result.1 = nrfErrorTimeout ∧
    target ≤ result.2.clock.time

theorem ccSet_elapsed (before after : List Bool) (value : Nat) :
    (((rtc.elapse before).ccSet value).elapse after).clock =
    RtcClock.tick^[after.length + before.length] rtc.clock ∧
      (((rtc.elapse before).ccSet value).elapse after).cc = value % (drvRtcMaxCnt + 1) ∧
      (((rtc.elapse before).ccSet value).elapse after).compareEnabled = rtc.compareEnabled ∧
      rtc.clock.time ≤ (((rtc.elapse before).ccSet value).elapse after).written ∧
      (((rtc.elapse before).ccSet value).elapse after).written ≤
        (((rtc.elapse before).ccSet value).elapse after).clock.time ∧
      (((rtc.elapse before).ccSet value).elapse after).clock.time ≤
        rtc.clock.time + before.length + after.length := by
  have waited := @elapse_elapsed rtc before
  have left := @elapse_elapsed ((rtc.elapse before).ccSet value) after
  have atWrite := waited.time_le
  have atEnd := left.time_le
  have written : ((rtc.elapse before).ccSet value).written = (rtc.elapse before).clock.time := rfl
  have clock : ((rtc.elapse before).ccSet value).clock = (rtc.elapse before).clock := rfl
  rw [clock] at atEnd
  refine ⟨?_, left.cc, left.compareEnabled.trans waited.compareEnabled, ?_, ?_, by omega⟩
  · rw [Function.iterate_add_apply]
    exact left.clock.trans (congrArg _ waited.clock)
  · rw [left.written, written]
    exact atWrite.1
  · rw [left.written, written]
    exact atEnd.1

theorem compareNext_clock {absValue : Nat} {delays : RtcDelays} :
    ∃ count ≤ delays.beforeWrite.length + delays.beforeCheck.length,
      (rtc.compareNext absValue delays).2.clock = RtcClock.tick^[count] rtc.clock := by
  have clock := (@ccSet_elapsed rtc delays.beforeWrite delays.beforeCheck (absValue + 1)).1
  simp only [compareNext]
  split
  · exact ⟨_, by omega, clock⟩
  · exact ⟨_, by omega, clock⟩

theorem compareLater_clock {absValue safeWindow : Nat} {delays : RtcDelays} :
    ∃ count ≤ delays.beforeWrite.length + delays.beforeCheck.length + delays.beforeRecheck.length,
      (rtc.compareLater absValue safeWindow delays).2.clock = RtcClock.tick^[count] rtc.clock := by
  have clock := (@ccSet_elapsed rtc delays.beforeWrite delays.beforeCheck absValue).1
  simp only [compareLater]
  generalize ((rtc.elapse delays.beforeWrite).ccSet absValue).elapse delays.beforeCheck =
    seen at clock ⊢
  have rechecked : ((seen.ccSet (absValue + 1)).elapse delays.beforeRecheck).clock =
      RtcClock.tick^[delays.beforeRecheck.length +
        (delays.beforeCheck.length + delays.beforeWrite.length)] rtc.clock := by
    rw [Function.iterate_add_apply]
    exact (elapse_elapsed delays.beforeRecheck).clock.trans (congrArg _ clock)
  split
  · exact ⟨_, by omega, clock⟩
  · split
    · split
      · exact ⟨_, by omega, rechecked⟩
      · exact ⟨_, by omega, rechecked⟩
    · exact ⟨_, by omega, clock⟩

theorem windowedCompareSet_clock {absValue safeWindow : Nat} {delays : RtcDelays} :
    ∃ count ≤ delays.total,
      (rtc.windowedCompareSet absValue safeWindow delays).2.clock =
      RtcClock.tick^[count] rtc.clock := by
  rcases @clearPrefiring_clock rtc delays with ⟨first, few, cleared⟩
  have total :
    delays.total = delays.atEntry.length + delays.onPrefiring.length + delays.beforeWrite.length +
    delays.beforeCheck.length + delays.beforeRecheck.length := rfl
  simp only [windowedCompareSet]
  split
  · rcases @compareNext_clock (rtc.clearPrefiring delays).compareEnable
        (absValue % (drvRtcMaxCnt + 1)) delays with
      ⟨second, more, clock⟩
    refine ⟨second + first, by omega, ?_⟩
    rw [clock, Function.iterate_add_apply, compareEnable_clock, cleared]
  · rcases @compareLater_clock (rtc.clearPrefiring delays).compareEnable
      (absValue % (drvRtcMaxCnt + 1)) safeWindow
      delays with ⟨second, more, clock⟩
    refine ⟨second + first, by omega, ?_⟩
    rw [clock, Function.iterate_add_apply, compareEnable_clock, cleared]

theorem compareNext_settled {absValue target : Nat} {delays : RtcDelays}
    (enabled : rtc.compareEnabled = true)
    (abs : absValue % (drvRtcMaxCnt + 1) = target % (drvRtcMaxCnt + 1))
    (next : target = rtc.clock.time + 1)
    (short : delays.total ≤ drvRtcMaxCnt) : Settled target (rtc.compareNext absValue delays) := by
  rcases @ccSet_elapsed rtc delays.beforeWrite delays.beforeCheck (absValue + 1) with
    ⟨_, cc, kept, earliest, written, latest⟩
  simp only [RtcDelays.total, drvRtcMaxCnt] at short
  simp only [compareNext]
  generalize ((rtc.elapse delays.beforeWrite).ccSet (absValue + 1)).elapse delays.beforeCheck = seen
    at *
  split
  · rename_i moved
    have later : seen.clock.time ≠ rtc.clock.time :=
      fun same => moved (by rw [RtcClock.counter, RtcClock.counter, same])
    refine .inr ⟨rfl, ?_⟩
    dsimp only
    omega
  · rename_i still
    have same : seen.clock.time = rtc.clock.time := by
      simp only [RtcClock.counter, drvRtcMaxCnt, ne_eq, not_not] at still
      omega
    refine .inl ⟨rfl, kept.trans enabled, target + 1, ?_, le_rfl, ?_, ?_⟩
    · dsimp only
      omega
    · rw [cc]
      simp only [drvRtcMaxCnt] at abs ⊢
      omega
    · dsimp only
      omega

theorem compareLater_settled {absValue safeWindow target : Nat} {delays : RtcDelays}
    (enabled : rtc.compareEnabled = true)
    (abs : absValue % (drvRtcMaxCnt + 1) = target % (drvRtcMaxCnt + 1))
    (window : safeWindow ≤ drvRtcMaxCnt)
    (ahead : target ≤ rtc.clock.time + (drvRtcMaxCnt - safeWindow))
    (behind : rtc.clock.time + delays.beforeWrite.length + delays.beforeCheck.length <
      target + safeWindow)
    (short : delays.total ≤ drvRtcMaxCnt) :
      Settled target (rtc.compareLater absValue safeWindow delays) := by
  rcases @ccSet_elapsed rtc delays.beforeWrite delays.beforeCheck absValue with
    ⟨_, cc, kept, earliest, written, latest⟩
  simp only [compareLater]
  generalize ((rtc.elapse delays.beforeWrite).ccSet absValue).elapse delays.beforeCheck = seen at *
  have rechecked := @elapse_elapsed (seen.ccSet (absValue + 1)) delays.beforeRecheck
  have atRecheck := rechecked.time_le
  have rewritten : (seen.ccSet (absValue + 1)).clock = seen.clock := rfl
  rw [rewritten] at atRecheck
  simp only [RtcDelays.total, drvRtcMaxCnt] at short abs window ahead
  -- What is left to the tick before the target, or how far the target is passed.
  have left (before : seen.clock.time < target) :
      ticksSub (absValue + drvRtcMaxCnt) seen.clock.counter = target - 1 - seen.clock.time := by
    simp only [ticksSub, RtcClock.counter, drvRtcMaxCnt]
    omega
  have passed (after : target ≤ seen.clock.time) :
      drvRtcMaxCnt - safeWindow < ticksSub (absValue + drvRtcMaxCnt) seen.clock.counter := by
    simp only [ticksSub, RtcClock.counter, drvRtcMaxCnt]
    omega
  split
  · rename_i far
    refine .inr ⟨rfl, Nat.le_of_not_lt fun before => ?_⟩
    rw [left before, drvRtcMaxCnt] at far
    omega
  · rename_i near
    have before : seen.clock.time < target := Nat.lt_of_not_le fun after => near (passed after)
    rw [left before]
    split
    · rename_i next
      split
      · rename_i moved
        have later : ((seen.ccSet (absValue + 1)).elapse delays.beforeRecheck).clock.time ≠
            seen.clock.time :=
          fun same => moved (by rw [RtcClock.counter, RtcClock.counter, same])
        refine .inr ⟨rfl, ?_⟩
        dsimp only
        omega
      · rename_i still
        have same : ((seen.ccSet (absValue + 1)).elapse delays.beforeRecheck).clock.time =
            seen.clock.time := by
          simp only [RtcClock.counter, drvRtcMaxCnt, ne_eq, not_not] at still
          omega
        refine .inl ⟨rfl, rechecked.compareEnabled.trans (kept.trans enabled), target + 1, ?_,
          le_rfl, ?_, ?_⟩
        · dsimp only
          omega
        · rw [rechecked.cc]
          simp only [ccSet, drvRtcMaxCnt]
          omega
        · rw [rechecked.written]
          simp only [ccSet]
          omega
    · rename_i more
      refine .inl ⟨rfl, kept.trans enabled, target, before, Nat.le_succ _, ?_, ?_⟩
      · rw [cc]
        simp only [drvRtcMaxCnt]
        omega
      · dsimp only
        omega

/-- However the counter moves during the call, a target that it
does not pass by the safe window is caught or reported. -/
theorem windowedCompareSet_settled {absValue safeWindow target : Nat} {delays : RtcDelays}
    (abs : absValue % (drvRtcMaxCnt + 1) = target % (drvRtcMaxCnt + 1))
    (future : rtc.clock.time < target)
    (near : target ≤ rtc.clock.time + (drvRtcMaxCnt - safeWindow))
    (window : safeWindow ≤ drvRtcMaxCnt) (short : delays.total < safeWindow) :
      Settled target (rtc.windowedCompareSet absValue safeWindow delays) := by
  rcases @clearPrefiring_clock rtc delays with ⟨count, few, clock⟩
  simp only [windowedCompareSet]
  have prepared :
      (rtc.clearPrefiring delays).compareEnable.clock = RtcClock.tick^[count] rtc.clock := by
    rw [compareEnable_clock, clock]
  have enabled := @compareEnable_compareEnabled (rtc.clearPrefiring delays)
  generalize (rtc.clearPrefiring delays).compareEnable = ready at *
  have earliest : rtc.clock.time ≤ ready.clock.time := by
    rw [prepared]
    exact RtcClock.le_iterate_time
  have latest : ready.clock.time ≤ rtc.clock.time + count := by
    rw [prepared]
    exact RtcClock.iterate_time_le
  have masked :
      absValue % (drvRtcMaxCnt + 1) % (drvRtcMaxCnt + 1) = target % (drvRtcMaxCnt + 1) := by
    rw [Nat.mod_mod, abs]
  have total :
    delays.total = delays.atEntry.length + delays.onPrefiring.length + delays.beforeWrite.length +
    delays.beforeCheck.length + delays.beforeRecheck.length := rfl
  have brief : delays.total ≤ drvRtcMaxCnt := (Nat.le_of_lt short).trans window
  split
  · rename_i one
    have next : target = ready.clock.time + 1 := by
      simp only [ticksSub, RtcClock.counter, drvRtcMaxCnt] at one near window abs
      omega
    exact compareNext_settled enabled masked next brief
  · exact compareLater_settled enabled masked window (by omega) (by omega) brief

end Rtc

end BleKeyboard.Sched
