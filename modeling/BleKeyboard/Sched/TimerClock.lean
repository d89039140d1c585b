import BleKeyboard.Sched.AppTimer

namespace BleKeyboard.Sched

open BleKeyboard.Data

/-! The 64-bit time that `get_now` makes of a counter of 24 bits.

The base follows the counter's overflows when their interrupt is served, and the stamp taken in the
middle of each period tells whether an overflow is still to be served. -/

/-- The interrupts of the counter are served within `latency` ticks. -/
structure RtcClock.Prompt (latency : Nat) (clock : RtcClock) : Prop where
  overflow : clock.overflow = true → clock.counter < latency
  compare1 :
    clock.compare1 = true → drvRtcHalf ≤ clock.counter ∧ clock.counter < drvRtcHalf + latency

instance (latency : Nat) (clock : RtcClock) : Decidable (clock.Prompt latency) :=
  decidable_of_iff
    ((clock.overflow = true → clock.counter < latency) ∧
      (clock.compare1 = true → drvRtcHalf ≤ clock.counter ∧ clock.counter < drvRtcHalf + latency))
    ⟨fun both => ⟨both.1, both.2⟩, fun prompt => ⟨prompt.overflow, prompt.compare1⟩⟩

/-- What base and stamp know of the time. -/
structure RtcClock.Tracked (base stamp : Nat) (clock : RtcClock) : Prop where
  base : base + (if clock.overflow then drvRtcMaxCnt + 1 else 0) =
    (drvRtcMaxCnt + 1) * (clock.time / (drvRtcMaxCnt + 1))
  past : stamp ≤ clock.time
  recent :
    (drvRtcMaxCnt + 1) * (clock.time / (drvRtcMaxCnt + 1)) + drvRtcHalf ≤ stamp + (drvRtcMaxCnt + 1)
  half : drvRtcHalf ≤ clock.counter → clock.compare1 = true ∨
    (drvRtcMaxCnt + 1) * (clock.time / (drvRtcMaxCnt + 1)) + drvRtcHalf ≤ stamp
  late : stamp = 0 ∨ drvRtcHalf ≤ stamp % (drvRtcMaxCnt + 1)

namespace RtcClock

variable {clock : RtcClock} {base stamp latency : Nat}

theorem tick_fields (running : clock.running = true) : clock.tick.time = clock.time + 1 ∧
    clock.tick.overflow = (clock.overflow || decide ((clock.time + 1) % (drvRtcMaxCnt + 1) = 0)) ∧
    clock.tick.compare1 =
    (clock.compare1 || decide ((clock.time + 1) % (drvRtcMaxCnt + 1) = drvRtcHalf)) := by
  simp [RtcClock.tick, running]

theorem Tracked.tick (tracked : clock.Tracked base stamp) (prompt : clock.Prompt latency)
    (served : clock.tick.Prompt latency) (short : latency ≤ drvRtcHalf) :
      clock.tick.Tracked base stamp := by
  cases running : clock.running with
  | false =>
      have still : clock.tick = clock := by simp [RtcClock.tick, running]
      rw [still]
      exact tracked
  | true =>
      rcases tracked with ⟨counted, past, recent, half, late⟩
      rcases prompt with ⟨overflow, _⟩
      rcases served with ⟨_, compare1⟩
      rcases tick_fields running with ⟨time, overflow', compare1'⟩
      simp only [drvRtcMaxCnt, drvRtcHalf] at overflow' compare1'
      simp only [drvRtcMaxCnt, drvRtcHalf, counter] at counted recent half late overflow short
      simp only [drvRtcMaxCnt, drvRtcHalf, counter, time, compare1', Bool.or_eq_true] at compare1
      by_cases wraps : (clock.time + 1) % 16777216 = 0
      · -- The stamp of the period that ends has been taken, and its own overflow been served.
        have taken : clock.compare1 = false := by
          rw [Bool.eq_false_iff]
          intro pending
          have bound := (compare1 (.inl pending)).1
          omega
        have none : clock.overflow = false := by
          rw [Bool.eq_false_iff]
          intro pending
          have bound := overflow pending
          omega
        have stamped := half (by omega)
        rw [taken] at stamped
        rw [none] at counted
        simp at stamped counted
        refine ⟨?_, ?_, ?_, fun high => ?_, late⟩
        · simp only [drvRtcMaxCnt, time, overflow', wraps, decide_true, Bool.or_true, if_true]
          omega
        · omega
        · simp only [drvRtcMaxCnt, drvRtcHalf, time]
          omega
        · simp only [counter, drvRtcMaxCnt, drvRtcHalf, time] at high
          omega
      · refine ⟨?_, ?_, ?_, fun high => ?_, late⟩
        · simp only [drvRtcMaxCnt, time, overflow', wraps, decide_false, Bool.or_false]
          omega
        · omega
        · simp only [drvRtcMaxCnt, drvRtcHalf, time]
          omega
        · simp only [counter, drvRtcMaxCnt, drvRtcHalf, time, compare1', Bool.or_eq_true] at high ⊢
          by_cases first : (clock.time + 1) % 16777216 = 8388607
          · exact .inl (.inr (decide_eq_true first))
          · rcases half (by omega) with pending | stamped
            · exact .inl (.inl pending)
            · exact .inr (by omega)

theorem Tracked.iterate (tracked : clock.Tracked base stamp) (short : latency ≤ drvRtcHalf)
    {count : Nat} (prompt : ∀ passed ≤ count, (RtcClock.tick^[passed] clock).Prompt latency) :
      (RtcClock.tick^[count] clock).Tracked base stamp := by
  induction count with
  | zero => exact tracked
  | succ count ih =>
      have before := ih fun passed few => prompt passed (Nat.le_succ_of_le few)
      rw [Function.iterate_succ_apply']
      have after := prompt (count + 1) (Nat.le_refl _)
      rw [Function.iterate_succ_apply'] at after
      exact before.tick (prompt count (Nat.le_succ _)) after short

theorem Tracked.overflowServed (tracked : clock.Tracked base stamp)
    (pending : clock.overflow = true) :
    { clock with overflow := false }.Tracked (base + (drvRtcMaxCnt + 1)) stamp := by
  have counted := tracked.base
  simp only [pending, if_true] at counted
  exact ⟨counted, tracked.past, tracked.recent, tracked.half, tracked.late⟩

theorem Tracked.compare1Served (tracked : clock.Tracked base stamp)
    (high : drvRtcHalf ≤ clock.counter) :
    { clock with compare1 := false }.Tracked base clock.time := by
  simp only [counter, drvRtcMaxCnt, drvRtcHalf] at high
  refine ⟨tracked.base, le_rfl, ?_, fun _ => .inr ?_, .inr ?_⟩ <;>
    · simp only [drvRtcMaxCnt, drvRtcHalf]
      omega

theorem Tracked.nowOf_eq (tracked : clock.Tracked base stamp) (prompt : clock.Prompt latency)
    (short : latency ≤ drvRtcHalf) :
    nowOf base clock.counter stamp = clock.time := by
  have counted := tracked.base
  have recent := tracked.recent
  have past := tracked.past
  have overflow := prompt.overflow
  have max : drvRtcMaxCnt = 16777215 := rfl
  have low : clock.counter = clock.time % 16777216 := by simp only [counter, drvRtcMaxCnt]
  simp only [drvRtcMaxCnt, drvRtcHalf] at counted recent short
  unfold nowOf
  cases pending : clock.overflow with
  | true =>
      have early := overflow pending
      simp only [pending, if_true] at counted
      split <;> omega
  | false =>
      simp only [pending, Bool.false_eq_true, if_false] at counted
      split <;> omega

end RtcClock

theorem RtcClock.Tracked.setRunning {clock : RtcClock} {base stamp : Nat}
    (tracked : clock.Tracked base stamp)
    (running : Bool) : { clock with running }.Tracked base stamp :=
  ⟨tracked.base, tracked.past, tracked.recent, tracked.half, tracked.late⟩

namespace AppTimers

variable {ι : Type*} {latency : Nat} {system before between after : AppTimers ι}

structure SameTime (before after : AppTimers ι) : Prop where
  baseCounter : after.baseCounter = before.baseCounter
  stamp64 : after.stamp64 = before.stamp64
  rtc : after.rtc = before.rtc

theorem SameTime.trans (first : SameTime before between) (second : SameTime between after) :
    SameTime before after :=
  ⟨second.baseCounter.trans first.baseCounter, second.stamp64.trans first.stamp64,
    second.rtc.trans first.rtc⟩

theorem SameTime.getNow (same : SameTime before after) : after.getNow = before.getNow := by
  simp only [AppTimers.getNow, same.baseCounter, same.stamp64, same.rtc]

theorem putBack_sameTime : SameTime system system.putBack := by
  simp only [putBack]
  split
  · exact ⟨rfl, rfl, rfl⟩
  · split
    · exact ⟨rfl, rfl, rfl⟩
    · exact ⟨rfl, rfl, rfl⟩

/-- Some ticks have passed, and the counter may have been started or stopped after them. -/
structure Passed (total : Nat) (before after : AppTimers ι) : Prop where
  baseCounter : after.baseCounter = before.baseCounter
  stamp64 : after.stamp64 = before.stamp64
  clock : ∃ count ≤ total, ∃ running,
    after.rtc.clock = { RtcClock.tick^[count] before.rtc.clock with running }

theorem SameTime.passed (same : SameTime before after) (total : Nat) : Passed total before after :=
  ⟨same.baseCounter, same.stamp64, 0, Nat.zero_le _, before.rtc.clock.running,
    by rw [same.rtc]; rfl⟩

theorem Passed.sameTime_left {total : Nat} (same : SameTime before between)
    (passed : Passed total between after) :
    Passed total before after := by
  rcases passed.clock with ⟨count, few, running, clock⟩
  rw [same.rtc] at clock
  exact ⟨passed.baseCounter.trans same.baseCounter, passed.stamp64.trans same.stamp64, count, few,
    running, clock⟩

theorem Passed.sameTime_right {total : Nat} (passed : Passed total before between)
    (same : SameTime between after) :
    Passed total before after := by
  rcases passed.clock with ⟨count, few, running, clock⟩
  rw [← same.rtc] at clock
  exact ⟨same.baseCounter.trans passed.baseCounter, same.stamp64.trans passed.stamp64, count, few,
    running, clock⟩

theorem Passed.setRunning {total : Nat} (passed : Passed total before between) (running : Bool)
    (baseCounter : after.baseCounter = between.baseCounter)
    (stamp64 : after.stamp64 = between.stamp64)
    (clock : after.rtc.clock = { between.rtc.clock with running }) : Passed total before after := by
  rcases passed.clock with ⟨count, few, _, ticked⟩
  rw [ticked] at clock
  exact ⟨baseCounter.trans passed.baseCounter, stamp64.trans passed.stamp64, count, few,
    running, clock⟩

theorem Passed.ofRtc {total count : Nat} {rtc : Rtc} (few : count ≤ total)
    (clock : rtc.clock = RtcClock.tick^[count] system.rtc.clock) :
      Passed total system { system with rtc } := by
  refine ⟨rfl, rfl, count, few, rtc.clock.running, ?_⟩
  rw [← clock]

/-- Every tick of the input finds the interrupts of the counter served in time. -/
def Prompt (latency : Nat) (system : AppTimers ι) : AppTimersInput ι → Prop
  | .tick _ => system.rtc.clock.tick.Prompt latency
  | .interrupt delays =>
      ∀ count ≤ delays.total, (RtcClock.tick^[count] system.rtc.clock).Prompt latency
  | .start _ _ => True
  | .stop _ => True

instance (latency : Nat) (system : AppTimers ι) : ∀ input, Decidable (Prompt latency system input)
  | .tick _ => inferInstanceAs (Decidable (system.rtc.clock.tick.Prompt latency))
  | .interrupt delays =>
      inferInstanceAs (Decidable
        (∀ count ≤ delays.total, (RtcClock.tick^[count] system.rtc.clock).Prompt latency))
  | .start _ _ => .isTrue trivial
  | .stop _ => .isTrue trivial

structure Tracking (latency : Nat) (system : AppTimers ι) : Prop where
  tracked : system.rtc.clock.Tracked system.baseCounter system.stamp64
  prompt : system.rtc.clock.Prompt latency

theorem Tracking.getNow_eq (tracking : Tracking latency system) (short : latency ≤ drvRtcHalf) :
    system.getNow = system.rtc.clock.time := tracking.tracked.nowOf_eq tracking.prompt short

theorem Tracking.sameTime (tracking : Tracking latency before) (same : SameTime before after) :
    Tracking latency after := by
  refine ⟨?_, ?_⟩
  · rw [same.rtc, same.baseCounter, same.stamp64]
    exact tracking.tracked
  · rw [same.rtc]
    exact tracking.prompt

theorem Tracking.passed {total : Nat} (tracking : Tracking latency before)
    (short : latency ≤ drvRtcHalf)
    (prompt : ∀ count ≤ total, (RtcClock.tick^[count] before.rtc.clock).Prompt latency)
    (passed : Passed total before after) : Tracking latency after := by
  rcases passed.clock with ⟨count, few, running, clock⟩
  have ticked := tracking.tracked.iterate short fun earlier some => prompt earlier (some.trans few)
  refine ⟨?_, ?_⟩
  · rw [clock, passed.baseCounter, passed.stamp64]
    exact ticked.setRunning running
  · rw [clock]
    exact ⟨(prompt count few).overflow, (prompt count few).compare1⟩

theorem timerReqSchedule_sameTime (request : TimerReq ι) :
    SameTime system (system.timerReqSchedule request).2 := by
  simp only [timerReqSchedule]
  split
  · exact ⟨rfl, rfl, rfl⟩
  · exact ⟨rfl, rfl, rfl⟩

theorem tracking_init (repeated : ι → Bool) : Tracking latency (init repeated) := by
  refine ⟨⟨?_, ?_, ?_, ?_, ?_⟩, ?_, ?_⟩ <;> simp [init, RtcClock.counter, drvRtcMaxCnt, drvRtcHalf]

variable [DecidableEq ι]

theorem modify_sameTime (timer : ι) (change : AppTimer → AppTimer) :
    SameTime system (system.modify timer change) :=
  ⟨rfl, rfl, rfl⟩

theorem timerExpire_sameTime (timer : ι) : SameTime system (system.timerExpire timer) := by
  simp only [timerExpire]
  split
  · split
    · split
      · exact ⟨rfl, rfl, rfl⟩
      · exact ⟨rfl, rfl, rfl⟩
    · exact ⟨rfl, rfl, rfl⟩
  · exact ⟨rfl, rfl, rfl⟩

theorem serve_sameTime (request : TimerReq ι) : SameTime system (system.serve request) := by
  cases request with
  | start timer =>
      simp only [serve]
      split
      · exact ⟨rfl, rfl, rfl⟩
      · exact ⟨rfl, rfl, rfl⟩
  | stop timer =>
      simp only [serve]
      split
      · exact ⟨rfl, rfl, rfl⟩
      · exact ⟨rfl, rfl, rfl⟩

theorem onCompareEvt_sameTime : SameTime system system.onCompareEvt := by
  simp only [onCompareEvt]
  split
  · exact ⟨rfl, rfl, rfl⟩
  · rename_i active _
    have expired := @timerExpire_sameTime _ system _ active
    exact ⟨expired.baseCounter, expired.stamp64, expired.rtc⟩

theorem timerReqProcess_sameTime : SameTime system system.timerReqProcess := by
  have served (requests : List (TimerReq ι)) (before : AppTimers ι) :
      SameTime before (requests.foldl serve before) := by
    induction requests generalizing before with
    | nil => exact ⟨rfl, rfl, rfl⟩
    | cons request rest ih => exact (serve_sameTime request).trans (ih _)
  have cleared : SameTime system { system with requests := [] } := ⟨rfl, rfl, rfl⟩
  exact cleared.trans (served _ _)

theorem rtcSchedule_passed (timer : ι) (delays : RtcDelays) :
    Passed delays.total system (system.rtcSchedule timer delays).2 := by
  simp only [rtcSchedule]
  split
  · rcases @Rtc.windowedCompareSet_clock system.rtc (system.ccVal timer) appTimerSafeWindow delays
        with
      ⟨count, few, clock⟩
    have set := Passed.ofRtc few clock
    split
    · exact set
    · exact set.sameTime_right (timerExpire_sameTime timer)
  · have disabled : Passed delays.total system { system with rtc := system.rtc.compareDisable } :=
      ⟨rfl, rfl, 0, Nat.zero_le _, system.rtc.clock.running, rfl⟩
    exact disabled.sameTime_right (timerExpire_sameTime timer)

theorem popAndSchedule_passed (delays : RtcDelays) :
    Passed delays.total system (system.popAndSchedule delays).2 := by
  simp only [popAndSchedule]
  split
  · exact SameTime.passed ⟨rfl, rfl, rfl⟩ _
  · rename_i next rest _
    have popped : SameTime system { system with sortlist := rest } := ⟨rfl, rfl, rfl⟩
    have scheduled := Passed.sameTime_left popped
      (@rtcSchedule_passed _ { system with sortlist := rest } _ next delays)
    split
    · split
      · exact scheduled.setRunning true rfl rfl rfl
      · exact scheduled.setRunning _ rfl rfl rfl
    · exact scheduled.setRunning _ rfl rfl rfl

theorem rtcUpdate_passed (delays : RtcDelays) :
    Passed delays.total system (system.rtcUpdate delays).2 := by
  simp only [rtcUpdate]
  split
  · split
    · exact ((SameTime.passed ⟨rfl, rfl, rfl⟩ _ : Passed delays.total system system)).setRunning
        false rfl rfl rfl
    · exact SameTime.passed ⟨rfl, rfl, rfl⟩ _
  · split
    · exact Passed.sameTime_left putBack_sameTime (popAndSchedule_passed delays)
    · exact SameTime.passed ⟨rfl, rfl, rfl⟩ _

theorem Tracking.rtcIrq (tracking : Tracking latency system) (short : latency ≤ drvRtcHalf)
    {delays : RtcDelays}
    (prompt : ∀ count ≤ delays.total, (RtcClock.tick^[count] system.rtc.clock).Prompt latency) :
    Tracking latency (system.rtcIrq delays) := by
  have now := tracking.getNow_eq short
  simp only [AppTimers.rtcIrq]
  cases system.part with
  | overflow =>
      simp only [overflowPending]
      split
      · rename_i pending
        exact ⟨tracking.tracked.overflowServed pending, fun cleared => Bool.noConfusion cleared,
          tracking.prompt.compare1⟩
      · exact tracking.sameTime ⟨rfl, rfl, rfl⟩
  | compare0 =>
      simp only [comparePending]
      split
      · have served :
            Tracking latency { system with rtc := { system.rtc with compare := false } } :=
          ⟨tracking.tracked, tracking.prompt⟩
        have expired := served.sameTime onCompareEvt_sameTime
        exact expired.sameTime ⟨rfl, rfl, rfl⟩
      · exact tracking.sameTime ⟨rfl, rfl, rfl⟩
  | compare1 =>
      simp only [compare1Pending]
      split
      · rename_i pending
        rw [now]
        exact ⟨tracking.tracked.compare1Served (tracking.prompt.compare1 pending).1,
          tracking.prompt.overflow,
          fun cleared => Bool.noConfusion cleared⟩
      · exact tracking.sameTime ⟨rfl, rfl, rfl⟩
  | requests =>
      have processed := tracking.sameTime timerReqProcess_sameTime
      exact processed.sameTime ⟨rfl, rfl, rfl⟩
  | update =>
      have updated := tracking.passed short prompt (rtcUpdate_passed delays)
      exact updated.sameTime ⟨rfl, rfl, rfl⟩

theorem Tracking.step (tracking : Tracking latency system) (short : latency ≤ drvRtcHalf)
    {input : AppTimersInput ι}
    (prompt : system.Prompt latency input) : Tracking latency (system.step input) := by
  cases input with
  | tick extra => exact ⟨tracking.tracked.tick tracking.prompt prompt short, prompt⟩
  | start timer timeoutTicks =>
      simp only [AppTimers.step, appTimerStart]
      split
      · exact tracking
      · exact tracking.sameTime ((modify_sameTime timer _).trans (timerReqSchedule_sameTime _))
  | stop timer =>
      exact tracking.sameTime ((modify_sameTime timer _).trans (timerReqSchedule_sameTime _))
  | interrupt delays => exact tracking.rtcIrq short prompt

theorem Tracking.run (tracking : Tracking latency system) (short : latency ≤ drvRtcHalf)
    {inputs : List (AppTimersInput ι)}
    (prompt : Guarded AppTimers.step (Prompt latency) system inputs) :
    Tracking latency (Data.run AppTimers.step system inputs) :=
  run_invariant (fun _ _ tracking prompt => tracking.step short prompt) tracking prompt

theorem rtcIrq_time_le (delays : RtcDelays) :
    system.rtc.clock.time ≤ (system.rtcIrq delays).rtc.clock.time := by
  simp only [rtcIrq]
  cases system.part with
  | overflow =>
      simp only [overflowPending]
      split <;> exact Nat.le_refl _
  | compare0 =>
      simp only [comparePending]
      split
      · rw [onCompareEvt_sameTime.rtc]
      · exact Nat.le_refl _
  | compare1 =>
      simp only [compare1Pending]
      split <;> exact Nat.le_refl _
  | requests =>
      change system.rtc.clock.time ≤ system.timerReqProcess.rtc.clock.time
      rw [timerReqProcess_sameTime.rtc]
  | update =>
      rcases (@rtcUpdate_passed _ system _ delays).clock with ⟨count, _, running, clock⟩
      simp only [clock]
      exact RtcClock.le_iterate_time

theorem step_time_le (input : AppTimersInput ι) :
    system.rtc.clock.time ≤ (system.step input).rtc.clock.time := by
  cases input with
  | tick extra => exact @RtcClock.le_iterate_time system.rtc.clock 1
  | start timer timeoutTicks =>
      simp only [step, appTimerStart]
      split
      · exact Nat.le_refl _
      · rw [((modify_sameTime timer _).trans (timerReqSchedule_sameTime _)).rtc]
  | stop timer =>
      simp only [step, appTimerStop]
      rw [((modify_sameTime timer _).trans (timerReqSchedule_sameTime _)).rtc]
  | interrupt delays => exact rtcIrq_time_le delays

theorem run_time_le (inputs : List (AppTimersInput ι)) :
    system.rtc.clock.time ≤ (run step system inputs).rtc.clock.time := by
  induction inputs generalizing system with
  | nil => exact Nat.le_refl _
  | cons input rest ih => exact (step_time_le input).trans ih

end AppTimers

end BleKeyboard.Sched
