import BleKeyboard.Sched.TimerClock

namespace BleKeyboard.Sched

open BleKeyboard.Data

/-- No overflow and no half period falls into the next ticks. -/
def RtcClock.Uneventful (clock : RtcClock) (count : Nat) : Prop :=
  ∀ passed, 0 < passed → passed ≤ count →
    (clock.time + passed) % (drvRtcMaxCnt + 1) ≠ 0 ∧
    (clock.time + passed) % (drvRtcMaxCnt + 1) ≠ drvRtcHalf

theorem RtcClock.iterate_uneventful {clock : RtcClock} {count : Nat}
    (running : clock.running = true) (uneventful : clock.Uneventful count) :
    RtcClock.tick^[count] clock = { clock with time := clock.time + count } := by
  induction count with
  | zero => rfl
  | succ count ih =>
      have before := ih fun passed some few => uneventful passed some (Nat.le_succ_of_le few)
      obtain ⟨low, half⟩ := uneventful (count + 1) (Nat.succ_pos _) (Nat.le_refl _)
      rw [Function.iterate_succ_apply', before]
      simp only [RtcClock.tick, running, if_true]
      simp [low, half, Nat.add_assoc]

namespace AppTimers

variable {ι : Type*} [DecidableEq ι] {latency count : Nat} {system : AppTimers ι}

theorem run_ticks (system : AppTimers ι) (count : Nat) :
    run step system (List.replicate count (.tick false)) =
    { system with rtc := system.rtc.elapse (List.replicate count false) } := by
  induction count generalizing system with
  | zero => rfl
  | succ count ih =>
      rw [List.replicate_succ, run_cons, ih, List.replicate_succ]
      rfl

theorem run_ticks_clock (running : system.rtc.clock.running = true)
    (uneventful : system.rtc.clock.Uneventful count) :
    (run step system (List.replicate count (.tick false))).rtc.clock =
      { system.rtc.clock with time := system.rtc.clock.time + count } := by
  rw [run_ticks]
  have elapsed := (@Rtc.elapse_elapsed system.rtc (List.replicate count false)).clock
  rw [List.length_replicate, RtcClock.iterate_uneventful running uneventful] at elapsed
  exact elapsed

theorem run_ticks_compare (running : system.rtc.clock.running = true)
    (uneventful : system.rtc.clock.Uneventful count)
    (missed : ∀ passed, 0 < passed → passed ≤ count →
      (system.rtc.clock.time + passed) % (drvRtcMaxCnt + 1) ≠ system.rtc.cc) :
    (run step system (List.replicate count (.tick false))).rtc.compare = system.rtc.compare := by
  induction count with
  | zero => rfl
  | succ count ih =>
      have fewer : system.rtc.clock.Uneventful count :=
        fun passed some few => uneventful passed some (by omega)
      have before := ih fewer fun passed some few => missed passed some (by omega)
      have clock := run_ticks_clock running uneventful
      have elapsed := @Rtc.elapse_elapsed system.rtc (List.replicate count false)
      rw [List.replicate_succ', run_append, run_cons, run_nil] at clock ⊢
      generalize reached :
        run step system (List.replicate count (.tick false)) = between at before clock ⊢
      have cc : between.rtc.cc = system.rtc.cc := by
        rw [← reached, run_ticks]
        exact elapsed.cc
      have ticked : between.rtc.clock.tick =
        { system.rtc.clock with time := system.rtc.clock.time + (count + 1) } := clock
      have apart := missed (count + 1) (Nat.succ_pos _) (Nat.le_refl _)
      simp [step, Rtc.tick, before, ticked, RtcClock.counter, cc, apart]

theorem prompt_ticks (running : system.rtc.clock.running = true)
    (uneventful : system.rtc.clock.Uneventful count)
    (served : system.rtc.clock.overflow = false) (taken : system.rtc.clock.compare1 = false) :
    Guarded step (Prompt latency) system (List.replicate count (.tick false)) := by
  induction count generalizing system with
  | zero => trivial
  | succ count ih =>
      have first := @RtcClock.iterate_uneventful _ 1 running
        fun passed some few => uneventful passed some (by omega)
      have ticked : (system.step (.tick false)).rtc.clock =
          { system.rtc.clock with time := system.rtc.clock.time + 1 } :=
        first
      refine ⟨?_, ih ?_ ?_ ?_ ?_⟩
      · have next : system.rtc.clock.tick =
          { system.rtc.clock with time := system.rtc.clock.time + 1 } := first
        simp only [Prompt, next]
        exact ⟨fun pending => absurd (served.symm.trans pending) Bool.false_ne_true,
          fun pending => absurd (taken.symm.trans pending) Bool.false_ne_true⟩
      · rw [ticked]
        exact running
      · intro passed some few
        have later := uneventful (1 + passed) (by omega) (by omega)
        rw [ticked]
        simpa only [Nat.add_assoc] using later
      · rw [ticked]
        exact served
      · rw [ticked]
        exact taken

theorem run_handler_idle {active : ι} (begins : system.part = .overflow)
    (served : system.rtc.clock.overflow = false)
    (quiet : system.rtc.compare = false) (requests : system.requests = [])
    (others : system.sortlist = []) (scheduled : system.activeTimer = some active) :
    run step system (List.replicate 5 (.interrupt .none)) =
    { system.compare1Pending with part := .overflow } := by
  have kept : system.compare1Pending.requests = [] ∧ system.compare1Pending.sortlist = [] ∧
      system.compare1Pending.activeTimer = some active := by
    simp only [compare1Pending]
    split
    · exact ⟨requests, others, scheduled⟩
    · exact ⟨requests, others, scheduled⟩
  obtain ⟨noRequests, noOthers, stillScheduled⟩ := kept
  have first : system.step (.interrupt .none) = { system with part := .compare0 } := by
    simp [step, rtcIrq, begins, overflowPending, served]
  have second : ({ system with part := .compare0 } : AppTimers ι).step (.interrupt .none) =
      { system with part := .compare1 } := by
    simp [step, rtcIrq, comparePending, quiet]
  have third : ({ system with part := .compare1 } : AppTimers ι).step (.interrupt .none) =
      { system.compare1Pending with part := .requests } := by
    simp only [step, rtcIrq, compare1Pending]
    split <;> rfl
  have fourth :
      ({ system.compare1Pending with part := .requests } : AppTimers ι).step (.interrupt .none) =
      { system.compare1Pending with part := .update } := by
    simp [step, rtcIrq, timerReqProcess, noRequests]
  have fifth :
      ({ system.compare1Pending with part := .update } : AppTimers ι).step (.interrupt .none) =
      { system.compare1Pending with part := .overflow } := by
    simp [step, rtcIrq, rtcUpdate, noOthers, stillScheduled]
  simp only [List.replicate, run_cons, run_nil, first, second, third, fourth, fifth]

theorem prompt_interrupts (tracking : Tracking latency system) (short : latency ≤ drvRtcHalf)
    (count : Nat) :
    Guarded step (Prompt latency) system (List.replicate count (.interrupt .none)) := by
  induction count generalizing system with
  | zero => trivial
  | succ count ih =>
      have prompt : Prompt latency system (.interrupt .none) := by
        intro passed few
        obtain rfl : passed = 0 := Nat.le_zero.mp few
        exact tracking.prompt
      exact ⟨prompt, ih (tracking.step short prompt)⟩

theorem prompt_served (tracking : Tracking latency system) (short : latency ≤ drvRtcHalf)
    (ready : Prompt latency system (.tick false)) (count : Nat) :
    Guarded step (Prompt latency) system (.tick false :: List.replicate count (.interrupt .none)) :=
  ⟨ready, prompt_interrupts (tracking.step short ready) short count⟩

/-- The counter runs, and there is nothing for its interrupt but to serve it. -/
structure Idle (latency : Nat) (active : ι) (system : AppTimers ι)
    (time base stamp : Nat) : Prop where
  clock : system.rtc.clock = { time, running := true, overflow := false, compare1 := false }
  part : system.part = .overflow
  requests : system.requests = []
  sortlist : system.sortlist = []
  activeTimer : system.activeTimer = some active
  baseCounter : system.baseCounter = base
  stamp64 : system.stamp64 = stamp
  tracking : Tracking latency system

variable {active : ι} {time base stamp : Nat}

theorem Idle.ticks (idle : Idle latency active system time base stamp)
    (short : latency ≤ drvRtcHalf) (uneventful : system.rtc.clock.Uneventful count) :
    Guarded step (Prompt latency) system (List.replicate count (.tick false)) ∧
      Idle latency active (run step system (List.replicate count (.tick false))) (time + count)
        base stamp := by
  have prompt : Guarded step (Prompt latency) system (List.replicate count (.tick false)) :=
    prompt_ticks (by rw [idle.clock]) uneventful (by rw [idle.clock]) (by rw [idle.clock])
  have clock := run_ticks_clock (by rw [idle.clock]) uneventful
  rw [idle.clock] at clock
  refine ⟨prompt, clock, ?_, ?_, ?_, ?_, ?_, ?_, idle.tracking.run short prompt⟩ <;> rw [run_ticks]
  · exact idle.part
  · exact idle.requests
  · exact idle.sortlist
  · exact idle.activeTimer
  · exact idle.baseCounter
  · exact idle.stamp64

theorem Idle.half (idle : Idle latency active system (drvRtcHalf - 1) 0 0)
    (short : latency ≤ drvRtcHalf) (positive : 0 < latency) (quiet : system.rtc.compare = false)
    (apart : drvRtcHalf ≠ system.rtc.cc) :
    let inputs : List (AppTimersInput ι) := .tick false :: List.replicate 5 (.interrupt .none)
    Guarded step (Prompt latency) system inputs ∧
      Idle latency active (run step system inputs) drvRtcHalf 0 drvRtcHalf := by
  intro inputs
  have clock : system.rtc.clock.tick =
      { time := drvRtcHalf, running := true, overflow := false, compare1 := true } := by
    rw [idle.clock]
    rfl
  have ready : Prompt latency system (.tick false) := by
    simp only [Prompt, clock]
    exact ⟨fun pending => absurd pending Bool.false_ne_true,
      fun _ => ⟨Nat.le_refl _, Nat.lt_add_of_pos_right positive⟩⟩
  have prompt : Guarded step (Prompt latency) system inputs :=
    prompt_served idle.tracking short ready 5
  have tracking := idle.tracking.run short prompt
  have ticked : (system.step (.tick false)).rtc.clock =
      { time := drvRtcHalf, running := true, overflow := false, compare1 := true } := clock
  have counter : (system.step (.tick false)).rtc.clock.counter = drvRtcHalf := by
    rw [ticked]
    rfl
  have still : (system.step (.tick false)).rtc.compare = false := by
    have reached : system.rtc.clock.tick.counter = drvRtcHalf := counter
    simp [step, Rtc.tick, quiet, reached, apart]
  have baseCounter : (system.step (.tick false)).baseCounter = 0 := idle.baseCounter
  have stamp64 : (system.step (.tick false)).stamp64 = 0 := idle.stamp64
  have now : (system.step (.tick false)).getNow = drvRtcHalf := by
    rw [getNow, counter, baseCounter, stamp64]
    rfl
  have served := @run_handler_idle _ _ (system.step (.tick false)) active idle.part (by rw [ticked])
    still idle.requests idle.sortlist idle.activeTimer
  simp only [inputs, run_cons, served] at tracking ⊢
  simp only [compare1Pending, ticked, if_true, now] at tracking ⊢
  exact ⟨prompt, rfl, rfl, idle.requests, idle.sortlist, idle.activeTimer, baseCounter,
    rfl, tracking⟩

theorem Idle.overflow (idle : Idle latency active system time base stamp)
    (short : latency ≤ drvRtcHalf)
    (positive : 0 < latency) (last : (time + 1) % (drvRtcMaxCnt + 1) = 0) :
    let inputs : List (AppTimersInput ι) := .tick false :: List.replicate 1 (.interrupt .none)
    let after := run step system inputs
    Guarded step (Prompt latency) system inputs ∧
      after.rtc.clock =
      { time := time + 1, running := true, overflow := false, compare1 := false } ∧
      after.part = .compare0 ∧ after.baseCounter = base + (drvRtcMaxCnt + 1) ∧
      after.stamp64 = stamp := by
  intro inputs after
  have notHalf : ¬ 0 = drvRtcHalf := by decide
  have clock : system.rtc.clock.tick =
      { time := time + 1, running := true, overflow := true, compare1 := false } := by
    simp [RtcClock.tick, idle.clock, last, notHalf]
  have ready : Prompt latency system (.tick false) := by
    simp only [Prompt, clock]
    refine ⟨fun _ => ?_, fun pending => absurd pending Bool.false_ne_true⟩
    simp only [RtcClock.counter, last]
    exact positive
  refine ⟨prompt_served idle.tracking short ready 1, ?_⟩
  have ticked : (system.step (.tick false)).rtc.clock =
      { time := time + 1, running := true, overflow := true, compare1 := false } := clock
  have part : (system.step (.tick false)).part = .overflow := idle.part
  have baseCounter : (system.step (.tick false)).baseCounter = base := idle.baseCounter
  have stamp64 : (system.step (.tick false)).stamp64 = stamp := idle.stamp64
  simp only [after, inputs, List.replicate, run_cons, run_nil]
  generalize system.step (.tick false) = between at ticked part baseCounter stamp64 ⊢
  simp [step, rtcIrq, part, overflowPending, ticked, baseCounter, stamp64]

theorem comparePending_clock : system.comparePending.rtc.clock = system.rtc.clock ∧
    system.comparePending.baseCounter = system.baseCounter ∧
    system.comparePending.stamp64 = system.stamp64 := by
  simp only [comparePending]
  split
  · have same :=
      @onCompareEvt_sameTime _ { system with rtc := { system.rtc with compare := false } } _
    exact ⟨(congrArg Rtc.clock same.rtc).trans rfl, same.baseCounter, same.stamp64⟩
  · exact ⟨rfl, rfl, rfl⟩

omit [DecidableEq ι] in
theorem prompt_quiet (served : system.rtc.clock.overflow = false)
    (taken : system.rtc.clock.compare1 = false) :
    Prompt latency system (.interrupt .none) := by
  intro passed few
  obtain rfl : passed = 0 := Nat.le_zero.mp few
  exact ⟨fun pending => absurd (served.symm.trans pending) Bool.false_ne_true,
    fun pending => absurd (taken.symm.trans pending) Bool.false_ne_true⟩

theorem tick_interrupt
    (clock : system.rtc.clock = { time, running := true, overflow := false, compare1 := false })
    (uneventful : system.rtc.clock.Uneventful 1)
    (part : system.part = .compare0 ∨ system.part = .compare1) :
    let inputs : List (AppTimersInput ι) := [.tick false, .interrupt .none]
    let after := run step system inputs
    Guarded step (Prompt latency) system inputs ∧
      after.rtc.clock =
      { time := time + 1, running := true, overflow := false, compare1 := false } ∧
      after.part = (if system.part = .compare0 then .compare1 else .requests) ∧
      after.baseCounter = system.baseCounter ∧ after.stamp64 = system.stamp64 := by
  intro inputs after
  have ready : Guarded step (Prompt latency) system (List.replicate 1 (.tick false)) :=
    prompt_ticks (by rw [clock]) uneventful (by rw [clock]) (by rw [clock])
  have ticked : (system.step (.tick false)).rtc.clock =
      { time := time + 1, running := true, overflow := false, compare1 := false } := by
    have passed := run_ticks_clock (by rw [clock]) uneventful
    rw [clock] at passed
    exact passed
  have same : (system.step (.tick false)).part = system.part ∧
      (system.step (.tick false)).baseCounter = system.baseCounter ∧
        (system.step (.tick false)).stamp64 = system.stamp64 := ⟨rfl, rfl, rfl⟩
  obtain ⟨stillPart, baseCounter, stamp64⟩ := same
  simp only [after, inputs, run_cons, run_nil]
  refine ⟨⟨ready.1, prompt_quiet (by rw [ticked]) (by rw [ticked]), trivial⟩, ?_⟩
  generalize system.step (.tick false) = between at ticked stillPart baseCounter stamp64 ⊢
  rcases part with compare0 | compare1
  · obtain ⟨keepsClock, keepsBase, keepsStamp⟩ := @comparePending_clock _ _ between
    simp [step, rtcIrq, stillPart, compare0, keepsClock, keepsBase, keepsStamp, ticked,
      baseCounter, stamp64]
  · simp [step, rtcIrq, stillPart, compare1, compare1Pending, ticked, baseCounter, stamp64]

theorem interrupted_reads {start : AppTimers ι} (part : start.part = .compare0)
    (clock : start.rtc.clock =
      { time := drvRtcMaxCnt + 1, running := true, overflow := false, compare1 := false }) :
    let inputs : List (AppTimersInput ι) := [.tick false, .interrupt .none]
    let middle := run step start inputs
    let last := run step middle inputs
    Guarded step (Prompt latency) start inputs ∧ Guarded step (Prompt latency) middle inputs ∧
      middle.rtc.clock.time = drvRtcMaxCnt + 2 ∧ last.rtc.clock.time ≤ start.rtc.clock.time + 2 ∧
        last.stamp64 = start.stamp64 := by
  intro inputs middle last
  have early : start.rtc.clock.Uneventful 1 := by
    intro passed some few
    simp only [clock, drvRtcMaxCnt, drvRtcHalf]
    omega
  obtain ⟨promptFirst, middleClock, middlePart, -, middleStamp⟩ :=
    @tick_interrupt _ _ latency start _ clock early (.inl part)
  rw [part, if_pos rfl] at middlePart
  have late : middle.rtc.clock.Uneventful 1 := by
    intro passed some few
    simp only [middle, inputs, middleClock, drvRtcMaxCnt, drvRtcHalf]
    omega
  obtain ⟨promptSecond, lastClock, -, -, lastStamp⟩ :=
    @tick_interrupt _ _ latency middle _ middleClock late (.inr middlePart)
  refine ⟨promptFirst, promptSecond, congrArg RtcClock.time middleClock, ?_,
    lastStamp.trans middleStamp⟩
  exact (congrArg RtcClock.time lastClock).trans_le (by rw [clock])

/-- `get_now` reads the base, the counter and the stamp in three states of a run.  It returns the
time at which it read the counter, unless the stamp has been renewed in a later tick: then it
returns a whole period more. -/
theorem getNow_interrupted (repeated : ι → Bool) {latency duration : Nat}
    (short : latency + duration ≤ drvRtcHalf) (before toCounter toStamp : List (AppTimersInput ι))
    (promptBefore : Guarded step (Prompt latency) (init repeated) before)
    (promptCounter : Guarded step (Prompt latency) (run step (init repeated) before) toCounter)
    (promptStamp : Guarded step (Prompt latency)
      (run step (run step (init repeated) before) toCounter) toStamp) :
    let atBase := run step (init repeated) before
    let atCounter := run step atBase toCounter
    let atStamp := run step atCounter toStamp
    atStamp.rtc.clock.time ≤ atBase.rtc.clock.time + duration →
      nowOf atBase.baseCounter atCounter.rtc.clock.counter atStamp.stamp64 =
        if atStamp.stamp64 ≤ atCounter.rtc.clock.time then atCounter.rtc.clock.time
        else atCounter.rtc.clock.time + (drvRtcMaxCnt + 1) := by
  intro atBase atCounter atStamp brief
  have within : latency ≤ drvRtcHalf := (Nat.le_add_right _ _).trans short
  have first : Tracking latency atBase := (tracking_init repeated).run within promptBefore
  have third : Tracking latency atStamp := (first.run within promptCounter).run within promptStamp
  have later : atBase.rtc.clock.time ≤ atCounter.rtc.clock.time := run_time_le toCounter
  have last : atCounter.rtc.clock.time ≤ atStamp.rtc.clock.time := run_time_le toStamp
  clear_value atBase atCounter atStamp
  have counted := first.tracked.base
  have overflow := first.prompt.overflow
  have past := third.tracked.past
  have recent := third.tracked.recent
  have late := third.tracked.late
  have max : drvRtcMaxCnt = 16777215 := rfl
  have counter : atCounter.rtc.clock.counter = atCounter.rtc.clock.time % 16777216 := by
    simp only [RtcClock.counter, drvRtcMaxCnt]
  simp only [RtcClock.counter, drvRtcMaxCnt, drvRtcHalf] at counted overflow recent late short
  rw [counter]
  generalize atCounter.rtc.clock.time = time at *
  generalize atStamp.rtc.clock.time = readTime at *
  generalize atStamp.stamp64 = stamp at *
  unfold nowOf
  cases pending : atBase.rtc.clock.overflow with
  | true =>
      have early := overflow pending
      simp only [pending, if_true] at counted
      split <;> split <;> omega
  | false =>
      simp only [pending, Bool.false_eq_true, if_false] at counted
      split <;> split <;> omega

def startedTimer : List (AppTimersInput Unit) :=
  .start () 100000000 :: List.replicate 5 (.interrupt .none)

/-- The counter runs into its second period: the stamp is taken in
the middle of the first one, and the overflow served. -/
def secondPeriod : List (AppTimersInput Unit) :=
  startedTimer ++ (List.replicate 8388606 (.tick false) ++
    ((.tick false :: List.replicate 5 (.interrupt .none)) ++
    (List.replicate 8388608 (.tick false) ++ .tick false :: List.replicate 1 (.interrupt .none))))

theorem secondPeriod_served : Guarded step (Prompt 10) (init fun _ => true) secondPeriod ∧
    let after := run step (init fun _ => true) secondPeriod
    after.rtc.clock =
      { time := drvRtcMaxCnt + 1, running := true, overflow := false, compare1 := false } ∧
      after.part = .compare0 ∧ after.baseCounter = drvRtcMaxCnt + 1 ∧
      after.stamp64 = drvRtcHalf := by
  have short : 10 ≤ drvRtcHalf := by decide
  have prompt : Guarded step (Prompt 10) (init fun _ => true) startedTimer := by decide +kernel
  have begun : Idle 10 () (run step (init fun _ => true) startedTimer) 0 0 0 :=
    ⟨by decide +kernel, by decide +kernel, by decide +kernel, by decide +kernel,
      by decide +kernel, by decide +kernel, by decide +kernel,
      (tracking_init (fun _ => true)).run short prompt⟩
  have cc : (run step (init fun _ => true) startedTimer).rtc.cc = 11862015 := by decide +kernel
  have quiet : (run step (init fun _ => true) startedTimer).rtc.compare = false := by decide +kernel
  rw [secondPeriod, guarded_append, guarded_append, guarded_append, guarded_append]
  simp only [run_append]
  generalize run step (init fun _ => true) startedTimer = started at begun cc quiet ⊢
  have uneventful : started.rtc.clock.Uneventful 8388606 := by
    intro passed some few
    simp only [begun.clock, drvRtcMaxCnt, drvRtcHalf]
    omega
  have still := run_ticks_compare (by rw [begun.clock]) uneventful fun passed some few => by
    simp only [begun.clock, cc, drvRtcMaxCnt]
    omega
  have register : (run step started (List.replicate 8388606 (.tick false))).rtc.cc = 11862015 := by
    rw [run_ticks, ← cc]
    exact (Rtc.elapse_elapsed _).cc
  obtain ⟨promptFirst, first⟩ := begun.ticks short uneventful
  rw [Nat.zero_add] at first
  generalize run step started (List.replicate 8388606 (.tick false)) = before
    at first register still ⊢
  obtain ⟨promptHalf, half⟩ :=
    first.half short (by decide) (still.trans quiet) (by rw [register]; decide)
  generalize run step before (.tick false :: List.replicate 5 (.interrupt .none)) = middle at half ⊢
  have calm : middle.rtc.clock.Uneventful 8388608 := by
    intro passed some few
    simp only [half.clock, drvRtcMaxCnt, drvRtcHalf]
    omega
  obtain ⟨promptSecond, second⟩ := half.ticks short calm
  generalize run step middle (List.replicate 8388608 (.tick false)) = last at second ⊢
  obtain ⟨promptLast, served⟩ := second.overflow short (by decide) (by decide)
  rw [Nat.zero_add] at served
  exact ⟨⟨prompt, promptFirst, promptHalf, promptSecond, promptLast⟩, served⟩

/-- The counter is read one tick after the base, when the interrupt has served the compare event,
and the stamp a tick later. -/
theorem getNow_interrupted_secondPeriod :
    let atBase := run step (init fun _ => true) secondPeriod
    let atCounter := run step atBase [.tick false, .interrupt .none]
    let atStamp := run step atCounter [.tick false, .interrupt .none]
    atBase.baseCounter = drvRtcMaxCnt + 1 ∧ atStamp.stamp64 = drvRtcHalf ∧
      nowOf atBase.baseCounter atCounter.rtc.clock.counter atStamp.stamp64 = drvRtcMaxCnt + 2 := by
  simp only
  obtain ⟨prompt, clock, part, base, stamp⟩ := secondPeriod_served
  obtain ⟨promptCounter, promptStamp, counterTime, brief, kept⟩ := interrupted_reads part clock
  have read :=
    getNow_interrupted (fun _ : Unit => true) (by decide : 10 + 10 ≤ drvRtcHalf) secondPeriod
    [.tick false, .interrupt .none] [.tick false, .interrupt .none] prompt promptCounter promptStamp
    (brief.trans (Nat.add_le_add_left (by decide) _))
  refine ⟨base, kept.trans stamp, read.trans ?_⟩
  rw [kept, stamp, counterTime]
  exact if_pos (by decide)

end AppTimers

end BleKeyboard.Sched
