import BleKeyboard.Sched.TimerHandler

namespace BleKeyboard.Sched

open BleKeyboard.Ble (nrfSuccess)
open BleKeyboard.Data

/-! A timer that is stopped before its start has been served.

The two requests are served in order: the start makes the timer active, which the stop does not take
back. -/

namespace AppTimers

variable {ι : Type*} {system before between after : AppTimers ι} {timer other : ι}
    {delays : RtcDelays}

/-- Neither the list nor the compare register nor a request knows of the timer. -/
structure Lost (timer : ι) (system : AppTimers ι) : Prop where
  unlisted : timer ∉ system.sortlist
  free : system.activeTimer ≠ some timer
  unrequested : timer ∉ system.requests.map TimerReq.timer

/-- A lost timer stays lost, and nothing happens to it. -/
def Forgets (timer : ι) (before after : AppTimers ι) : Prop :=
  Lost timer before → Lost timer after ∧ after.timers timer = before.timers timer

theorem Forgets.trans (first : Forgets timer before between)
    (second : Forgets timer between after) :
    Forgets timer before after := by
  intro lost
  rcases first lost with ⟨middle, same⟩
  rcases second middle with ⟨last, still⟩
  exact ⟨last, still.trans same⟩

theorem Forgets.ofFields (timers : after.timers timer = before.timers timer)
    (sortlist : ∀ found ∈ after.sortlist, found ∈ before.sortlist ∨ found ≠ timer)
    (activeTimer : ∀ found, after.activeTimer = some found →
      before.activeTimer = some found ∨ found ≠ timer)
    (requests : ∀ request ∈ after.requests, request ∈ before.requests ∨ request.timer ≠ timer) :
    Forgets timer before after := by
  intro lost
  refine ⟨⟨fun listed => ?_, fun active => ?_, fun requested => ?_⟩, timers⟩
  · exact (sortlist timer listed).elim lost.unlisted fun different => different rfl
  · exact (activeTimer timer active).elim lost.free fun different => different rfl
  · rcases List.mem_map.mp requested with ⟨request, listed, same⟩
    rcases requests request listed with earlier | different
    · exact lost.unrequested (List.mem_map.mpr ⟨request, earlier, same⟩)
    · exact different same

theorem Forgets.refl : Forgets timer system system := fun lost => ⟨lost, rfl⟩

theorem Forgets.setRtc {rtc : Rtc} : Forgets timer system { system with rtc } := fun lost =>
  ⟨⟨lost.unlisted, lost.free, lost.unrequested⟩, rfl⟩

theorem Forgets.setPart {part : IrqPart} : Forgets timer system { system with part } := fun lost =>
  ⟨⟨lost.unlisted, lost.free, lost.unrequested⟩, rfl⟩

theorem Forgets.clearActive :
    Forgets timer system { system with activeTimer := none } := fun lost =>
  ⟨⟨lost.unlisted, Option.some_ne_none timer |>.symm, lost.unrequested⟩, rfl⟩

theorem Forgets.add (different : other ≠ timer) :
    Forgets timer system (system.nrfSortlistAdd other) := by
  refine .ofFields rfl (fun found listed => ?_) (fun _ active => .inl active)
    fun _ requested => .inl requested
  have listed : found ∈ insertByKey system.endVal other system.sortlist := listed
  rcases mem_insertByKey.mp listed with same | listed
  · exact .inr (same ▸ different)
  · exact .inl listed

theorem Forgets.putBack : Forgets timer system system.putBack := by
  intro lost
  unfold AppTimers.putBack
  split
  · exact ⟨lost, rfl⟩
  · rename_i active some
    have different : active ≠ timer := fun same => lost.free (same ▸ some)
    split
    · exact Forgets.add different lost
    · exact ⟨lost, rfl⟩

theorem Forgets.request {request : TimerReq ι} (different : request.timer ≠ timer) :
    Forgets timer system (system.timerReqSchedule request).2 := by
  rcases timerReqSchedule_cases request with requested | ⟨refused, _⟩
  · rw [requested]
    refine .ofFields rfl (fun _ listed => .inl listed) (fun _ active => .inl active)
      fun found member => ?_
    rcases List.mem_append.mp member with earlier | last
    · exact .inl earlier
    · exact .inr (List.mem_singleton.mp last ▸ different)
  · rw [refused]
    exact .refl

theorem Forgets.clearRequests : Forgets timer system { system with requests := [] } :=
  .ofFields rfl (fun _ listed => .inl listed) (fun _ active => .inl active)
    fun _ requested => nomatch requested

variable [DecidableEq ι]

theorem Forgets.modify {change : AppTimer → AppTimer} (different : other ≠ timer) :
    Forgets timer system (system.modify other change) :=
  .ofFields (modify_other different.symm) (fun _ listed => .inl listed)
    (fun _ active => .inl active)
    fun _ requested => .inl requested

theorem Forgets.timerExpire (different : other ≠ timer) :
    Forgets timer system (system.timerExpire other) := by
  unfold AppTimers.timerExpire
  split
  · split
    · split
      · exact (Forgets.modify different).trans (.modify different)
      · exact ((Forgets.modify different).trans (.modify different)).trans (.add different)
    · exact .add different
  · exact .refl

theorem Forgets.serve {request : TimerReq ι} (different : request.timer ≠ timer) :
    Forgets timer system (system.serve request) := by
  cases request with
  | start other =>
      simp only [AppTimers.serve]
      split
      · exact .refl
      · exact (Forgets.modify different).trans (.add different)
  | stop other =>
      simp only [AppTimers.serve]
      split
      · exact .clearActive
      · exact .ofFields rfl (fun _ listed => .inl (List.mem_of_mem_erase listed))
          (fun _ active => .inl active)
          fun _ requested => .inl requested

theorem Forgets.serveAll {requests : List (TimerReq ι)}
    (unrequested : timer ∉ requests.map TimerReq.timer) :
    Forgets timer system (requests.foldl AppTimers.serve system) := by
  induction requests generalizing system with
  | nil => exact .refl
  | cons request rest ih =>
      rw [List.map_cons, List.mem_cons, not_or] at unrequested
      exact (Forgets.serve (Ne.symm unrequested.1)).trans (ih unrequested.2)

theorem Forgets.timerReqProcess : Forgets timer system system.timerReqProcess := fun lost =>
  (Forgets.clearRequests.trans (.serveAll lost.unrequested)) lost

theorem Forgets.rtcSchedule (different : other ≠ timer) {ok : Bool}
    (result : system.rtcSchedule other delays = (ok, after)) : Forgets timer system after := by
  by_cases future : system.getNow < system.endVal other
  · by_cases success : (system.compareSet other delays).1 = nrfSuccess
    · rw [(Prod.mk.inj (result.symm.trans (rtcSchedule_set future success))).2]
      exact .setRtc
    · rw [(Prod.mk.inj (result.symm.trans (rtcSchedule_missed future success))).2]
      exact Forgets.setRtc.trans (.timerExpire different)
  · rw [(Prod.mk.inj (result.symm.trans (rtcSchedule_past (Nat.le_of_not_lt future)))).2]
    exact Forgets.setRtc.trans (.timerExpire different)

theorem Forgets.onCompareEvt : Forgets timer system system.onCompareEvt := by
  intro lost
  unfold AppTimers.onCompareEvt
  split
  · exact ⟨lost, rfl⟩
  · rename_i active some
    have different : active ≠ timer := fun same => lost.free (same ▸ some)
    exact ((Forgets.timerExpire different).trans .clearActive) lost

theorem Forgets.popAndSchedule {again : Bool}
    (result : system.popAndSchedule delays = (again, after)) :
    Forgets timer system after := by
  intro lost
  unfold AppTimers.popAndSchedule at result
  split at result
  · rw [← (Prod.mk.inj result).2]
    exact ⟨lost, rfl⟩
  · rename_i next rest listed
    have different : next ≠ timer := by
      intro same
      exact lost.unlisted (by rw [listed, same]; exact List.mem_cons_self)
    have popped : Forgets timer system { system with sortlist := rest } :=
      .ofFields rfl (fun _ inRest => .inl (by rw [listed]; exact List.mem_cons_of_mem _ inRest))
        (fun _ active => .inl active) fun _ requested => .inl requested
    cases scheduled : { system with sortlist := rest : AppTimers ι }.rtcSchedule next delays with
    | mk ok done =>
        have kept := popped.trans (Forgets.rtcSchedule different scheduled)
        rw [scheduled] at result
        cases ok with
        | true =>
            simp only [if_true] at result
            rw [← (Prod.mk.inj result).2]
            have held : Forgets timer done { done with activeTimer := some next } :=
              .ofFields rfl (fun _ listed => .inl listed)
                (fun found active => .inr (Option.some.inj active ▸ different))
                fun _ requested => .inl requested
            exact ((kept.trans held).trans .setRtc) lost
        | false =>
            simp only [Bool.false_eq_true, if_false] at result
            rw [← (Prod.mk.inj result).2]
            exact (kept.trans .clearActive) lost

theorem Forgets.rtcUpdate {again : Bool} (result : system.rtcUpdate delays = (again, after)) :
    Forgets timer system after := by
  unfold AppTimers.rtcUpdate at result
  split at result
  · rw [← (Prod.mk.inj result).2]
    split
    · exact .setRtc
    · exact .refl
  · split at result
    · exact Forgets.putBack.trans (.popAndSchedule result)
    · rw [← (Prod.mk.inj result).2]
      exact .refl

theorem Forgets.rtcIrq : Forgets timer system (system.rtcIrq delays) := by
  cases part : system.part with
  | overflow =>
      rw [rtcIrq_atOverflow part]
      unfold overflowPending
      split
      · exact fun lost => ⟨⟨lost.unlisted, lost.free, lost.unrequested⟩, rfl⟩
      · exact .setPart
  | compare0 =>
      rw [rtcIrq_atCompare0 part]
      unfold comparePending
      split
      · exact (Forgets.setRtc.trans .onCompareEvt).trans .setPart
      · exact .setPart
  | compare1 =>
      rw [rtcIrq_atCompare1 part]
      unfold compare1Pending
      split
      · exact fun lost => ⟨⟨lost.unlisted, lost.free, lost.unrequested⟩, rfl⟩
      · exact .setPart
  | requests =>
      rw [rtcIrq_atRequests part]
      exact Forgets.timerReqProcess.trans .setPart
  | update =>
      cases result : system.rtcUpdate delays with
      | mk again after =>
          rw [rtcIrq_atUpdate part result]
          exact (Forgets.rtcUpdate result).trans .setPart

/-- Whatever happens but for a stop, a start included, a lost timer is left as it is. -/
theorem Forgets.step {input : AppTimersInput ι} (active : (system.timers timer).active = true)
    (unstopped : input ≠ .stop timer) : Forgets timer system (system.step input) := by
  intro lost
  cases input with
  | tick extra => exact Forgets.setRtc lost
  | start other timeoutTicks =>
      simp only [AppTimers.step, appTimerStart]
      split
      · exact ⟨lost, rfl⟩
      · rename_i inactive
        have different : other ≠ timer := fun same => inactive (same ▸ active)
        exact ((Forgets.modify different).trans
          (.request (show (TimerReq.start other).timer ≠ timer from different))) lost
  | stop other =>
      have different : other ≠ timer := fun same => unstopped (same ▸ rfl)
      exact ((Forgets.modify different).trans
        (.request (show (TimerReq.stop other).timer ≠ timer from different))) lost
  | interrupt delays => exact Forgets.rtcIrq lost

theorem Forgets.run {inputs : List (AppTimersInput ι)}
    (active : (system.timers timer).active = true) (unstopped : .stop timer ∉ inputs) :
      Forgets timer system (Data.run AppTimers.step system inputs) := by
  intro lost
  induction inputs generalizing system with
  | nil => exact ⟨lost, rfl⟩
  | cons input rest ih =>
      rw [List.mem_cons, not_or] at unstopped
      rcases Forgets.step active (Ne.symm unstopped.1) lost with ⟨next, same⟩
      rcases ih (by rw [same, active]) unstopped.2 next with ⟨last, still⟩
      exact ⟨last, still.trans same⟩

theorem serve_start_stop (lost : Lost timer system)
    (inactive : (system.timers timer).active = false) :
    Lost timer ((system.serve (.start timer)).serve (.stop timer)) ∧
      ((system.serve (.start timer)).serve (.stop timer)).timers timer =
        { system.timers timer with active := true } := by
  simp only [serve, inactive, Bool.false_eq_true, if_false]
  have free : ((system.modify timer fun data => { data with active := true }).nrfSortlistAdd
      timer).activeTimer ≠
      some timer := lost.free
  rw [if_neg free]
  have data : (system.modify timer fun data => { data with active := true }).timers timer =
      { system.timers timer with active := true } := modify_self
  refine ⟨⟨fun listed => ?_, lost.free, lost.unrequested⟩, data⟩
  have erased := (@insertByKey_perm
    _ _ _ (system.modify timer fun data => { data with active := true }).endVal timer
    system.sortlist).erase timer
  rw [List.erase_cons_head] at erased
  exact lost.unlisted (erased.mem_iff.mp listed)

theorem timerReqProcess_start_stop {earlier : List (TimerReq ι)}
    (unlisted : timer ∉ system.sortlist)
    (free : system.activeTimer ≠ some timer) (unrequested : timer ∉ earlier.map TimerReq.timer)
    (inactive : (system.timers timer).active = false)
    (requests : system.requests = earlier ++ [.start timer, .stop timer]) :
    Lost timer system.timerReqProcess ∧
      system.timerReqProcess.timers timer = { system.timers timer with active := true } := by
  have cleared : Lost timer { system with requests := [] } := ⟨unlisted, free, List.not_mem_nil⟩
  rcases Forgets.serveAll unrequested cleared with ⟨lost, same⟩
  have stopped : ((earlier.foldl AppTimers.serve { system with requests := [] }).timers
      timer).active = false := by
    rw [same]
    exact inactive
  have both := serve_start_stop lost stopped
  have served : system.timerReqProcess =
      ((earlier.foldl AppTimers.serve { system with requests := [] }).serve (.start timer)).serve
        (.stop timer) := by
    simp only [timerReqProcess, requests, List.foldl_append, List.foldl_cons, List.foldl_nil]
  rw [served]
  rw [same] at both
  exact both

theorem appTimerStart_active (active : (system.timers timer).active = true) (timeoutTicks : Nat) :
    system.appTimerStart timer timeoutTicks = (nrfSuccess, system) := by
  simp only [appTimerStart, active, if_true]

theorem start_stop_requested (inactive : (system.timers timer).active = false)
    (room : system.requests.length + 2 ≤ appTimerConfigOpQueueSize) (timeoutTicks : Nat) :
    let after := (system.step (.start timer timeoutTicks)).step (.stop timer)
    after.requests = system.requests ++ [.start timer, .stop timer] ∧
      after.sortlist = system.sortlist ∧
      after.activeTimer = system.activeTimer ∧ after.part = system.part ∧
      (after.timers timer).active = false ∧
      (after.timers timer).posts = [] := by
  have started : system.step (.start timer timeoutTicks) =
      { system.modify timer (AppTimer.restart system.getNow timeoutTicks) with
        requests := system.requests ++ [.start timer] } := by
    have enough : system.requests.length < appTimerConfigOpQueueSize := by omega
    simp only [step, appTimerStart, inactive, Bool.false_eq_true, if_false]
    rcases timerReqSchedule_cases (.start timer) with requested | ⟨_, full⟩
    · exact requested
    · exact absurd enough (Nat.not_lt.mpr full)
  have restarted : ((system.step (.start timer timeoutTicks)).timers timer).posts = [] := by
    rw [started]
    exact congrArg AppTimer.posts
      (@modify_self _ system timer _ (AppTimer.restart system.getNow timeoutTicks))
  have queued :
      (system.step (.start timer timeoutTicks)).requests = system.requests ++ [.start timer] := by
    rw [started]
  have listed : (system.step (.start timer timeoutTicks)).sortlist = system.sortlist := by
    rw [started]
    rfl
  have active : (system.step (.start timer timeoutTicks)).activeTimer = system.activeTimer := by
    rw [started]
    rfl
  have part : (system.step (.start timer timeoutTicks)).part = system.part := by
    rw [started]
    rfl
  generalize system.step (.start timer timeoutTicks) = between at *
  have stopped : between.step (.stop timer) =
      { between.modify timer fun data => { data with active := false } with
        requests := between.requests ++ [.stop timer] } := by
    have enough : between.requests.length < appTimerConfigOpQueueSize := by
      rw [queued, List.length_append, List.length_singleton]
      omega
    simp only [step, appTimerStop]
    rcases timerReqSchedule_cases (.stop timer) with requested | ⟨_, full⟩
    · exact requested
    · exact absurd enough (Nat.not_lt.mpr full)
  have data : (between.modify timer fun data => { data with active := false }).timers timer =
      { between.timers timer with active := false } := modify_self
  intro after
  have same : after = _ := stopped
  rw [same]
  refine ⟨?_, listed, active, part, congrArg AppTimer.active data,
    (congrArg AppTimer.posts data).trans restarted⟩
  rw [queued, List.append_assoc]
  rfl

/-- A timer that is stopped before its start has been served never expires, and from then on
`app_timer_start` reports success and does nothing, until the timer is stopped again. -/
theorem stopped_unserved_lost {system : AppTimers ι} {timer : ι}
    (inactive : (system.timers timer).active = false)
    (unlisted : timer ∉ system.sortlist) (free : system.activeTimer ≠ some timer)
    (unrequested : timer ∉ system.requests.map TimerReq.timer)
    (room : system.requests.length + 2 ≤ appTimerConfigOpQueueSize) (part : system.part = .requests)
    (timeoutTicks : Nat) (delays : RtcDelays) (inputs : List (AppTimersInput ι))
    (unstopped : .stop timer ∉ inputs) :
    let after :=
      run step system (.start timer timeoutTicks :: .stop timer :: .interrupt delays :: inputs)
    (after.timers timer).active = true ∧ (after.timers timer).posts = [] ∧
      ∀ ticks, after.appTimerStart timer ticks = (nrfSuccess, after) := by
  intro after
  rcases start_stop_requested inactive room timeoutTicks
    with ⟨requests, listed, held, stage, stopped, posts⟩
  have reached : after = run step
      (((system.step (.start timer timeoutTicks)).step (.stop timer)).rtcIrq delays) inputs :=
    rfl
  generalize (system.step (.start timer timeoutTicks)).step (.stop timer) = asked at *
  rw [← listed] at unlisted
  rw [← held] at free
  rcases timerReqProcess_start_stop unlisted free unrequested stopped requests with ⟨lost, data⟩
  have irq := @rtcIrq_atRequests _ asked _ delays (stage.trans part)
  have lost : Lost timer (asked.rtcIrq delays) := by
    rw [irq]
    exact (Forgets.setPart lost).1
  have data : (asked.rtcIrq delays).timers timer = { asked.timers timer with active := true } := by
    rw [irq]
    exact data
  rcases Forgets.run (by rw [data]) unstopped lost with ⟨_, still⟩
  rw [← reached, data] at still
  have active : (after.timers timer).active = true := by rw [still]
  exact ⟨active, by rw [still]; exact posts, appTimerStart_active active⟩

/-- The only timer is started for three ticks and stopped,
and started again before eight ticks pass. -/
theorem stopped_unserved_lost_startedAgain :
    let system := run step (init fun _ : Unit => true) (List.replicate 3 (.interrupt .none))
    let after := run step system
      (.start () 3 :: .stop () :: .interrupt .none :: .start () 3 :: List.replicate 8 (.tick false))
    (after.timers ()).active = true ∧ (after.timers ()).posts = [] := by
  have lost := @stopped_unserved_lost Unit
    _ (run step (init fun _ : Unit => true) (List.replicate 3 (.interrupt .none))) ()
    (by decide +kernel) (by decide +kernel) (by decide +kernel) (by decide +kernel)
      (by decide +kernel)
    (by decide +kernel) 3 .none (.start () 3 :: List.replicate 8 (.tick false)) (by simp)
  exact ⟨lost.1, lost.2.1⟩

end AppTimers

end BleKeyboard.Sched
