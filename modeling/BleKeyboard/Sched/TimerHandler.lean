import BleKeyboard.Sched.TimerRuns

namespace BleKeyboard.Sched

open BleKeyboard.Ble (nrfSuccess)
open BleKeyboard.Data

namespace Rtc
variable {rtc : Rtc} {absValue safeWindow : Nat}

theorem compareEnable_compare : rtc.compareEnable.compare = rtc.compare := rfl

theorem ccSet_compare (value : Nat) : (rtc.ccSet value).compare = rtc.compare := rfl

theorem clearPrefiring_none : (rtc.clearPrefiring .none).compare = false := by
  simp only [clearPrefiring]
  split <;> rfl

theorem compareNext_none : (rtc.compareNext absValue .none).2.compare = rtc.compare := by
  have kept : (((rtc.elapse RtcDelays.none.beforeWrite).ccSet (absValue + 1)).elapse
      RtcDelays.none.beforeCheck).compare =
      rtc.compare := ccSet_compare _
  simp only [compareNext]
  generalize ((rtc.elapse RtcDelays.none.beforeWrite).ccSet (absValue + 1)).elapse
    RtcDelays.none.beforeCheck = seen at *
  split
  · exact kept
  · exact kept

theorem compareLater_none :
    (rtc.compareLater absValue safeWindow .none).2.compare = rtc.compare := by
  have kept : (((rtc.elapse RtcDelays.none.beforeWrite).ccSet absValue).elapse
      RtcDelays.none.beforeCheck).compare =
      rtc.compare := ccSet_compare _
  simp only [compareLater]
  generalize ((rtc.elapse RtcDelays.none.beforeWrite).ccSet absValue).elapse
    RtcDelays.none.beforeCheck = seen at *
  have again : ((seen.ccSet (absValue + 1)).elapse RtcDelays.none.beforeRecheck).compare =
    seen.compare := ccSet_compare _
  split
  · exact kept
  · split
    · split
      · exact again.trans kept
      · exact again.trans kept
    · exact kept

theorem windowedCompareSet_none :
    (rtc.windowedCompareSet absValue safeWindow .none).2.compare = false := by
  have cleared : (rtc.clearPrefiring .none).compareEnable.compare = false := by
    rw [compareEnable_compare, clearPrefiring_none]
  simp only [windowedCompareSet]
  generalize (rtc.clearPrefiring .none).compareEnable = ready at *
  split
  · exact compareNext_none.trans cleared
  · exact compareLater_none.trans cleared

end Rtc
namespace AppTimers

variable {ι : Type*} {system : AppTimers ι} {held : ι → Prop} {requests : List (TimerReq ι)}
    {timer : ι} {latency : Nat}

/-- What the timers of the list are behind, a tick for each that is due. -/
def overdue (system : AppTimers ι) : Nat :=
  (system.sortlist.map fun timer => system.rtc.clock.time + 1 - system.endVal timer).sum

theorem safeWindow_pos : RtcDelays.none.total < appTimerSafeWindow := by decide

theorem compareSet_none_time :
    (system.compareSet timer .none).2.clock.time = system.rtc.clock.time := by
  rcases @compareSet_clock _ system timer .none with ⟨count, few, clock⟩
  have none : count = 0 := Nat.le_zero.mp few
  rw [clock, none]
  rfl

theorem compareSet_none_success (sound : Sound held requests system)
    (now : system.getNow = system.rtc.clock.time) (future : system.getNow < system.endVal timer) :
      (system.compareSet timer .none).1 = nrfSuccess := by
  rw [now] at future
  rcases ccVal_target future (sound.kept timer).near now with ⟨target, abs, ahead, near, within⟩
  rcases Rtc.windowedCompareSet_settled abs ahead near safeWindow_le safeWindow_pos
    with ⟨success, _⟩ | ⟨_, reached⟩
  · exact success
  · have still := @compareSet_none_time _ system timer
    rw [compareSet] at still
    omega

theorem setRtc_requests {rtc : Rtc} :
    { system with rtc : AppTimers ι }.requests = system.requests := rfl

theorem set_quiet {after : AppTimers ι} {rtc : Rtc} (set : after = { system with rtc })
    (cleared : rtc.compare = false) :
    after.requests = system.requests ∧ after.rtc.compare = false := by
  subst set
  exact ⟨setRtc_requests, cleared⟩

theorem putBack_idle (idle : system.activeTimer = none) : system.putBack = system := by
  simp only [putBack, idle]

theorem compareSet_none_compare : (system.compareSet timer .none).2.compare = false := by
  unfold compareSet
  exact Rtc.windowedCompareSet_none

theorem overdue_add : (system.nrfSortlistAdd timer).overdue =
    system.rtc.clock.time + 1 - system.endVal timer + system.overdue := by
  have sum := (@insertByKey_perm _ _ _ system.endVal timer system.sortlist).map fun other =>
    system.rtc.clock.time + 1 - system.endVal other
  exact sum.sum_nat.trans (by rw [List.map_cons, List.sum_cons]; rfl)

theorem overflowPending_time : system.overflowPending.rtc.clock.time = system.rtc.clock.time := by
  unfold overflowPending
  split
  · rfl
  · rfl

theorem compare1Pending_time : system.compare1Pending.rtc.clock.time = system.rtc.clock.time ∧
    system.compare1Pending.rtc.compare = system.rtc.compare := by
  unfold compare1Pending
  split
  · exact ⟨rfl, rfl⟩
  · exact ⟨rfl, rfl⟩

variable [DecidableEq ι]

theorem expired_quiet {after : AppTimers ι} {rtc : Rtc}
    (expired : after = { system with rtc : AppTimers ι }.timerExpire timer)
    (cleared : rtc.compare = false) :
      after.requests = system.requests ∧ after.rtc.compare = false := by
  have same := @timerExpire_sameTime _ { system with rtc } _ timer
  have requests := @timerExpire_requests _ { system with rtc } timer _
  rw [← expired] at same requests
  exact ⟨requests, (congrArg Rtc.compare same.rtc).trans cleared⟩

theorem rtcSchedule_quiet (served : system.rtc.compare = false) {ok : Bool} {after : AppTimers ι}
    (result : system.rtcSchedule timer .none = (ok, after)) :
    after.requests = system.requests ∧ after.rtc.compare = false := by
  by_cases future : system.getNow < system.endVal timer
  · by_cases success : (system.compareSet timer .none).1 = nrfSuccess
    · have set := result.symm.trans (rtcSchedule_set future success)
      exact set_quiet (Prod.mk.inj set).2 compareSet_none_compare
    · have missed := result.symm.trans (rtcSchedule_missed future success)
      exact expired_quiet (Prod.mk.inj missed).2 compareSet_none_compare
  · have past := result.symm.trans (rtcSchedule_past (Nat.le_of_not_lt future))
    exact expired_quiet (Prod.mk.inj past).2 served

theorem rtcSchedule_failed (sound : Sound held requests system)
    (now : system.getNow = system.rtc.clock.time)
    {after : AppTimers ι} (result : system.rtcSchedule timer .none = (false, after)) :
    system.endVal timer ≤ system.getNow ∧
      after = { system with rtc := system.rtc.compareDisable : AppTimers ι }.timerExpire timer := by
  by_cases future : system.getNow < system.endVal timer
  · have success := compareSet_none_success sound now future
    have set := result.symm.trans (rtcSchedule_set future success)
    exact absurd (Prod.mk.inj set).1 Bool.false_ne_true
  · have past := Nat.le_of_not_lt future
    have expired := result.symm.trans (rtcSchedule_past past)
    exact ⟨past, (Prod.mk.inj expired).2⟩

theorem overdue_modify {change : AppTimer → AppTimer} (unlisted : timer ∉ system.sortlist) :
    (system.modify timer change).overdue = system.overdue := by
  have same : ∀ other ∈ system.sortlist,
      system.rtc.clock.time + 1 - (system.modify timer change).endVal other =
        system.rtc.clock.time + 1 - system.endVal other := by
    intro other listed
    have different : other ≠ timer := fun equal => unlisted (equal ▸ listed)
    simp only [endVal, modify_other different]
  exact congrArg List.sum (List.map_congr_left same)

theorem overdue_reschedule {change : AppTimer → AppTimer} (unlisted : timer ∉ system.sortlist) :
    ((system.modify timer change).nrfSortlistAdd timer).overdue =
      system.rtc.clock.time + 1 - (change (system.timers timer)).endVal + system.overdue := by
  have rtc : (system.modify timer change).rtc = system.rtc := rfl
  rw [overdue_add, overdue_modify unlisted, endVal, modify_self, rtc]

theorem overdue_timerExpire (unlisted : timer ∉ system.sortlist)
    (now : system.getNow = system.rtc.clock.time) (due : system.endVal timer ≤ system.getNow) :
    (system.timerExpire timer).overdue < system.rtc.clock.time + 1 - system.endVal timer +
    system.overdue := by
  have behind : system.endVal timer ≤ system.rtc.clock.time := now ▸ due
  simp only [timerExpire]
  split
  · split
    · have later : (system.modify timer fun data => { data with active := false }).getNow =
          system.rtc.clock.time :=
        (modify_sameTime timer _).getNow.trans now
      rw [eventPut_eq later, modify_modify, overdue_modify unlisted]
      omega
    · rename_i repeated
      have period := Nat.pos_of_ne_zero repeated
      rw [eventPut_eq now, modify_modify, overdue_reschedule unlisted]
      simp only [endVal] at behind ⊢
      omega
  · omega

theorem overdue_expired {rtc : Rtc} (clock : rtc.clock = system.rtc.clock)
    (unlisted : timer ∉ system.sortlist)
    (now : system.getNow = system.rtc.clock.time) (due : system.endVal timer ≤ system.getNow) :
    ({ system with rtc : AppTimers ι }.timerExpire timer).overdue <
      system.rtc.clock.time + 1 - system.endVal timer + system.overdue := by
  have same : { system with rtc : AppTimers ι }.getNow = system.getNow := getNow_setRtc clock
  have reached : { system with rtc : AppTimers ι }.getNow = rtc.clock.time := by
    rw [same, now, clock]
  have still : { system with rtc : AppTimers ι }.overdue = system.overdue := by
    simp only [overdue, endVal, clock]
  have lower := @overdue_timerExpire _ { system with rtc } timer _ unlisted reached (same ▸ due)
  rw [still] at lower
  simp only [clock] at lower
  exact lower

/-- A pass that is followed by another one has made some timer expire. -/
theorem popAndSchedule_again (tracking : Tracking latency system) (short : latency ≤ drvRtcHalf)
    (sound : Sound (fun _ => False) requests system) {after : AppTimers ι}
    (result : system.popAndSchedule .none = (true, after)) :
    after.activeTimer = none ∧ after.overdue < system.overdue := by
  unfold popAndSchedule at result
  split at result
  · cases result
  · rename_i next rest listed
    have popped := sound.pop listed
    have tracked : Tracking latency { system with sortlist := rest } :=
      tracking.sameTime ⟨rfl, rfl, rfl⟩
    cases scheduled : { system with sortlist := rest : AppTimers ι }.rtcSchedule next .none with
    | mk ok expired =>
        rw [scheduled] at result
        cases ok with
        | true => cases result
        | false =>
            simp only [Bool.false_eq_true, if_false] at result
            rcases rtcSchedule_failed popped (tracked.getNow_eq short) scheduled with ⟨due, reached⟩
            have ended := (Prod.mk.inj result).2
            have unlisted := popped.apart next (.inr rfl)
            have lower := @overdue_expired _ { system with sortlist := rest }
              next _ system.rtc.compareDisable rfl unlisted
              (tracked.getNow_eq short) due
            rw [← reached] at lower
            have behind : system.overdue = system.rtc.clock.time + 1 - system.endVal next +
                { system with sortlist := rest : AppTimers ι }.overdue := by
              simp only [overdue, listed, List.map_cons, List.sum_cons]
              rfl
            refine ⟨by rw [← ended], ?_⟩
            rw [← ended, behind]
            exact lower

theorem popAndSchedule_quiet (served : system.rtc.compare = false) {again : Bool}
    {after : AppTimers ι} (result : system.popAndSchedule .none = (again, after)) :
    after.requests = system.requests ∧ after.rtc.compare = false := by
  unfold popAndSchedule at result
  split at result
  · rw [← (Prod.mk.inj result).2]
    exact ⟨rfl, served⟩
  · rename_i next rest listed
    cases scheduled : { system with sortlist := rest : AppTimers ι }.rtcSchedule next .none with
    | mk ok expired =>
        have quiet :=
          @rtcSchedule_quiet _ { system with sortlist := rest } next _ served ok expired scheduled
        rw [scheduled] at result
        cases ok with
        | true =>
            simp only [if_true] at result
            rw [← (Prod.mk.inj result).2]
            refine ⟨quiet.1, ?_⟩
            dsimp only
            split
            · exact quiet.2
            · exact quiet.2
        | false =>
            simp only [Bool.false_eq_true, if_false] at result
            rw [← (Prod.mk.inj result).2]
            exact quiet

theorem rtcUpdate_quiet (served : system.rtc.compare = false) {again : Bool} {after : AppTimers ι}
    (result : system.rtcUpdate .none = (again, after)) :
    after.requests = system.requests ∧ after.rtc.compare = false := by
  unfold rtcUpdate at result
  split at result
  · rw [← (Prod.mk.inj result).2]
    split
    · exact ⟨rfl, served⟩
    · exact ⟨rfl, served⟩
  · split at result
    · have same := @putBack_sameTime _ system
      have kept : system.putBack.rtc.compare = false := by rw [same.rtc, served]
      have quiet := popAndSchedule_quiet kept result
      exact ⟨quiet.1.trans putBack_requests, quiet.2⟩
    · rw [← (Prod.mk.inj result).2]
      exact ⟨rfl, served⟩

theorem rtcUpdate_again (tracking : Tracking latency system) (short : latency ≤ drvRtcHalf)
    (scheduled : Scheduled system) {after : AppTimers ι}
    (result : system.rtcUpdate .none = (true, after)) :
    after.activeTimer = none ∧ (system.activeTimer = none → after.overdue < system.overdue) := by
  unfold rtcUpdate at result
  split at result
  · cases (Prod.mk.inj result).1
  · split at result
    · have tracked := tracking.sameTime putBack_sameTime
      rcases popAndSchedule_again tracked short scheduled.sound.putBack result with ⟨none, lower⟩
      refine ⟨none, fun idle => ?_⟩
      rw [putBack_idle idle] at lower
      exact lower
    · cases (Prod.mk.inj result).1

theorem rtcUpdate_time {again : Bool} {after : AppTimers ι}
    (result : system.rtcUpdate .none = (again, after)) :
    after.rtc.clock.time = system.rtc.clock.time := by
  have passed := @rtcUpdate_passed _ system _ .none
  rw [result] at passed
  rcases passed.clock with ⟨count, few, running, clock⟩
  have none : count = 0 := Nat.le_zero.mp few
  rw [clock, none]
  rfl

section

variable {delays : RtcDelays}

theorem rtcIrq_atOverflow (part : system.part = .overflow) :
    system.rtcIrq delays = { system.overflowPending with part := .compare0 } := by
  simp only [rtcIrq, part]

theorem rtcIrq_atCompare0 (part : system.part = .compare0) :
    system.rtcIrq delays = { system.comparePending with part := .compare1 } := by
  simp only [rtcIrq, part]

theorem rtcIrq_atCompare1 (part : system.part = .compare1) :
    system.rtcIrq delays = { system.compare1Pending with part := .requests } := by
  simp only [rtcIrq, part]

theorem rtcIrq_atRequests (part : system.part = .requests) :
    system.rtcIrq delays = { system.timerReqProcess with part := .update } := by
  simp only [rtcIrq, part]

theorem rtcIrq_atUpdate (part : system.part = .update) {again : Bool} {after : AppTimers ι}
    (result : system.rtcUpdate delays = (again, after)) :
    system.rtcIrq delays = { after with part := if again then .update else .overflow } := by
  simp only [rtcIrq, part, result]

end

/-- What holds while the handler updates the register, `time` being the tick in which it runs. -/
structure Updating (latency time : Nat) (system : AppTimers ι) : Prop where
  punctual : Punctual latency system
  part : system.part = .update ∨ system.part = .overflow
  time : system.rtc.clock.time = time
  served : system.rtc.compare = false
  requests : system.requests = []

theorem Punctual.rtcIrq_none (punctual : Punctual latency system) (short : latency ≤ drvRtcHalf) :
    Punctual latency (system.rtcIrq .none) := by
  refine punctual.rtcIrq short (fun count few => ?_) safeWindow_pos
  have none : count = 0 := Nat.le_zero.mp few
  rw [none]
  exact punctual.tracking.prompt

/-- A pass of the loop: it is the last one, or it leaves no active
timer and, from there on, some timer less behind. -/
theorem Updating.pass {time : Nat} (updating : Updating latency time system)
    (short : latency ≤ drvRtcHalf) (inside : system.part = .update) :
    Updating latency time (system.rtcIrq .none) ∧
      ((system.rtcIrq .none).part = .overflow ∨ (system.rtcIrq .none).activeTimer = none ∧
        (system.activeTimer = none → (system.rtcIrq .none).overdue < system.overdue)) := by
  have punctual := updating.punctual.rtcIrq_none short
  cases result : system.rtcUpdate .none with
  | mk again after =>
      have quiet := rtcUpdate_quiet updating.served result
      have still := rtcUpdate_time result
      rw [rtcIrq_atUpdate inside result] at punctual ⊢
      refine ⟨⟨punctual, ?_, still.trans updating.time, quiet.2, quiet.1.trans updating.requests⟩,
        ?_⟩
      · cases again with
        | true => exact .inl rfl
        | false => exact .inr rfl
      · cases again with
        | true =>
            have more :=
              rtcUpdate_again updating.punctual.tracking short updating.punctual.scheduled result
            exact .inr more
        | false => exact .inl rfl

theorem Updating.ends {time : Nat} (updating : Updating latency time system)
    (short : latency ≤ drvRtcHalf) :
    ∃ count, Updating latency time ((fun state => state.rtcIrq .none)^[count] system) ∧
      ((fun state => state.rtcIrq .none)^[count] system).part = .overflow := by
  by_cases outside : system.part = .overflow
  · exact ⟨0, updating, outside⟩
  · rcases updating.pass short (updating.part.resolve_right outside) with ⟨passed, outcome⟩
    have idle : (system.rtcIrq .none).part = .overflow ∨ (system.rtcIrq .none).activeTimer = none :=
      outcome.imp_right And.left
    have looped := @exists_iterate_done _ (fun state => state.rtcIrq .none)
      (fun state : AppTimers ι => Updating latency time state ∧
        (state.part = .overflow ∨ state.activeTimer = none))
      (fun state => state.part = .overflow)
      (fun state => if state.part = .overflow then 0 else state.overdue + 1) ?_ _ ⟨passed, idle⟩
    · rcases looped with ⟨count, ended, outside⟩
      exact ⟨count + 1, ended.1, outside⟩
    · intro state ⟨updating, idle⟩ unfinished
      rcases updating.pass short (updating.part.resolve_right unfinished) with ⟨passed, outcome⟩
      refine ⟨⟨passed, outcome.imp_right And.left⟩, ?_⟩
      rw [if_neg unfinished]
      rcases outcome with finished | ⟨_, lower⟩
      · rw [if_pos finished]
        omega
      · have lower := lower (idle.resolve_left unfinished)
        split <;> omega

theorem comparePending_time : system.comparePending.rtc.clock.time = system.rtc.clock.time ∧
    system.comparePending.rtc.compare = false := by
  unfold comparePending
  split
  · have same :=
      @onCompareEvt_sameTime _ { system with rtc := { system.rtc with compare := false } } _
    rw [same.rtc]
    exact ⟨rfl, rfl⟩
  · rename_i served
    exact ⟨rfl, by simpa using served⟩

theorem timerReqProcess_requests : system.timerReqProcess.requests = [] :=
  (@serve_foldl _ { system with requests := [] } _ system.requests).2.2

theorem rtcIrq_overflow (part : system.part = .overflow) : (system.rtcIrq .none).part = .compare0 ∧
    (system.rtcIrq .none).rtc.clock.time = system.rtc.clock.time := by
  rw [rtcIrq_atOverflow part]
  exact ⟨rfl, overflowPending_time⟩

theorem rtcIrq_compare0 (part : system.part = .compare0) : (system.rtcIrq .none).part = .compare1 ∧
    (system.rtcIrq .none).rtc.clock.time = system.rtc.clock.time ∧
    (system.rtcIrq .none).rtc.compare = false := by
  rw [rtcIrq_atCompare0 part]
  exact ⟨rfl, comparePending_time⟩

theorem rtcIrq_compare1 (part : system.part = .compare1) : (system.rtcIrq .none).part = .requests ∧
    (system.rtcIrq .none).rtc.clock.time = system.rtc.clock.time ∧
      (system.rtcIrq .none).rtc.compare = system.rtc.compare := by
  rw [rtcIrq_atCompare1 part]
  exact ⟨rfl, compare1Pending_time⟩

theorem rtcIrq_requests (part : system.part = .requests) : (system.rtcIrq .none).part = .update ∧
    (system.rtcIrq .none).rtc = system.rtc ∧ (system.rtcIrq .none).requests = [] := by
  rw [rtcIrq_atRequests part]
  exact ⟨rfl, timerReqProcess_sameTime.rtc, timerReqProcess_requests⟩

theorem Punctual.enters (punctual : Punctual latency system) (short : latency ≤ drvRtcHalf)
    (outside : system.part = .overflow) :
    Updating latency system.rtc.clock.time ((fun state => state.rtcIrq .none)^[4] system) := by
  rcases rtcIrq_overflow outside with ⟨atCompare0, time⟩
  rcases rtcIrq_compare0 atCompare0 with ⟨atCompare1, time', served⟩
  rcases rtcIrq_compare1 atCompare1 with ⟨atRequests, time'', served'⟩
  rcases rtcIrq_requests atRequests with ⟨atUpdate, rtc, requests⟩
  have entered :=
    (((punctual.rtcIrq_none short).rtcIrq_none short).rtcIrq_none short).rtcIrq_none short
  refine ⟨entered, .inl atUpdate, ?_, ?_, requests⟩
  · exact (congrArg (fun rtc : Rtc => rtc.clock.time) rtc).trans (time''.trans (time'.trans time))
  · exact (congrArg Rtc.compare rtc).trans (served'.trans served)

/-- The handler returns when no tick comes in between, and then every request has been served and
every timer that was due has expired. -/
theorem handler_returns (repeated : ι → Bool) {latency : Nat} (short : latency ≤ drvRtcHalf)
    (inputs : List (AppTimersInput ι))
    (prompt : Guarded step (Prompt latency) (init repeated) inputs)
    (orderly : Guarded step Orderly (init repeated) inputs) :
    let system := run step (init repeated) inputs
    system.part = .overflow →
      ∃ count > 0, let after := (fun state => state.rtcIrq .none)^[count] system
        after.part = .overflow ∧ after.rtc.clock.time = system.rtc.clock.time ∧
          after.requests = [] ∧
          ∀ timer, (after.timers timer).active = true →
            after.rtc.clock.time ≤ (after.timers timer).endVal ∧
              ((after.timers timer).repeatPeriod ≠ 0 → after.rtc.clock.time ≤
                (after.timers timer).startedAt +
                  ((after.timers timer).posts.length + 1) * (after.timers timer).repeatPeriod) := by
  intro system outside
  have punctual : Punctual latency system := (punctual_init repeated).run short prompt orderly
  rcases (punctual.enters short outside).ends short with ⟨count, ended, returned⟩
  rw [← Function.iterate_add_apply] at ended returned
  refine ⟨count + 4, by omega, returned, ended.time, ended.requests, fun timer active => ?_⟩
  have ahead := ended.punctual.ahead returned ended.served active
  have pending := ended.punctual.scheduled.sound.pending timer (.inl active)
  refine ⟨ahead, fun periodic => ?_⟩
  rw [← pending.periodic periodic]
  exact ahead

/-- The timer of three ticks is due for the third time. -/
theorem handler_returns_twoTimers :
    let system := run step (init fun _ => true) (twoTimers ++ [.tick false, .tick false])
    system.rtc.compare = true ∧ system.rtc.clock.time = 9 ∧
      ∃ count > 0,
        ((fun state : AppTimers Bool => state.rtcIrq .none)^[count] system).part = .overflow ∧
        ((fun state : AppTimers Bool => state.rtcIrq .none)^[count] system).requests = [] := by
  intro system
  have returns := handler_returns (fun _ => true) (by decide : 1 ≤ drvRtcHalf)
    (twoTimers ++ [.tick false, .tick false])
    (by decide +kernel) (by decide +kernel) (by decide +kernel)
  rcases returns with ⟨count, positive, returned, _, served, _⟩
  exact ⟨by decide +kernel, by decide +kernel, count, positive, returned, served⟩

end AppTimers

end BleKeyboard.Sched
