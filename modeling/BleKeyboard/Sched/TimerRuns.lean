import BleKeyboard.Sched.TimerSchedule

namespace BleKeyboard.Sched

open BleKeyboard.Ble (RetCode nrfSuccess nrfErrorTimeout)
open BleKeyboard.Data

namespace AppTimers

variable {ι : Type*} {system : AppTimers ι} {held : ι → Prop}
    {requests : List (TimerReq ι)} {timer : ι}
  {latency : Nat} {delays : RtcDelays} {rtc : Rtc}

theorem getNow_setRtc (clock : rtc.clock = system.rtc.clock) :
    { system with rtc : AppTimers ι }.getNow = system.getNow := by
  simp only [getNow, clock]

def compareSet (system : AppTimers ι) (timer : ι) (delays : RtcDelays) : RetCode × Rtc :=
  system.rtc.windowedCompareSet (system.ccVal timer) appTimerSafeWindow delays

theorem timeout_ne_success : nrfErrorTimeout ≠ nrfSuccess := by decide

theorem safeWindow_le : appTimerSafeWindow ≤ drvRtcMaxCnt := by decide

theorem compareSet_clock : ∃ count ≤ delays.total,
    (system.compareSet timer delays).2.clock = RtcClock.tick^[count] system.rtc.clock :=
  Rtc.windowedCompareSet_clock

theorem compareSet_settled (sound : Sound held requests system)
    (now : system.getNow = system.rtc.clock.time)
    (future : system.getNow < system.endVal timer) (brief : delays.total < appTimerSafeWindow) :
    (system.compareSet timer delays).1 = nrfSuccess →
      (system.compareSet timer delays).2.Fires (system.endVal timer + 1) := by
  intro success
  rw [now] at future
  rcases ccVal_target future (sound.kept timer).near now with ⟨target, abs, ahead, near, within⟩
  rcases Rtc.windowedCompareSet_settled abs ahead near safeWindow_le brief with ⟨_, fires⟩ |
    ⟨timeout, _⟩
  · exact fires.mono (Nat.add_le_add_right within 1)
  · rw [compareSet, timeout] at success
    exact absurd success timeout_ne_success

theorem Tracking.compareSet (tracking : Tracking latency system)
    (short : latency ≤ drvRtcHalf) (timer : ι)
    (prompt : ∀ count ≤ delays.total, (RtcClock.tick^[count] system.rtc.clock).Prompt latency) :
    Tracking latency { system with rtc := (system.compareSet timer delays).2 } := by
  rcases @compareSet_clock _ system timer delays with ⟨count, few, clock⟩
  exact tracking.passed short prompt (Passed.ofRtc few clock)

theorem compareSet_later :
    system.rtc.clock.time ≤ (system.compareSet timer delays).2.clock.time := by
  rcases @compareSet_clock _ system timer delays with ⟨count, few, clock⟩
  rw [clock]
  exact RtcClock.le_iterate_time

theorem compareSet_running :
    (system.compareSet timer delays).2.clock.running = system.rtc.clock.running := by
  rcases @compareSet_clock _ system timer delays with ⟨count, few, clock⟩
  rw [clock, RtcClock.iterate_running]

/-- The timer that the register is set for is live, and its event will come. -/
structure Scheduled (system : AppTimers ι) : Prop where
  sound : Sound (fun timer => system.activeTimer = some timer) system.requests system
  running : system.activeTimer ≠ none → system.rtc.clock.running = true
  fires : ∀ timer, system.activeTimer = some timer →
    system.rtc.compare = true ∨ system.rtc.Fires (system.endVal timer + 1)

def Earliest (system : AppTimers ι) : Prop :=
  ∀ timer ∈ system.sortlist, ∃ active, system.activeTimer = some active ∧
    system.endVal active ≤ system.endVal timer

theorem activeTimer_only {active : ι} (some : system.activeTimer = some active) :
    False ↔ system.activeTimer = .some timer ∧ timer ≠ active := by
  simp only [some, Option.some.injEq, ne_eq, false_iff, not_and, not_not]
  exact Eq.symm

theorem Sound.putBack
    (sound : Sound (fun timer => system.activeTimer = some timer) requests system) :
    Sound (fun _ => False) requests system.putBack := by
  unfold AppTimers.putBack
  split
  · rename_i none
    exact sound.congr fun timer => by simp [none]
  · rename_i active some
    split
    · exact (sound.add some).congr fun timer => activeTimer_only some
    · rename_i inactive
      exact (sound.drop (by simpa using inactive)).congr fun timer => activeTimer_only some

theorem putBack_sortlist (listed : system.sortlist ≠ []) : system.putBack.sortlist ≠ [] := by
  unfold putBack
  split
  · exact listed
  · rename_i active _
    split
    · have member : active ∈ insertByKey system.endVal active system.sortlist :=
        mem_insertByKey.mpr (.inl rfl)
      exact List.ne_nil_of_mem member
    · exact listed

theorem putBack_requests : system.putBack.requests = system.requests := by
  unfold putBack
  split
  · rfl
  · split
    · rfl
    · rfl

theorem putBack_activeTimer : system.putBack.activeTimer = system.activeTimer := by
  unfold putBack
  split
  · rfl
  · split
    · rfl
    · rfl

theorem rtcReconf_no {next : ι} (stays : system.rtcReconf next = false) :
    ∃ active, system.activeTimer = some active ∧ system.endVal active ≤ system.endVal next := by
  unfold rtcReconf at stays
  split at stays
  · contradiction
  · rename_i active some
    exact ⟨active, some, Nat.le_of_not_lt (by simpa using stays)⟩

theorem Scheduled.retime {after : AppTimers ι} (scheduled : Scheduled system)
    (timers : after.timers = system.timers) (sortlist : after.sortlist = system.sortlist)
    (activeTimer : after.activeTimer = system.activeTimer)
    (requests : after.requests = system.requests)
    (later : system.rtc.clock.time ≤ after.rtc.clock.time)
    (running : after.rtc.clock.running = system.rtc.clock.running)
    (fires : ∀ bound, system.rtc.clock.running = true →
      system.rtc.compare = true ∨ system.rtc.Fires bound →
      after.rtc.compare = true ∨ after.rtc.Fires bound) : Scheduled after := by
  refine ⟨?_, ?_, fun timer active => ?_⟩
  · rw [activeTimer, requests]
    exact scheduled.sound.later timers sortlist later
  · rw [activeTimer, running]
    exact scheduled.running
  · rw [activeTimer] at active
    have runs := scheduled.running (by rw [active]; exact Option.some_ne_none timer)
    have endVal : after.endVal timer = system.endVal timer := by
      simp only [AppTimers.endVal, timers]
    rw [endVal]
    exact fires _ runs (scheduled.fires timer active)

theorem Scheduled.setPart (scheduled : Scheduled system) (part : IrqPart) :
    Scheduled { system with part } :=
  scheduled.retime rfl rfl rfl rfl (Nat.le_refl _) rfl fun _ _ fires => fires

theorem Scheduled.overflowPending (scheduled : Scheduled system) :
    Scheduled system.overflowPending := by
  unfold AppTimers.overflowPending
  split
  · exact scheduled.retime rfl rfl rfl rfl (Nat.le_refl system.rtc.clock.time) rfl fun _ _ fires =>
      fires.imp_right fun fires => ⟨fires.enabled, fires.due⟩
  · exact scheduled

theorem Scheduled.compare1Pending (scheduled : Scheduled system) :
    Scheduled system.compare1Pending := by
  unfold AppTimers.compare1Pending
  split
  · exact scheduled.retime rfl rfl rfl rfl (Nat.le_refl system.rtc.clock.time) rfl fun _ _ fires =>
      fires.imp_right fun fires => ⟨fires.enabled, fires.due⟩
  · exact scheduled

theorem Scheduled.tick (scheduled : Scheduled system) (extra : Bool) :
    Scheduled { system with rtc := system.rtc.tick extra } := by
  refine scheduled.retime rfl rfl rfl rfl (@RtcClock.le_iterate_time system.rtc.clock 1)
    RtcClock.tick_running
    fun bound running fires => ?_
  rcases fires with pending | fires
  · exact .inl (by simp only [Rtc.tick, pending, Bool.true_or])
  · exact fires.tick running extra

theorem Earliest.congr {after : AppTimers ι} (earliest : Earliest system)
    (sortlist : after.sortlist = system.sortlist)
    (activeTimer : after.activeTimer = system.activeTimer)
    (endVal : ∀ timer, timer ∈ system.sortlist ∨ system.activeTimer = some timer →
      after.endVal timer = system.endVal timer) : Earliest after := by
  intro timer member
  rw [sortlist] at member
  rcases earliest timer member with ⟨active, some, first⟩
  refine ⟨active, activeTimer.trans some, ?_⟩
  rw [endVal timer (.inl member), endVal active (.inr some)]
  exact first

/-- What holds in every state that the timers reach. -/
structure Punctual (latency : Nat) (system : AppTimers ι) : Prop where
  tracking : Tracking latency system
  scheduled : Scheduled system
  earliest : system.part = .overflow → Earliest system

theorem Scheduled.idle (scheduled : Scheduled system)
    (unrequested : timer ∉ system.requests.map TimerReq.timer)
    (inactive : (system.timers timer).active = false) :
      timer ∉ system.sortlist ∧ system.activeTimer ≠ some timer := by
  refine not_or.mp fun alive => ?_
  rcases scheduled.sound.live timer alive with active | stopping
  · rw [inactive] at active
    contradiction
  · exact unrequested (List.mem_map.mpr ⟨_, stopping, rfl⟩)

theorem Punctual.request {after : AppTimers ι} (punctual : Punctual latency system)
    (sound : Sound (fun timer => system.activeTimer = some timer) after.requests after)
    (time : SameTime system after) (sortlist : after.sortlist = system.sortlist)
    (activeTimer : after.activeTimer = system.activeTimer)
    (part : after.part = system.part)
    (endVal : ∀ timer, timer ∈ system.sortlist ∨ system.activeTimer = some timer →
      after.endVal timer = system.endVal timer) : Punctual latency after := by
  refine ⟨punctual.tracking.sameTime time, ⟨?_, ?_, fun timer active => ?_⟩, fun outside => ?_⟩
  · rw [activeTimer]
    exact sound
  · rw [activeTimer, time.rtc]
    exact punctual.scheduled.running
  · rw [activeTimer] at active
    rw [time.rtc, endVal timer (.inr active)]
    exact punctual.scheduled.fires timer active
  · rw [part] at outside
    exact (punctual.earliest outside).congr sortlist activeTimer endVal

theorem timerReqSchedule_cases (request : TimerReq ι) :
    (system.timerReqSchedule request).2 = { system with requests := system.requests ++ [request] } ∨
      (system.timerReqSchedule request).2 = system ∧
      appTimerConfigOpQueueSize ≤ system.requests.length := by
  unfold timerReqSchedule
  split
  · exact .inl rfl
  · rename_i full
    exact .inr ⟨rfl, Nat.le_of_not_lt full⟩

theorem punctual_init (repeated : ι → Bool) : Punctual latency (init repeated) := by
  have inactive (timer : ι) : ((init repeated).timers timer).active = false := rfl
  refine ⟨tracking_init repeated, ⟨?_, fun active => absurd rfl active, fun timer active => ?_⟩,
    fun _ timer member => ?_⟩
  · refine ⟨fun timer => AppTimer.Kept.create (repeated timer), fun timer waiting => ?_,
      List.Pairwise.nil, List.nodup_nil,
      fun timer _ listed => ?_, fun timer active => ?_, fun timer alive => ?_, List.nodup_nil,
      fun timer started => ?_,
      fun timer stopped => ?_⟩
    · rcases waiting with active | started
      · rw [inactive] at active
        contradiction
      · cases started
    · cases listed
    · rw [inactive] at active
      contradiction
    · rcases alive with listed | held
      · cases listed
      · cases held
    · cases started
    · cases stopped
  · cases active
  · cases member

theorem Punctual.ahead (punctual : Punctual latency system) (outside : system.part = .overflow)
    (served : system.rtc.compare = false) (active : (system.timers timer).active = true) :
    system.rtc.clock.time ≤ system.endVal timer := by
  have caught {first : ι} (some : system.activeTimer = .some first) :
      system.rtc.clock.time ≤ system.endVal first := by
    rcases punctual.scheduled.fires first some with pending | fires
    · rw [served] at pending
      contradiction
    · rcases fires.due with ⟨due, later, within, _⟩
      omega
  rcases punctual.scheduled.sound.queued timer active with listed | held
  · rcases punctual.earliest outside timer listed with ⟨first, some, before⟩
    exact (caught some).trans before
  · exact caught held

variable [DecidableEq ι]

theorem rtcSchedule_past (past : system.endVal timer ≤ system.getNow) :
    system.rtcSchedule timer delays =
      (false,
      { system with rtc := system.rtc.compareDisable : AppTimers ι }.timerExpire timer) := by
  simp only [rtcSchedule, if_neg (Nat.not_lt.mpr past)]

theorem rtcSchedule_set (future : system.getNow < system.endVal timer)
    (success : (system.compareSet timer delays).1 = nrfSuccess) :
    system.rtcSchedule timer delays =
    (true, { system with rtc := (system.compareSet timer delays).2 }) := by
  simp only [compareSet] at success ⊢
  simp only [rtcSchedule, if_pos future, if_pos success]

theorem rtcSchedule_missed (future : system.getNow < system.endVal timer)
    (missed : (system.compareSet timer delays).1 ≠ nrfSuccess) :
    system.rtcSchedule timer delays =
      (false, { system with rtc := (system.compareSet timer delays).2 : AppTimers ι }.timerExpire
        timer) := by
  simp only [compareSet] at missed ⊢
  simp only [rtcSchedule, if_pos future, if_neg missed]

theorem rtcSchedule_cases (tracking : Tracking latency system) (short : latency ≤ drvRtcHalf)
    (prompt : ∀ count ≤ delays.total, (RtcClock.tick^[count] system.rtc.clock).Prompt latency)
    (brief : delays.total < appTimerSafeWindow) (sound : Sound held requests system)
    (holds : held timer) :
    (∃ rtc, system.rtcSchedule timer delays = (true, { system with rtc }) ∧
        rtc.Fires (system.endVal timer + 1) ∧ system.rtc.clock.time ≤ rtc.clock.time ∧
        rtc.clock.running = system.rtc.clock.running) ∨
      ∃ after, system.rtcSchedule timer delays = (false, after) ∧
        Sound (fun other => held other ∧ other ≠ timer) requests after ∧
        after.requests = system.requests := by
  have now := tracking.getNow_eq short
  by_cases future : system.getNow < system.endVal timer
  · have later : system.rtc.clock.time ≤ (system.compareSet timer delays).2.clock.time :=
      compareSet_later
    by_cases success : (system.compareSet timer delays).1 = nrfSuccess
    · exact .inl ⟨_, rtcSchedule_set future success,
        compareSet_settled sound now future brief success, later,
        compareSet_running⟩
    · refine .inr ⟨_, rtcSchedule_missed future success, ?_, timerExpire_requests⟩
      have still := (tracking.compareSet short timer prompt).getNow_eq short
      exact (sound.setRtc later).timerExpire holds still
  · refine .inr ⟨_, rtcSchedule_past (Nat.le_of_not_lt future), ?_, timerExpire_requests⟩
    have disabled : Sound held requests { system with rtc := system.rtc.compareDisable } :=
      sound.setRtc (Nat.le_refl system.rtc.clock.time)
    have still : { system with rtc := system.rtc.compareDisable : AppTimers ι }.getNow =
        system.rtc.clock.time :=
      (getNow_setRtc rfl).trans now
    exact disabled.timerExpire holds still

theorem Sound.popAndSchedule (tracking : Tracking latency system) (short : latency ≤ drvRtcHalf)
    (prompt : ∀ count ≤ delays.total, (RtcClock.tick^[count] system.rtc.clock).Prompt latency)
    (brief : delays.total < appTimerSafeWindow)
    (sound : Sound (fun _ => False) system.requests system)
    (running : system.activeTimer ≠ none → system.rtc.clock.running = true)
    (nonempty : system.sortlist ≠ []) :
    Scheduled (system.popAndSchedule delays).2 ∧
      ((system.popAndSchedule delays).1 = false → Earliest (system.popAndSchedule delays).2) := by
  cases listed : system.sortlist with
  | nil => exact absurd listed nonempty
  | cons next rest =>
      have popped := sound.pop listed
      have sorted := List.pairwise_cons.mp (listed ▸ sound.sorted)
      have tracked : Tracking latency { system with sortlist := rest } :=
        tracking.sameTime ⟨rfl, rfl, rfl⟩
      have scheduled := rtcSchedule_cases tracked short prompt brief popped (.inr rfl)
      simp only [AppTimers.popAndSchedule, listed]
      rcases scheduled with ⟨rtc, result, fires, later, still⟩ | ⟨after, result, sound, requests⟩
      · simp only [result, if_true]
        have started :
            (if system.activeTimer = none then rtc.start else rtc).Fires (system.endVal next + 1) ∧
            (if system.activeTimer = none then rtc.start else rtc).clock.running = true ∧
            system.rtc.clock.time ≤
            (if system.activeTimer = none then rtc.start else rtc).clock.time := by
          split
          · exact ⟨⟨fires.enabled, fires.due⟩, rfl, later⟩
          · rename_i active
            exact ⟨fires, still.trans (running active), later⟩
        generalize (if system.activeTimer = none then rtc.start else rtc) = set at started
        rcases started with ⟨fires, running, later⟩
        have moved : Sound (fun timer => False ∨ timer = next) system.requests
            { system with sortlist := rest, activeTimer := some next, rtc := set } :=
              popped.later rfl rfl later
        refine ⟨⟨?_, fun _ => running, fun timer active => ?_⟩,
          fun _ timer member => ⟨next, rfl, sorted.1 timer member⟩⟩
        · refine moved.congr fun timer => ?_
          simp only [Option.some.injEq, false_or]
          exact eq_comm
        · cases active
          exact .inr fires
      · simp only [result, Bool.false_eq_true, if_false]
        have done : Sound (fun timer => none = some timer) after.requests after := by
          rw [requests]
          exact sound.congr fun timer => by simp
        refine ⟨⟨done.ofFields rfl rfl rfl, fun active => absurd rfl active,
          fun timer active => ?_⟩, fun impossible => ?_⟩
        · cases active
        · cases impossible

theorem Scheduled.rtcUpdate (tracking : Tracking latency system) (short : latency ≤ drvRtcHalf)
    (prompt : ∀ count ≤ delays.total, (RtcClock.tick^[count] system.rtc.clock).Prompt latency)
    (brief : delays.total < appTimerSafeWindow) (scheduled : Scheduled system) :
    Scheduled (system.rtcUpdate delays).2 ∧
      ((system.rtcUpdate delays).1 = false → Earliest (system.rtcUpdate delays).2) := by
  unfold AppTimers.rtcUpdate
  split
  · rename_i listed
    split
    · rename_i idle
      have stopped : Sound (fun timer => system.activeTimer = some timer) system.requests
          { system with rtc := system.rtc.stop } :=
            scheduled.sound.setRtc (Nat.le_refl system.rtc.clock.time)
      refine ⟨⟨stopped, fun active => absurd idle active, fun timer active => ?_⟩,
        fun _ timer member => ?_⟩
      · rw [idle] at active
        cases active
      · rw [listed] at member
        cases member
    · refine ⟨scheduled, fun _ timer member => ?_⟩
      rw [listed] at member
      cases member
  · rename_i next rest listed
    split
    · have putBack := @putBack_sameTime _ system
      have tracked := tracking.sameTime putBack
      rw [← putBack.rtc] at prompt
      have sound : Sound (fun _ => False) system.putBack.requests system.putBack := by
        rw [putBack_requests]
        exact scheduled.sound.putBack
      have running : system.putBack.activeTimer ≠ none →
          system.putBack.rtc.clock.running = true := by
        rw [putBack_activeTimer, putBack.rtc]
        exact scheduled.running
      exact sound.popAndSchedule tracked short prompt brief running
        (putBack_sortlist (listed ▸ List.cons_ne_nil _ _))
    · rename_i stays
      rcases rtcReconf_no (Bool.eq_false_iff.mpr stays) with ⟨active, some, first⟩
      refine ⟨scheduled, fun _ timer member => ⟨active, some, ?_⟩⟩
      have sorted := List.pairwise_cons.mp (listed ▸ scheduled.sound.sorted)
      rw [listed] at member
      rcases List.mem_cons.mp member with rfl | later
      · exact first
      · exact first.trans (sorted.1 timer later)

theorem Scheduled.comparePending (scheduled : Scheduled system) (tracking : Tracking latency system)
    (short : latency ≤ drvRtcHalf) : Scheduled system.comparePending := by
  unfold AppTimers.comparePending
  split
  · have cleared : Sound (fun timer => system.activeTimer = some timer) system.requests
        { system with rtc := { system.rtc with compare := false } } :=
      scheduled.sound.setRtc (Nat.le_refl system.rtc.clock.time)
    have now : { system with rtc := { system.rtc with compare := false } : AppTimers ι }.getNow =
        system.rtc.clock.time := (getNow_setRtc rfl).trans (tracking.getNow_eq short)
    unfold onCompareEvt
    split
    · rename_i idle
      refine ⟨cleared, fun active => absurd idle active, fun timer active => ?_⟩
      cases idle.symm.trans active
    · rename_i active some
      have expired := cleared.timerExpire some now
      refine ⟨?_, fun active => absurd rfl active, fun timer active => ?_⟩
      · dsimp only
        rw [timerExpire_requests]
        refine (expired.congr fun timer => ?_).ofFields rfl rfl rfl
        rw [← activeTimer_only some]
        exact iff_of_false (Option.some_ne_none timer).symm id
      · cases active
  · exact scheduled

theorem serve_activeTimer {request : TimerReq ι}
    (active : (system.serve request).activeTimer = some timer) :
    system.activeTimer = some timer := by
  cases request with
  | start other =>
      simp only [serve] at active
      split at active
      · exact active
      · exact active
  | stop other =>
      simp only [serve] at active
      split at active
      · cases active
      · exact active

theorem serve_endVal (request : TimerReq ι) :
    (system.serve request).endVal timer = system.endVal timer := by
  cases request with
  | start other =>
      simp only [serve]
      split
      · rfl
      · exact congrFun (setActive_endVal true) timer
  | stop other =>
      simp only [serve]
      split
      · rfl
      · rfl

theorem serve_requests (request : TimerReq ι) :
    (system.serve request).requests = system.requests := by
  cases request with
  | start other =>
      simp only [serve]
      split
      · rfl
      · rfl
  | stop other =>
      simp only [serve]
      split
      · rfl
      · rfl

theorem serve_foldl (requests : List (TimerReq ι)) :
    (∀ timer, (requests.foldl serve system).activeTimer = some timer →
    system.activeTimer = some timer) ∧
      (∀ timer, (requests.foldl serve system).endVal timer = system.endVal timer) ∧
      (requests.foldl serve system).requests = system.requests := by
  induction requests generalizing system with
  | nil => exact ⟨fun _ active => active, fun _ => rfl, rfl⟩
  | cons request rest ih =>
      rcases @ih (system.serve request) with ⟨activeTimer, endVal, requests⟩
      exact ⟨fun timer active => serve_activeTimer (activeTimer timer active),
        fun timer => (endVal timer).trans (serve_endVal request),
        requests.trans (serve_requests request)⟩

theorem Scheduled.timerReqProcess (scheduled : Scheduled system) :
    Scheduled system.timerReqProcess := by
  rcases @serve_foldl _ { system with requests := [] } _ system.requests
    with ⟨activeTimer, endVal, requests⟩
  have sound := scheduled.sound.timerReqProcess
  have rtc := @timerReqProcess_sameTime _ system _
  refine ⟨?_, fun active => ?_, fun timer active => ?_⟩
  · have none : system.timerReqProcess.requests = [] := requests
    rw [none]
    exact sound
  · rcases Option.ne_none_iff_exists'.mp active with ⟨timer, some⟩
    have before : system.activeTimer = .some timer := activeTimer timer some
    rw [rtc.rtc]
    exact scheduled.running (by rw [before]; exact Option.some_ne_none timer)
  · have before : system.activeTimer = some timer := activeTimer timer active
    have same : system.timerReqProcess.endVal timer = system.endVal timer := endVal timer
    rw [rtc.rtc, same]
    exact scheduled.fires timer before

/-- The calls that the timers are made for: one request for
a timer at a time, and room for a stop. -/
def Orderly (system : AppTimers ι) : AppTimersInput ι → Prop
  | .tick _ => True
  | .start timer timeoutTicks =>
      timer ∉ system.requests.map TimerReq.timer ∧ timeoutTicks ≤ timeoutMax
  | .stop timer =>
      timer ∉ system.requests.map TimerReq.timer ∧
        system.requests.length < appTimerConfigOpQueueSize
  | .interrupt delays => delays.total < appTimerSafeWindow

instance (system : AppTimers ι) : ∀ input, Decidable (Orderly system input)
  | .tick _ => .isTrue trivial
  | .start timer timeoutTicks =>
      inferInstanceAs
        (Decidable (timer ∉ system.requests.map TimerReq.timer ∧ timeoutTicks ≤ timeoutMax))
  | .stop timer =>
      inferInstanceAs (Decidable (timer ∉ system.requests.map TimerReq.timer ∧
        system.requests.length < appTimerConfigOpQueueSize))
  | .interrupt delays => inferInstanceAs (Decidable (delays.total < appTimerSafeWindow))

theorem Punctual.rtcIrq (punctual : Punctual latency system) (short : latency ≤ drvRtcHalf)
    (prompt : ∀ count ≤ delays.total, (RtcClock.tick^[count] system.rtc.clock).Prompt latency)
    (brief : delays.total < appTimerSafeWindow) : Punctual latency (system.rtcIrq delays) := by
  have tracking := punctual.tracking.rtcIrq short prompt
  have scheduled := punctual.scheduled
  refine ⟨tracking, ?_, ?_⟩
  · unfold AppTimers.rtcIrq
    split
    · exact scheduled.overflowPending.setPart _
    · exact (scheduled.comparePending punctual.tracking short).setPart _
    · exact scheduled.compare1Pending.setPart _
    · exact scheduled.timerReqProcess.setPart _
    · exact (scheduled.rtcUpdate punctual.tracking short prompt brief).1.setPart _
  · unfold AppTimers.rtcIrq
    split
    · exact fun other => nomatch other
    · exact fun other => nomatch other
    · exact fun other => nomatch other
    · exact fun other => nomatch other
    · intro finished
      have last : (system.rtcUpdate delays).1 = false := by
        cases again : (system.rtcUpdate delays).1 with
        | false => rfl
        | true => simp [again] at finished
      exact (scheduled.rtcUpdate punctual.tracking short prompt brief).2 last

theorem Punctual.start (punctual : Punctual latency system) (short : latency ≤ drvRtcHalf)
    {timeoutTicks : Nat} (unrequested : timer ∉ system.requests.map TimerReq.timer)
    (bounded : timeoutTicks ≤ timeoutMax) :
    Punctual latency (system.appTimerStart timer timeoutTicks).2 := by
  unfold appTimerStart
  split
  · exact punctual
  · rename_i stopped
    have inactive : (system.timers timer).active = false := by simpa using stopped
    rcases punctual.scheduled.idle unrequested inactive with ⟨unlisted, free⟩
    have started :=
      @AppTimer.Kept.restart (system.timers timer) system.rtc.clock.time timeoutTicks bounded
    have reset : Sound (fun timer => system.activeTimer = some timer) system.requests
        (system.modify timer (AppTimer.restart system.rtc.clock.time timeoutTicks)) :=
      punctual.scheduled.sound.reset unlisted free unrequested inactive started.1
    have endVal (other : ι) (alive : other ∈ system.sortlist ∨ system.activeTimer = some other) :
        (system.modify timer (AppTimer.restart system.rtc.clock.time timeoutTicks)).endVal other =
          system.endVal other := by
      have different : other ≠ timer := by
        intro equal
        subst equal
        exact alive.elim unlisted free
      simp only [AppTimers.endVal, modify_other different]
    rw [punctual.tracking.getNow_eq short]
    change Punctual latency
      ((system.modify timer (AppTimer.restart system.rtc.clock.time timeoutTicks)).timerReqSchedule
      (.start timer)).2
    rcases timerReqSchedule_cases (.start timer) with requested | ⟨refused, _⟩
    · have pending :
          ((system.modify timer (AppTimer.restart system.rtc.clock.time timeoutTicks)).timers
          timer).Pending := by
        rw [modify_self]
        exact started.2
      have idle :
          ((system.modify timer (AppTimer.restart system.rtc.clock.time timeoutTicks)).timers
          timer).active =
          false := by
        rw [modify_self]
        exact inactive
      have sound := reset.requestStart unlisted free unrequested idle pending
      rw [requested]
      exact punctual.request (sound.ofFields rfl rfl rfl) ⟨rfl, rfl, rfl⟩ rfl rfl rfl endVal
    · rw [refused]
      exact punctual.request reset ⟨rfl, rfl, rfl⟩ rfl rfl rfl endVal

theorem Punctual.stop (punctual : Punctual latency system)
    (unrequested : timer ∉ system.requests.map TimerReq.timer)
    (room : system.requests.length < appTimerConfigOpQueueSize) :
      Punctual latency (system.appTimerStop timer).2 := by
  have sound := punctual.scheduled.sound.requestStop unrequested
  unfold appTimerStop
  rcases timerReqSchedule_cases (.stop timer) with requested | ⟨_, full⟩
  · rw [requested]
    exact punctual.request (sound.ofFields rfl rfl rfl) ⟨rfl, rfl, rfl⟩ rfl rfl rfl fun other _ =>
      congrFun (setActive_endVal false) other
  · exact absurd room (Nat.not_lt.mpr full)

theorem Punctual.step (punctual : Punctual latency system) (short : latency ≤ drvRtcHalf)
    {input : AppTimersInput ι}
    (prompt : Prompt latency system input) (orderly : Orderly system input) :
      Punctual latency (system.step input) := by
  cases input with
  | tick extra =>
      have ticked := punctual.tracking.step short prompt
      exact ⟨ticked, punctual.scheduled.tick extra, fun outside =>
        (punctual.earliest outside).congr rfl rfl fun _ _ => rfl⟩
  | start timer timeoutTicks => exact punctual.start short orderly.1 orderly.2
  | stop timer => exact punctual.stop orderly.1 orderly.2
  | interrupt delays => exact punctual.rtcIrq short prompt orderly

theorem Punctual.run (punctual : Punctual latency system) (short : latency ≤ drvRtcHalf)
    {inputs : List (AppTimersInput ι)}
    (prompt : Guarded AppTimers.step (Prompt latency) system inputs)
    (orderly : Guarded AppTimers.step Orderly system inputs) :
    Punctual latency (Data.run AppTimers.step system inputs) :=
  run_invariant (fun _ _ punctual both => punctual.step short both.1 both.2) punctual
    (Guarded.and.mpr ⟨prompt, orderly⟩)

/-- Two repeated timers of three and five ticks are started,
and the counter runs for seven ticks. -/
def twoTimers : List (AppTimersInput Bool) :=
  let served : List (AppTimersInput Bool) := List.replicate 5 (.interrupt .none)
  [.start false 3, .start true 5] ++ served ++
    (List.replicate 7 (.tick false :: served)).flatten

/-- No timer expires before its end: the ends of a repeated one are the multiples of its period. -/
theorem expiries_not_early (repeated : ι → Bool) {latency : Nat} (short : latency ≤ drvRtcHalf)
    (inputs : List (AppTimersInput ι))
    (prompt : Guarded step (Prompt latency) (init repeated) inputs)
    (orderly : Guarded step Orderly (init repeated) inputs) (timer : ι) :
    let data := (run step (init repeated) inputs).timers timer
    (data.repeatPeriod ≠ 0 → ∀ index (inside : index < data.posts.length),
        data.startedAt + (index + 1) * data.repeatPeriod ≤ data.posts[index]) ∧
      (data.repeatPeriod = 0 → data.posts.length ≤ 1 ∧ ∀ post ∈ data.posts,
        data.endVal ≤ post) := by
  have punctual := @Punctual.run _ _ latency _ (punctual_init repeated) short inputs prompt orderly
  have kept := punctual.scheduled.sound.kept timer
  exact ⟨kept.periodic, kept.single⟩

/-- The second expiry of the timer of three ticks is a tick
late, and the end of the third is not. -/
theorem expiries_not_early_twoTimers :
    let data := (run step (init fun _ => true) twoTimers).timers false
    data.posts = [3, 7] ∧ data.endVal = 9 ∧ ∀ inside : 1 < data.posts.length,
      0 + (1 + 1) * 3 ≤ data.posts[1] := by
  intro data
  have early :=
    expiries_not_early (fun _ => true) (by decide : 1 ≤ drvRtcHalf) twoTimers (by decide +kernel)
    (by decide +kernel) false
  have started : data.startedAt = 0 ∧ data.repeatPeriod = 3 := by decide +kernel
  refine ⟨by decide +kernel, by decide +kernel, fun inside => ?_⟩
  have second := early.1 (by decide +kernel) 1 inside
  rw [started.1, started.2] at second
  exact second

/-- No expiry is missed: when no interrupt is to be served, no active timer has passed its end, and
a repeated one has expired once for each period since its start. -/
theorem expiries_not_missed (repeated : ι → Bool) {latency : Nat} (short : latency ≤ drvRtcHalf)
    (inputs : List (AppTimersInput ι))
    (prompt : Guarded step (Prompt latency) (init repeated) inputs)
    (orderly : Guarded step Orderly (init repeated) inputs) (timer : ι) :
    let system := run step (init repeated) inputs
    let data := system.timers timer
    let time := system.rtc.clock.time
    system.part = .overflow → system.rtc.compare = false → data.active = true →
      time ≤ data.endVal ∧ (data.repeatPeriod = 0 → data.posts = []) ∧
        (data.repeatPeriod ≠ 0 → data.startedAt + data.posts.length * data.repeatPeriod ≤ time ∧
          time ≤ data.startedAt + (data.posts.length + 1) * data.repeatPeriod) := by
  intro system data time outside served active
  have punctual : Punctual latency system := (punctual_init repeated).run short prompt orderly
  have ahead : time ≤ data.endVal := punctual.ahead outside served active
  have pending := punctual.scheduled.sound.pending timer (.inl active)
  refine ⟨ahead, pending.single,
    fun periodic => ⟨(punctual.scheduled.sound.kept timer).elapsed periodic, ?_⟩⟩
  rw [← pending.periodic periodic]
  exact ahead

theorem expiries_not_missed_twoTimers :
    let system := run step (init fun _ => true) twoTimers
    (system.timers true).posts = [5] ∧ system.rtc.clock.time = 7 ∧
      system.rtc.clock.time ≤ (system.timers true).endVal := by
  intro system
  have missed :=
    expiries_not_missed (fun _ => true) (by decide : 1 ≤ drvRtcHalf) twoTimers (by decide +kernel)
    (by decide +kernel) true
  have ahead := missed (by decide +kernel) (by decide +kernel) (by decide +kernel)
  exact ⟨by decide +kernel, by decide +kernel, ahead.1⟩

end AppTimers

end BleKeyboard.Sched
