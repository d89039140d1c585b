import BleKeyboard.Sched.TimerClock

namespace BleKeyboard.Sched

open BleKeyboard.Ble (nrfSuccess nrfErrorTimeout)
open BleKeyboard.Data

/-! When the timers expire.

Every active timer is in the sorted list or is the one that the compare register is set for, which
is the earliest.  So no deadline passes without an interrupt, and the deadlines of a repeated timer
are the multiples of its period. -/

/-- `UINT32_MAX`, the longest timeout. -/
def timeoutMax : Nat := 0xFFFFFFFF

namespace AppTimer

/-- What holds of a timer at any time: none of its expiries was early. -/
structure Kept (time : Nat) (data : AppTimer) : Prop where
  started : data.startedAt ≤ time
  past : ∀ post ∈ data.posts, post ≤ time
  periodic : data.repeatPeriod ≠ 0 → ∀ index (inside : index < data.posts.length),
    data.startedAt + (index + 1) * data.repeatPeriod ≤ data.posts[index]
  single : data.repeatPeriod = 0 → data.posts.length ≤ 1 ∧ ∀ post ∈ data.posts, data.endVal ≤ post
  near : data.endVal ≤ time + timeoutMax
  period : data.repeatPeriod ≤ timeoutMax

structure Pending (data : AppTimer) : Prop where
  periodic : data.repeatPeriod ≠ 0 →
    data.endVal = data.startedAt + (data.posts.length + 1) * data.repeatPeriod
  single : data.repeatPeriod = 0 → data.posts = []

/-- What `app_timer_start` writes: the first end is one timeout away. -/
def restart (time timeoutTicks : Nat) (data : AppTimer) : AppTimer :=
  { data with
    endVal := time + timeoutTicks, repeatPeriod := if data.repeatPeriod ≠ 0 then timeoutTicks else 0
    startedAt := time, posts := [] }

variable {data : AppTimer} {time after : Nat}

theorem Kept.later (kept : data.Kept time) (passed : time ≤ after) : data.Kept after :=
  ⟨kept.started.trans passed, fun post member => (kept.past post member).trans passed,
    kept.periodic, kept.single,
    kept.near.trans (Nat.add_le_add_right passed _), kept.period⟩

theorem Kept.setActive (kept : data.Kept time) (active : Bool) : { data with active }.Kept time :=
  ⟨kept.started, kept.past, kept.periodic, kept.single, kept.near, kept.period⟩

theorem Kept.create (repeated : Bool) : (create repeated).Kept 0 := by
  refine ⟨by simp [AppTimer.create], by simp [AppTimer.create], fun _ index inside => ?_,
    by simp [AppTimer.create], by simp [AppTimer.create], ?_⟩
  · simp [AppTimer.create] at inside
  · cases repeated <;> decide

theorem Kept.expireRepeated (kept : data.Kept time) (pending : data.Pending)
    (repeated : data.repeatPeriod ≠ 0) (due : data.endVal ≤ time) :
    { data with posts := data.posts ++ [time], endVal := data.endVal + data.repeatPeriod }.Kept
      time ∧
      { data with
        posts := data.posts ++ [time]
        endVal := data.endVal + data.repeatPeriod }.Pending := by
  have ending := pending.periodic repeated
  refine ⟨⟨kept.started, ?_, fun _ index inside => ?_, fun single => absurd single repeated, ?_,
    kept.period⟩,
    fun _ => ?_, fun single => absurd single repeated⟩
  · intro post member
    rcases List.mem_append.mp member with earlier | new
    · exact kept.past post earlier
    · exact (List.mem_singleton.mp new).le
  · simp only [List.length_append, List.length_singleton] at inside
    rcases Nat.lt_or_eq_of_le (Nat.le_of_lt_succ inside) with earlier | last
    · simp only [List.getElem_append_left earlier]
      exact kept.periodic repeated index earlier
    · subst last
      simp only [List.getElem_concat_length]
      exact ending ▸ due
  · have period := kept.period
    simp only [timeoutMax] at period ⊢
    omega
  · simp only [List.length_append, List.length_singleton, ending]
    rw [Nat.succ_mul (data.posts.length + 1), Nat.add_assoc]

theorem Kept.expireSingle (kept : data.Kept time) (pending : data.Pending)
    (single : data.repeatPeriod = 0) (due : data.endVal ≤ time) :
      { data with posts := data.posts ++ [time], active := false }.Kept time := by
  have fresh := pending.single single
  refine ⟨kept.started, ?_, fun repeated => absurd single repeated, fun _ => ?_, kept.near,
    kept.period⟩ <;>
    simp [fresh, due]

theorem Kept.restart {timeoutTicks : Nat} (bounded : timeoutTicks ≤ timeoutMax) :
    (data.restart time timeoutTicks).Kept time ∧ (data.restart time timeoutTicks).Pending := by
  refine ⟨⟨Nat.le_refl _, ?_, fun _ index inside => ?_, ?_, Nat.add_le_add_left bounded _, ?_⟩,
    fun repeated => ?_,
    fun _ => rfl⟩
  · exact fun post member => nomatch member
  · exact absurd inside (Nat.not_lt_zero index)
  · exact fun _ => ⟨Nat.zero_le _, fun post member => nomatch member⟩
  · unfold AppTimer.restart
    dsimp only
    split
    · exact bounded
    · exact Nat.zero_le _
  · unfold AppTimer.restart at repeated ⊢
    dsimp only at repeated ⊢
    split at repeated
    · rename_i periodic
      rw [if_pos periodic, List.length_nil, Nat.zero_add, Nat.one_mul]
    · exact absurd rfl repeated

theorem Kept.elapsed (kept : data.Kept time) (repeated : data.repeatPeriod ≠ 0) :
    data.startedAt + data.posts.length * data.repeatPeriod ≤ time := by
  cases count : data.posts.length with
  | zero =>
      rw [Nat.zero_mul]
      exact kept.started
  | succ last =>
      have inside : last < data.posts.length := by omega
      exact (kept.periodic repeated last inside).trans (kept.past _ (List.getElem_mem inside))

end AppTimer

namespace AppTimers

variable {ι : Type*} {system : AppTimers ι} {held : ι → Prop}
    {requests : List (TimerReq ι)} {timer : ι}

/-- The timers, the list and the requests still to be
served; the timers held are live outside the list. -/
structure Sound (held : ι → Prop) (requests : List (TimerReq ι)) (system : AppTimers ι) : Prop where
  kept : ∀ timer, (system.timers timer).Kept system.rtc.clock.time
  pending : ∀ timer, (system.timers timer).active = true ∨ .start timer ∈ requests →
    (system.timers timer).Pending
  sorted : SortedByKey system.endVal system.sortlist
  nodup : system.sortlist.Nodup
  apart : ∀ timer, held timer → timer ∉ system.sortlist
  queued : ∀ timer, (system.timers timer).active = true → timer ∈ system.sortlist ∨ held timer
  live : ∀ timer, timer ∈ system.sortlist ∨ held timer →
    (system.timers timer).active = true ∨ .stop timer ∈ requests
  once : (requests.map TimerReq.timer).Nodup
  startIdle : ∀ timer, .start timer ∈ requests →
    (system.timers timer).active = false ∧ timer ∉ system.sortlist ∧ ¬held timer
  stopIdle : ∀ timer, .stop timer ∈ requests → (system.timers timer).active = false

theorem Sound.later (sound : Sound held requests system) {after : AppTimers ι}
    (timers : after.timers = system.timers) (sortlist : after.sortlist = system.sortlist)
    (time : system.rtc.clock.time ≤ after.rtc.clock.time) :
    Sound held requests after := by
  have endVal : after.endVal = system.endVal := by
    funext timer
    simp only [AppTimers.endVal, timers]
  refine ⟨fun timer => ?_, ?_, ?_, ?_, ?_, ?_, ?_, sound.once, ?_, ?_⟩
  · rw [timers]
    exact (sound.kept timer).later time
  · rw [timers]
    exact sound.pending
  · rw [endVal, sortlist]
    exact sound.sorted
  · rw [sortlist]
    exact sound.nodup
  · rw [sortlist]
    exact sound.apart
  · rw [timers, sortlist]
    exact sound.queued
  · rw [timers, sortlist]
    exact sound.live
  · rw [timers, sortlist]
    exact sound.startIdle
  · rw [timers]
    exact sound.stopIdle

theorem Sound.setRtc (sound : Sound held requests system) {rtc : Rtc}
    (time : system.rtc.clock.time ≤ rtc.clock.time) :
    Sound held requests { system with rtc } := sound.later rfl rfl time

theorem Sound.congr {other : ι → Prop} (sound : Sound held requests system)
    (same : ∀ timer, other timer ↔ held timer) :
    Sound other requests system := by
  have equal : other = held := funext fun timer => propext (same timer)
  rw [equal]
  exact sound

theorem Sound.add (sound : Sound held requests system) (holds : held timer) :
    Sound (fun other => held other ∧ other ≠ timer) requests (system.nrfSortlistAdd timer) := by
  have member {other : ι} : other ∈ (system.nrfSortlistAdd timer).sortlist ↔
      other = timer ∨ other ∈ system.sortlist :=
    mem_insertByKey
  refine ⟨sound.kept, sound.pending, sound.sorted.insertByKey, ?_, fun other still listed => ?_,
    fun other active => ?_,
    fun other alive => ?_, sound.once, fun other started => ?_, sound.stopIdle⟩
  · exact nodup_insertByKey.mpr ⟨sound.apart timer holds, sound.nodup⟩
  · rcases member.mp listed with same | listed
    · exact still.2 same
    · exact sound.apart other still.1 listed
  · rw [member]
    by_cases same : other = timer
    · exact .inl (.inl same)
    · rcases sound.queued other active with listed | held
      · exact .inl (.inr listed)
      · exact .inr ⟨held, same⟩
  · rw [member] at alive
    rcases alive with (rfl | listed) | still
    · exact sound.live other (.inr holds)
    · exact sound.live other (.inl listed)
    · exact sound.live other (.inr still.1)
  · have idle := sound.startIdle other started
    refine ⟨idle.1, ?_, fun still => idle.2.2 still.1⟩
    rw [member]
    intro alive
    rcases alive with rfl | listed
    · exact idle.2.2 holds
    · exact idle.2.1 listed

theorem ne_of_unrequested (unrequested : timer ∉ requests.map TimerReq.timer) {request : TimerReq ι}
    (listed : request ∈ requests) : request.timer ≠ timer :=
  fun same => unrequested (List.mem_map.mpr ⟨request, listed, same⟩)

theorem ne_of_inactive {other : ι} (active : (system.timers other).active = true)
    (inactive : (system.timers timer).active = false) : other ≠ timer := by
  intro same
  rw [same, inactive] at active
  contradiction

theorem Sound.drop (sound : Sound held requests system)
    (inactive : (system.timers timer).active = false) :
    Sound (fun other => held other ∧ other ≠ timer) requests system := by
  refine ⟨sound.kept, sound.pending, sound.sorted, sound.nodup,
    fun other still => sound.apart other still.1,
    fun other active => ?_, fun other alive => ?_, sound.once, fun other started => ?_,
    sound.stopIdle⟩
  · exact (sound.queued other active).imp_right fun holds => ⟨holds, ne_of_inactive active inactive⟩
  · exact sound.live other (alive.imp_right fun still => still.1)
  · have idle := sound.startIdle other started
    exact ⟨idle.1, idle.2.1, fun still => idle.2.2 still.1⟩

theorem Sound.pop {rest : List ι} (sound : Sound held requests system)
    (listed : system.sortlist = timer :: rest) :
    Sound (fun other => held other ∨ other = timer) requests { system with sortlist := rest } := by
  have sorted := sound.sorted
  have nodup := sound.nodup
  rw [listed] at sorted nodup
  have member {other : ι} : other ∈ system.sortlist ↔ other = timer ∨ other ∈ rest := by
    rw [listed, List.mem_cons]
  refine ⟨sound.kept, sound.pending, (List.pairwise_cons.mp sorted).2, (List.nodup_cons.mp nodup).2,
    fun other holds inRest => ?_, fun other active => ?_, fun other alive => ?_, sound.once,
    fun other started => ?_,
    sound.stopIdle⟩
  · rcases holds with held | rfl
    · exact sound.apart other held (member.mpr (.inr inRest))
    · exact (List.nodup_cons.mp nodup).1 inRest
  · rcases sound.queued other active with inList | held
    · rcases member.mp inList with same | inRest
      · exact .inr (.inr same)
      · exact .inl inRest
    · exact .inr (.inl held)
  · rcases alive with inRest | held | same
    · exact sound.live other (.inl (member.mpr (.inr inRest)))
    · exact sound.live other (.inr held)
    · exact sound.live other (.inl (member.mpr (.inl same)))
  · have idle := sound.startIdle other started
    refine ⟨idle.1, fun inRest => idle.2.1 (member.mpr (.inr inRest)), ?_⟩
    intro alive
    rcases alive with held | same
    · exact idle.2.2 held
    · exact idle.2.1 (member.mpr (.inl same))

theorem Sound.ofFields {after : AppTimers ι} (sound : Sound held requests system)
    (timers : after.timers = system.timers)
    (sortlist : after.sortlist = system.sortlist) (rtc : after.rtc = system.rtc) :
      Sound held requests after :=
  sound.later timers sortlist (by rw [rtc])

theorem once_append {request : TimerReq ι} (once : (requests.map TimerReq.timer).Nodup)
    (unrequested : request.timer ∉ requests.map TimerReq.timer) :
    ((requests ++ [request]).map TimerReq.timer).Nodup := by
  rw [List.map_append, List.map_singleton, List.nodup_append]
  refine ⟨once, List.nodup_singleton _, fun other earlier last same => ?_⟩
  rw [List.mem_singleton] at same
  intro equal
  subst equal
  exact unrequested (same ▸ earlier)

theorem Sound.stopped {rest : List (TimerReq ι)} (sound : Sound held (.stop timer :: rest) system)
    (unlisted : timer ∉ system.sortlist) (free : ¬held timer) : Sound held rest system := by
  refine ⟨sound.kept, fun other waiting => sound.pending other
    (waiting.imp_right (List.mem_cons_of_mem _)), sound.sorted,
    sound.nodup, sound.apart, sound.queued, fun other alive => ?_,
    (List.nodup_cons.mp sound.once).2,
    fun other started => sound.startIdle other (List.mem_cons_of_mem _ started),
    fun other later => sound.stopIdle other (List.mem_cons_of_mem _ later)⟩
  rcases sound.live other alive with active | requested
  · exact .inl active
  · rcases List.mem_cons.mp requested with same | later
    · cases same
      exact absurd alive (by simp [unlisted, free])
    · exact .inr later

theorem Sound.requestStart (sound : Sound held requests system) (unlisted : timer ∉ system.sortlist)
    (free : ¬held timer) (unrequested : timer ∉ requests.map TimerReq.timer)
    (inactive : (system.timers timer).active = false)
    (pending : (system.timers timer).Pending) : Sound held (requests ++ [.start timer]) system := by
  refine ⟨sound.kept, fun other waiting => ?_, sound.sorted, sound.nodup, sound.apart, sound.queued,
    fun other alive => (sound.live other alive).imp_right (List.mem_append_left _),
    once_append sound.once unrequested, fun other started => ?_, fun other stopped => ?_⟩
  · rcases waiting with active | started
    · exact sound.pending other (.inl active)
    · rcases List.mem_append.mp started with earlier | last
      · exact sound.pending other (.inr earlier)
      · cases List.mem_singleton.mp last
        exact pending
  · rcases List.mem_append.mp started with earlier | last
    · exact sound.startIdle other earlier
    · cases List.mem_singleton.mp last
      exact ⟨inactive, unlisted, free⟩
  · rcases List.mem_append.mp stopped with earlier | last
    · exact sound.stopIdle other earlier
    · cases List.mem_singleton.mp last

theorem ccVal_target (future : system.rtc.clock.time < system.endVal timer)
    (near : system.endVal timer ≤ system.rtc.clock.time + timeoutMax)
    (now : system.getNow = system.rtc.clock.time) :
    ∃ target, system.ccVal timer % (drvRtcMaxCnt + 1) = target % (drvRtcMaxCnt + 1) ∧
    system.rtc.clock.time < target ∧
      target ≤ system.rtc.clock.time + (drvRtcMaxCnt - appTimerSafeWindow) ∧
      target ≤ system.endVal timer := by
  simp only [timeoutMax] at near
  have left : (system.endVal timer - system.rtc.clock.time) % 2 ^ 32 =
      system.endVal timer - system.rtc.clock.time :=
    Nat.mod_eq_of_lt (by omega)
  simp only [ccVal, now, left]
  split
  · rename_i far
    simp only [appTimerRtcMaxValue, drvRtcMaxCnt, appTimerSafeWindow, RtcClock.counter] at far ⊢
    exact ⟨system.rtc.clock.time + 11862015, by omega, by omega, by omega, by omega⟩
  · rename_i within
    simp only [appTimerRtcMaxValue, drvRtcMaxCnt, appTimerSafeWindow] at within ⊢
    exact ⟨system.endVal timer, rfl, future, by omega, Nat.le_refl _⟩

variable [DecidableEq ι] {change : AppTimer → AppTimer}

@[simp] theorem modify_self :
    (system.modify timer change).timers timer = change (system.timers timer) := by
  simp [modify]

theorem modify_other {other : ι} (different : other ≠ timer) :
    (system.modify timer change).timers other = system.timers other := by simp [modify, different]

theorem setActive_endVal (active : Bool) :
    (system.modify timer fun data => { data with active }).endVal = system.endVal := by
  funext other
  by_cases same : other = timer
  · simp only [endVal, same, modify_self]
  · simp only [endVal, modify_other same]

theorem sorted_modify (sorted : SortedByKey system.endVal system.sortlist)
    (unlisted : timer ∉ system.sortlist) :
    SortedByKey (system.modify timer change).endVal system.sortlist := by
  refine sorted.congr fun found listed => ?_
  have different : found ≠ timer := fun same => unlisted (same ▸ listed)
  simp only [endVal, modify_other different]

theorem Sound.modifyHeld (sound : Sound held requests system) (holds : held timer)
    (active : (change (system.timers timer)).active = (system.timers timer).active)
    (kept : (change (system.timers timer)).Kept system.rtc.clock.time)
    (pending : (system.timers timer).active = true → (change (system.timers timer)).Pending) :
    Sound held requests (system.modify timer change) := by
  have sameActive (other : ι) :
      ((system.modify timer change).timers other).active = (system.timers other).active := by
    by_cases same : other = timer
    · rw [same, modify_self, active]
    · rw [modify_other same]
  refine ⟨fun other => ?_, fun other waiting => ?_,
    sorted_modify sound.sorted (sound.apart timer holds), sound.nodup,
    sound.apart, ?_, ?_, sound.once, ?_, ?_⟩
  · by_cases same : other = timer
    · rw [same, modify_self]
      exact kept
    · rw [modify_other same]
      exact sound.kept other
  · rw [sameActive] at waiting
    by_cases same : other = timer
    · rw [same] at waiting ⊢
      rw [modify_self]
      rcases waiting with running | started
      · exact pending running
      · exact absurd holds (sound.startIdle timer started).2.2
    · rw [modify_other same]
      exact sound.pending other waiting
  · simp only [sameActive]
    exact sound.queued
  · simp only [sameActive]
    exact sound.live
  · simp only [sameActive]
    exact sound.startIdle
  · simp only [sameActive]
    exact sound.stopIdle

theorem Sound.retire (sound : Sound held requests system) (holds : held timer)
    (inactive : (change (system.timers timer)).active = false)
    (kept : (change (system.timers timer)).Kept system.rtc.clock.time) :
    Sound (fun other => held other ∧ other ≠ timer) requests (system.modify timer change) := by
  have unlisted := sound.apart timer holds
  refine ⟨fun other => ?_, fun other waiting => ?_, sorted_modify sound.sorted unlisted,
    sound.nodup,
    fun other still => sound.apart other still.1, fun other active => ?_,
    fun other alive => ?_, sound.once,
    fun other started => ?_, fun other stopped => ?_⟩
  · by_cases same : other = timer
    · rw [same, modify_self]
      exact kept
    · rw [modify_other same]
      exact sound.kept other
  · by_cases same : other = timer
    · rw [same, modify_self, inactive] at waiting
      rcases waiting with impossible | started
      · contradiction
      · exact absurd holds (sound.startIdle timer started).2.2
    · rw [modify_other same] at waiting ⊢
      exact sound.pending other waiting
  · by_cases same : other = timer
    · rw [same, modify_self, inactive] at active
      contradiction
    · rw [modify_other same] at active
      exact (sound.queued other active).imp_right fun holds => ⟨holds, same⟩
  · have different : other ≠ timer := by
      intro equal
      subst equal
      exact alive.elim unlisted fun still => still.2 rfl
    rw [modify_other different]
    exact sound.live other (alive.imp_right fun still => still.1)
  · have idle := sound.startIdle other started
    have different : other ≠ timer := fun same => idle.2.2 (same ▸ holds)
    rw [modify_other different]
    exact ⟨idle.1, idle.2.1, fun still => idle.2.2 still.1⟩
  · by_cases same : other = timer
    · rw [same, modify_self, inactive]
    · rw [modify_other same]
      exact sound.stopIdle other stopped

theorem Sound.activate {rest : List (TimerReq ι)}
    (sound : Sound held (.start timer :: rest) system) :
    Sound (fun other => held other ∨ other = timer) rest
      (system.modify timer fun data => { data with active := true }) := by
  have idle := sound.startIdle timer List.mem_cons_self
  have once := List.nodup_cons.mp sound.once
  refine ⟨fun other => ?_, fun other waiting => ?_, sorted_modify sound.sorted idle.2.1,
    sound.nodup,
    fun other holds => ?_, fun other active => ?_, fun other alive => ?_, once.2,
    fun other started => ?_,
    fun other stopped => ?_⟩
  · by_cases same : other = timer
    · rw [same, modify_self]
      exact (sound.kept timer).setActive true
    · rw [modify_other same]
      exact sound.kept other
  · by_cases same : other = timer
    · have pending := sound.pending timer (.inr List.mem_cons_self)
      rw [same, modify_self]
      exact ⟨pending.periodic, pending.single⟩
    · rw [modify_other same] at waiting ⊢
      exact sound.pending other (waiting.imp_right (List.mem_cons_of_mem _))
  · rcases holds with held | rfl
    · exact sound.apart other held
    · exact idle.2.1
  · by_cases same : other = timer
    · exact .inr (.inr same)
    · rw [modify_other same] at active
      exact (sound.queued other active).imp_right .inl
  · by_cases same : other = timer
    · rw [same, modify_self]
      exact .inl rfl
    · rw [modify_other same]
      have before : other ∈ system.sortlist ∨ held other := by
        rcases alive with listed | held | equal
        · exact .inl listed
        · exact .inr held
        · exact absurd equal same
      rcases sound.live other before with active | stopped
      · exact .inl active
      · rcases List.mem_cons.mp stopped with impossible | later
        · contradiction
        · exact .inr later
  · have other_ne : other ≠ timer := ne_of_unrequested once.1 started
    have before := sound.startIdle other (List.mem_cons_of_mem _ started)
    rw [modify_other other_ne]
    exact ⟨before.1, before.2.1, fun holds => holds.elim before.2.2 other_ne⟩
  · have other_ne : other ≠ timer := ne_of_unrequested once.1 stopped
    rw [modify_other other_ne]
    exact sound.stopIdle other (List.mem_cons_of_mem _ stopped)

theorem modify_modify (next : AppTimer → AppTimer) :
    (system.modify timer change).modify timer next =
    system.modify timer fun data => next (change data) := by
  simp [modify]

theorem eventPut_eq {time : Nat} (now : system.getNow = time) :
    system.eventPut timer =
    system.modify timer fun data => { data with posts := data.posts ++ [time] } := by
  rw [eventPut, now]

theorem Sound.timerExpire (sound : Sound held requests system) (holds : held timer)
    (now : system.getNow = system.rtc.clock.time) :
    Sound (fun other => held other ∧ other ≠ timer) requests (system.timerExpire timer) := by
  have kept := sound.kept timer
  simp only [AppTimers.timerExpire]
  split
  · rename_i active
    have pending := sound.pending timer (.inl active)
    split
    · rename_i due
      rw [now] at due
      split
      · rename_i single
        have later : (system.modify timer fun data => { data with active := false }).getNow =
            system.rtc.clock.time :=
          (modify_sameTime timer _).getNow.trans now
        rw [eventPut_eq later, modify_modify]
        exact sound.retire holds rfl (kept.expireSingle pending single due)
      · rename_i repeated
        have expired := kept.expireRepeated pending repeated due
        rw [eventPut_eq now, modify_modify]
        exact (sound.modifyHeld holds rfl expired.1 fun _ => expired.2).add holds
    · exact sound.add holds
  · rename_i inactive
    exact sound.drop (by simpa using inactive)

theorem Sound.erase (sound : Sound held requests system)
    (inactive : (system.timers timer).active = false) :
    Sound held requests { system with sortlist := system.sortlist.erase timer } := by
  refine ⟨sound.kept, sound.pending, sound.sorted.sublist List.erase_sublist,
    sound.nodup.erase timer,
    fun other holds listed => sound.apart other holds (List.mem_of_mem_erase listed),
    fun other active => ?_,
    fun other alive => sound.live other (alive.imp_left List.mem_of_mem_erase), sound.once,
    fun other started => ?_,
    sound.stopIdle⟩
  · exact (sound.queued other active).imp_left
      (List.mem_erase_of_ne (ne_of_inactive active inactive)).mpr
  · have idle := sound.startIdle other started
    exact ⟨idle.1, fun listed => idle.2.1 (List.mem_of_mem_erase listed), idle.2.2⟩

theorem Sound.serve {rest : List (TimerReq ι)} {request : TimerReq ι}
    (sound : Sound (fun other => system.activeTimer = some other) (request :: rest) system) :
    Sound (fun other => (system.serve request).activeTimer = some other) rest
      (system.serve request) := by
  cases request with
  | start timer =>
      have idle := sound.startIdle timer List.mem_cons_self
      simp only [AppTimers.serve, idle.1, Bool.false_eq_true, if_false]
      refine (sound.activate.add (.inr rfl)).congr fun other => ?_
      constructor
      · intro active
        exact ⟨.inl active, fun same => idle.2.2 (same ▸ active)⟩
      · intro held
        rcases held with ⟨active | same, different⟩
        · exact active
        · exact absurd same different
  | stop timer =>
      have inactive := sound.stopIdle timer List.mem_cons_self
      simp only [AppTimers.serve]
      split
      · rename_i holds
        have dropped := (sound.drop inactive).stopped (sound.apart timer holds) (by simp)
        have cleared : Sound _ rest { system with activeTimer := none } :=
          dropped.ofFields rfl rfl rfl
        refine cleared.congr fun other => ?_
        simp only [reduceCtorEq, false_iff, not_and, not_not]
        intro active
        exact (Option.some.inj (holds.symm.trans active)).symm
      · rename_i free
        exact (sound.erase inactive).stopped sound.nodup.not_mem_erase free

theorem Sound.timerReqProcess
    (sound : Sound (fun other => system.activeTimer = some other) system.requests system) :
    Sound (fun other => system.timerReqProcess.activeTimer = some other) []
      system.timerReqProcess := by
  have served (requests : List (TimerReq ι)) : ∀ before : AppTimers ι,
      Sound (fun other => before.activeTimer = some other) requests before →
      Sound (fun other => (requests.foldl AppTimers.serve before).activeTimer = some other) []
        (requests.foldl AppTimers.serve before) := by
    induction requests with
    | nil => exact fun before sound => sound
    | cons request rest ih => exact fun before sound => ih _ sound.serve
  have cleared : Sound _ system.requests { system with requests := [] } :=
    sound.ofFields rfl rfl rfl
  exact served _ _ cleared

theorem Sound.reset (sound : Sound held requests system) (unlisted : timer ∉ system.sortlist)
    (free : ¬held timer) (unrequested : timer ∉ requests.map TimerReq.timer)
    (inactive : (change (system.timers timer)).active = false)
    (kept : (change (system.timers timer)).Kept system.rtc.clock.time) :
    Sound held requests (system.modify timer change) := by
  refine ⟨fun other => ?_, fun other waiting => ?_, sorted_modify sound.sorted unlisted,
    sound.nodup, sound.apart,
    fun other active => ?_, fun other alive => ?_, sound.once, fun other started => ?_,
    fun other stopped => ?_⟩
  · by_cases same : other = timer
    · rw [same, modify_self]
      exact kept
    · rw [modify_other same]
      exact sound.kept other
  · have other_ne : other ≠ timer := by
      intro equal
      subst equal
      rw [modify_self, inactive] at waiting
      rcases waiting with impossible | started
      · contradiction
      · exact ne_of_unrequested unrequested started rfl
    rw [modify_other other_ne] at waiting ⊢
    exact sound.pending other waiting
  · have other_ne : other ≠ timer := by
      intro equal
      subst equal
      rw [modify_self, inactive] at active
      contradiction
    rw [modify_other other_ne] at active
    exact sound.queued other active
  · have other_ne : other ≠ timer := by
      intro equal
      subst equal
      exact alive.elim unlisted free
    rw [modify_other other_ne]
    exact sound.live other alive
  · have other_ne : other ≠ timer := ne_of_unrequested unrequested started
    rw [modify_other other_ne]
    exact sound.startIdle other started
  · have other_ne : other ≠ timer := ne_of_unrequested unrequested stopped
    rw [modify_other other_ne]
    exact sound.stopIdle other stopped

theorem Sound.requestStop (sound : Sound held requests system)
    (unrequested : timer ∉ requests.map TimerReq.timer) :
    Sound held (requests ++ [.stop timer])
      (system.modify timer fun data => { data with active := false }) := by
  refine ⟨fun other => ?_, fun other waiting => ?_, ?_, sound.nodup, sound.apart,
    fun other active => ?_,
    fun other alive => ?_, once_append sound.once unrequested, fun other started => ?_,
    fun other stopped => ?_⟩
  · by_cases same : other = timer
    · rw [same, modify_self]
      exact (sound.kept timer).setActive false
    · rw [modify_other same]
      exact sound.kept other
  · have earlier (started : .start other ∈ requests ++ [.stop timer]) :
        .start other ∈ requests := by
      rcases List.mem_append.mp started with earlier | last
      · exact earlier
      · cases List.mem_singleton.mp last
    have other_ne : other ≠ timer := by
      intro equal
      subst equal
      rw [modify_self] at waiting
      rcases waiting with impossible | started
      · contradiction
      · exact ne_of_unrequested unrequested (earlier started) rfl
    rw [modify_other other_ne] at waiting ⊢
    exact sound.pending other (waiting.imp_right earlier)
  · rw [setActive_endVal]
    exact sound.sorted
  · have other_ne : other ≠ timer := by
      intro equal
      subst equal
      rw [modify_self] at active
      contradiction
    rw [modify_other other_ne] at active
    exact sound.queued other active
  · by_cases same : other = timer
    · exact .inr (by simp [same])
    · rw [modify_other same]
      exact (sound.live other alive).imp_right (List.mem_append_left _)
  · rcases List.mem_append.mp started with earlier | last
    · have other_ne : other ≠ timer := ne_of_unrequested unrequested earlier
      rw [modify_other other_ne]
      exact sound.startIdle other earlier
    · cases List.mem_singleton.mp last
  · rcases List.mem_append.mp stopped with earlier | last
    · have other_ne : other ≠ timer := ne_of_unrequested unrequested earlier
      rw [modify_other other_ne]
      exact sound.stopIdle other earlier
    · cases List.mem_singleton.mp last
      rw [modify_self]

theorem timerExpire_requests : (system.timerExpire timer).requests = system.requests := by
  simp only [timerExpire]
  split
  · split
    · split
      · rfl
      · rfl
    · rfl
  · rfl

end AppTimers

theorem Rtc.Fires.mono {rtc : Rtc} {bound larger : Nat} (fires : rtc.Fires bound)
    (more : bound ≤ larger) :
    rtc.Fires larger := by
  rcases fires.due with ⟨due, later, within, cc, written⟩
  exact ⟨fires.enabled, due, later, within.trans more, cc, written⟩

end BleKeyboard.Sched
