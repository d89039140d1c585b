import BleKeyboard.Data.Machine
import BleKeyboard.Sched.AppScheduler
import BleKeyboard.Tmk.Drain
import BleKeyboard.Tmk.Keyboard
import BleKeyboard.Tmk.SingleTap

namespace BleKeyboard.Sched

open BleKeyboard.Ble (nrfSuccess)
open BleKeyboard.Data BleKeyboard.Protocol BleKeyboard.Tmk

/-- `APP_TIMER_TICKS(10)`. -/
def scanInterval : Nat := 10000

def debounce : BitVec 8 := 1

/-- The wait of `matrix_scan` after it has selected a row. -/
def rowWait : Nat := 30

/-- The time in microseconds, the number of times the scan timer has expired, the statics of the
modules, and whether `APP_ERROR_CHECK` has stopped the firmware. -/
structure App where
  clock : Nat
  expiries : Nat
  sched : AppScheduler
  matrix : MatrixState
  keyboard : Keyboard
  fault : Bool

namespace App

def start : App :=
  { clock := 0, expiries := 0, sched := .init, matrix := .reset debounce, keyboard := .reset,
    fault := false }

variable (keymap : Keymap) (app : App) (scan : Scan)

/-- The timer expires: `app_sched_event_put` under `APP_ERROR_CHECK`. -/
def expire : App :=
  let (errCode, sched) := app.sched.eventPut
  { app with expiries := app.expiries + 1, sched, fault := app.fault || errCode ≠ nrfSuccess }

def expireUntilNow : App := Nat.iterate expire (app.clock / scanInterval - app.expiries) app

/-- The main loop sleeps until the queue holds an event. -/
def awaitEvent : App :=
  if app.sched.queueEmpty then { app with clock := scanInterval * (app.expiries + 1) }.expire
  else app

/-- The scan that `keyboard_task` works on, when `scan.matrix` is
what the pins read: the matrix is the published one. -/
def published : Scan := { scan with matrix := (app.matrix.matrixScan debounce scan.matrix).matrix }

def scanTime : Nat :=
  matrixRows * rowWait + 1000 * (app.matrix.scanRows debounce scan.matrix).countdownWait

def waited : Nat := app.keyboard.engine.core.waited

def keyboardScanHandler : App :=
  let keyboard := app.keyboard.keyboardTask keymap (app.published scan)
  { app with
    clock := app.clock + app.scanTime scan + 1000 * (keyboard.engine.core.waited - app.waited)
    matrix := app.matrix.matrixScan debounce scan.matrix
    keyboard }

/-- One event: the timer keeps posting while its handler runs, and
the event gives up its slot when the handler returns. -/
def step : App :=
  if app.fault || app.keyboard.engine.core.jumped then app
  else
    let app := (app.awaitEvent.keyboardScanHandler keymap scan).expireUntilNow
    { app with sched := app.sched.eventProcessed }

section Expiries

variable {app : App} {count : Nat}

theorem expire_room (holds : app.sched.Holds count) (room : count < schedQueueSize) :
    app.expire.sched.Holds (count + 1) ∧ app.expire.fault = app.fault := by
  obtain ⟨success, holds⟩ := holds.eventPut.1 room
  exact ⟨holds, by simp [expire, success]⟩

theorem expiries_room (holds : app.sched.Holds count) (times : Nat)
    (room : count + times ≤ schedQueueSize) :
    (Nat.iterate expire times app).sched.Holds (count + times) ∧
    (Nat.iterate expire times app).fault = app.fault := by
  induction times generalizing app count with
  | zero => exact ⟨holds, rfl⟩
  | succ times ih =>
      obtain ⟨next, same⟩ := expire_room holds (by omega)
      obtain ⟨after, still⟩ := ih next (by omega)
      rw [Nat.add_right_comm] at after
      exact ⟨after, still.trans same⟩

theorem expiries_kept (times : Nat) :
    (Nat.iterate expire times app).clock = app.clock ∧
    (Nat.iterate expire times app).keyboard = app.keyboard ∧
      (Nat.iterate expire times app).matrix = app.matrix ∧
      (Nat.iterate expire times app).expiries = app.expiries + times := by
  induction times generalizing app with
  | zero => exact ⟨rfl, rfl, rfl, rfl⟩
  | succ times ih =>
      obtain ⟨clock, keyboard, matrix, expiries⟩ := @ih app.expire
      exact ⟨clock, keyboard, matrix, expiries.trans (by simp only [expire]; omega)⟩

theorem awaitEvent_empty (holds : app.sched.Holds 0) :
    app.awaitEvent.sched.Holds 1 ∧ app.awaitEvent.fault = app.fault ∧
      app.awaitEvent.clock = scanInterval * (app.expiries + 1) ∧
      app.awaitEvent.expiries = app.expiries + 1 := by
  have empty : app.sched.queueEmpty = true := holds.queueEmpty_iff.mpr rfl
  have waiting : ({ app with clock := scanInterval * (app.expiries + 1) } : App).sched.Holds 0 :=
    holds
  obtain ⟨one, same⟩ := expire_room waiting (by decide)
  simp only [awaitEvent, empty, if_true]
  exact ⟨one, same, rfl, rfl⟩

theorem awaitEvent_kept :
    app.awaitEvent.keyboard = app.keyboard ∧ app.awaitEvent.matrix = app.matrix := by
  unfold awaitEvent
  split <;> exact ⟨rfl, rfl⟩

end Expiries

end App

/-- A mod-tap key with the code of a lock key, whose tap waits in `process_action`. -/
def WaitsOnTap : Action → Prop
  | .actModsTap _ _ code => code.isLock = true
  | _ => False

def InMatrix (key : KeyPos) : Prop := ∃ position : Position, position.keyPos = key

/-- The only wait has been the one before the jump to the bootloader. -/
def Brisk (core : Core) : Prop := core.waited = if core.jumped then 50 else 0

section Brisk

variable {keymap : Keymap} {core other : Core} {record : KeyRecord}

theorem Brisk.congr (brisk : Brisk core) (waited : other.waited = core.waited)
    (jumped : other.jumped = core.jumped) :
    Brisk other := by
  unfold Brisk
  rw [waited, jumped]
  exact brisk

theorem Brisk.processAction (brisk : Brisk core)
    (spared : record.event.isNoEvent = false → record.event.pressed = true →
      ¬ WaitsOnTap (keymap.actionForKey 0 record.event.key)) :
        Brisk (keymap.processAction record core) := by
  unfold Keymap.processAction
  split
  · exact brisk
  · rename_i awake
    split
    · exact brisk
    · rename_i real
      rw [keymap.actionOf_eq (by simpa using real)]
      have spared := spared (by simpa using real)
      cases action : keymap.actionForKey 0 record.event.key with
      | actMods right mods code =>
          have clock :=
            @Core.actMods_clock core code (Action.modsByte right mods) record.event.pressed
          exact brisk.congr clock.1 clock.2
      | actModsTap right mods code =>
          rw [action] at spared
          simp only [Core.act]
          split
          · have clock := @Core.actModsOneshot_clock core (Action.modsByte right mods)
              record.event.pressed record.tap.count
            exact brisk.congr clock.1 clock.2
          · split
            · have clock := @Core.actModsTapToggle_clock core (Action.modsByte right mods)
                record.event.pressed record.tap.count
              exact brisk.congr clock.1 clock.2
            · obtain ⟨jumped, same | ⟨pressed, isLock, _⟩⟩ :=
                @Core.actModsTapKey_clock core code (Action.modsByte right mods)
                  record.event.pressed record.tap
              · exact brisk.congr same jumped
              · exact absurd isLock (spared pressed)
      | actCommand id =>
          simp only [Core.act, Core.actCommand]
          split
          · have none : core.waited = 0 := by simpa [Brisk, awake] using brisk
            simp [Brisk, Core.bootloaderJump, Core.waitMs, none]
          · exact brisk
      | _ => exact brisk

theorem brisk_handed
    (spared : ∀ position : Position, ¬ WaitsOnTap (keymap.actionForKey 0 position.keyPos)) :
    Engine.KeptBy keymap InMatrix (fun observed => Brisk observed.core) := by
  intro record pending observed press brisk
  refine brisk.processAction fun real pressed => ?_
  obtain ⟨position, same⟩ := press real pressed
  rw [← same]
  exact spared position

theorem keyboardTask_confined {kept : Observed → Prop} {keyboard : Keyboard} {scan : Scan}
    (handed : Engine.KeptBy keymap InMatrix kept)
    (cleared : ∀ observed : Observed, kept observed →
      kept { observed with core := observed.core.clearKeyboard })
    (confined : keyboard.engine.Confined InMatrix kept) :
      (keyboard.keyboardTask keymap scan).engine.Confined InMatrix kept := by
  have edges := (@Keyboard.processRows_invariant keymap scan keyboard
    (fun current _ => current.engine.Confined InMatrix kept)
    (fun current position rest confined _ =>
      Engine.Confined.actionExec handed cleared confined (fun _ _ => ⟨position, rfl⟩)) confined).1
  exact Engine.Confined.actionExec handed cleared edges fun _ pressed => nomatch pressed

end Brisk

namespace App

variable {keymap : Keymap} {app : App} {scan : Scan}

/-- Between events the queue is empty and the next expiry is
ahead, unless the bootloader has been jumped to. -/
structure Steady (app : App) : Prop where
  running : app.fault = false
  brisk : app.keyboard.engine.Confined InMatrix (fun observed => Brisk observed.core)
  idle : app.keyboard.engine.core.jumped = false →
    app.sched.Holds 0 ∧ app.clock < scanInterval * (app.expiries + 1)

theorem scanTime_bound : app.scanTime scan ≤ 1180 := by
  unfold scanTime MatrixState.countdownWait
  split <;> decide

theorem step_quick (running : app.fault = false) (awake : app.keyboard.engine.core.jumped = false)
    (holds : app.sched.Holds 0)
    (quick : (app.awaitEvent.keyboardScanHandler keymap scan).clock <
      scanInterval * (app.expiries + 2)) :
    let handled := app.awaitEvent.keyboardScanHandler keymap scan
    app.step keymap scan = { handled with sched := handled.sched.eventProcessed } ∧
      (app.step keymap scan).sched.Holds 0 ∧ (app.step keymap scan).fault = false ∧
      (app.step keymap scan).expiries = app.expiries + 1 := by
  obtain ⟨one, still, _, expiries⟩ := awaitEvent_empty holds
  have count : (app.awaitEvent.keyboardScanHandler keymap scan).expiries = app.expiries + 1 :=
    expiries
  have none : (app.awaitEvent.keyboardScanHandler keymap scan).clock / scanInterval -
      (app.awaitEvent.keyboardScanHandler keymap scan).expiries = 0 := by
    rw [count]
    simp only [scanInterval] at quick ⊢
    omega
  have step : app.step keymap scan = { app.awaitEvent.keyboardScanHandler keymap scan with
      sched := (app.awaitEvent.keyboardScanHandler keymap scan).sched.eventProcessed } := by
    simp only [App.step, running, awake, Bool.or_false, Bool.false_eq_true, if_false,
      expireUntilNow, none]
    rfl
  refine ⟨step, ?_, ?_, ?_⟩
  · rw [step]
    exact AppScheduler.Holds.eventProcessed one
  · rw [step]
    exact still.trans running
  · rw [step]
    exact count

theorem step_short (running : app.fault = false) (awake : app.keyboard.engine.core.jumped = false)
    (holds : app.sched.Holds 0)
    (short : (app.awaitEvent.keyboardScanHandler keymap scan).clock <
      scanInterval * (app.expiries + 11)) :
    (app.step keymap scan).fault = false ∧
      (app.step keymap scan).keyboard =
      (app.awaitEvent.keyboardScanHandler keymap scan).keyboard := by
  obtain ⟨one, still, _, expiries⟩ := awaitEvent_empty holds
  have count : (app.awaitEvent.keyboardScanHandler keymap scan).expiries = app.expiries + 1 :=
    expiries
  have handled : (app.awaitEvent.keyboardScanHandler keymap scan).sched.Holds 1 := one
  have going : (app.awaitEvent.keyboardScanHandler keymap scan).fault = false := still.trans running
  obtain ⟨_, same⟩ :=
    expiries_room handled ((app.awaitEvent.keyboardScanHandler keymap scan).clock / scanInterval -
    (app.awaitEvent.keyboardScanHandler keymap scan).expiries) (by
      rw [count]
      simp only [scanInterval, schedQueueSize] at short ⊢
      omega)
  obtain ⟨_, keyboard, _⟩ := @expiries_kept (app.awaitEvent.keyboardScanHandler keymap scan)
    ((app.awaitEvent.keyboardScanHandler keymap scan).clock / scanInterval -
      (app.awaitEvent.keyboardScanHandler keymap scan).expiries)
  simp only [App.step, running, awake, Bool.or_false, Bool.false_eq_true, if_false]
  exact ⟨same.trans going, keyboard⟩

theorem Steady.handler_clock (steady : app.Steady) (awake : app.keyboard.engine.core.jumped = false)
    (spared : ∀ position : Position, ¬ WaitsOnTap (keymap.actionForKey 0 position.keyPos)) :
    let handled := app.awaitEvent.keyboardScanHandler keymap scan
    handled.keyboard.engine.Confined InMatrix (fun observed => Brisk observed.core) ∧
      handled.clock ≤ scanInterval * (app.expiries + 1) + 1180 +
        (if handled.keyboard.engine.core.jumped then 50000 else 0) := by
  obtain ⟨keyboard, _⟩ := @awaitEvent_kept app
  have confined := steady.brisk
  rw [← keyboard] at confined
  have after : (app.awaitEvent.keyboardScanHandler keymap scan).keyboard.engine.Confined InMatrix
      (fun observed => Brisk observed.core) :=
    keyboardTask_confined (brisk_handed spared)
      (fun _ brisk => brisk.congr Core.clearKeyboard_waited Core.clearKeyboard_jumped)
      confined
  refine ⟨after, ?_⟩
  have waited : (app.awaitEvent.keyboardScanHandler keymap scan).keyboard.engine.core.waited =
      if (app.awaitEvent.keyboardScanHandler keymap scan).keyboard.engine.core.jumped then 50
      else 0 := after.observed
  have clock : (app.awaitEvent.keyboardScanHandler keymap scan).clock =
      app.awaitEvent.clock + app.awaitEvent.scanTime scan +
      1000 * ((app.awaitEvent.keyboardScanHandler keymap scan).keyboard.engine.core.waited -
        app.awaitEvent.waited) := rfl
  have bound : app.awaitEvent.scanTime scan ≤ 1180 := scanTime_bound
  rw [clock, (awaitEvent_empty (steady.idle awake).1).2.2.1, waited]
  split <;> omega

theorem Steady.step (steady : app.Steady)
    (spared : ∀ position : Position, ¬ WaitsOnTap (keymap.actionForKey 0 position.keyPos)) :
    (app.step keymap scan).Steady := by
  cases awake : app.keyboard.engine.core.jumped with
  | true =>
      simp only [App.step, awake, Bool.or_true, if_true]
      exact steady
  | false =>
      obtain ⟨after, clock⟩ := @Steady.handler_clock keymap app scan steady awake spared
      obtain ⟨holds, ahead⟩ := steady.idle awake
      cases jumped :
        (app.awaitEvent.keyboardScanHandler keymap scan).keyboard.engine.core.jumped with
      | false =>
          simp only [jumped, Bool.false_eq_true, if_false] at clock
          have quick : (app.awaitEvent.keyboardScanHandler keymap scan).clock <
              scanInterval * (app.expiries + 2) := by
            simp only [scanInterval] at clock ⊢
            omega
          obtain ⟨same, empty, running, expiries⟩ := step_quick steady.running awake holds quick
          refine ⟨running, ?_, fun _ => ⟨empty, ?_⟩⟩
          · rw [same]
            exact after
          · rw [expiries, same]
            exact quick
      | true =>
          simp only [jumped, if_true] at clock
          have short : (app.awaitEvent.keyboardScanHandler keymap scan).clock <
              scanInterval * (app.expiries + 11) := by
            simp only [scanInterval] at clock ⊢
            omega
          obtain ⟨running, same⟩ := step_short steady.running awake holds short
          refine ⟨running, ?_, ?_⟩
          · rw [same]
            exact after
          · intro up
            rw [same, jumped] at up
            exact nomatch up

end App

section LockTap

variable {keymap : Keymap} {core : Core} {record : KeyRecord} {right : Bool} {mods : BitVec 4}
    {code : Code}

end LockTap

namespace App

section Tap

variable {keymap : Keymap} {app : App} {scan : Scan} {position : Position}

end Tap

end App

end BleKeyboard.Sched
