import BleKeyboard.Protocol.Debounce
import BleKeyboard.Tmk.HostReports
import BleKeyboard.Tmk.PressedKeys
import BleKeyboard.Ble.Convergence

namespace BleKeyboard

open Data Protocol Tmk Ble

/-! The path from the switches to the host (`main.c`): the scan timer runs the keyboard task, whose
reports the driver hands to the Bluetooth service. -/

structure Firmware where
  matrix : MatrixState
  keyboard : Tmk.Keyboard
  link : Link Report

/-- One expiry of the scan timer: what the switches read, what
`timer_read` returns, and the radio events until the next expiry, in which
the reports of the task and the completions come in any order. -/
structure Turn where
  raw : MatrixRows
  edgeTime : Position → BitVec 16
  tickTime : BitVec 16
  radio : List (LinkEvt Report)

namespace Ble.LinkEvt

variable {κ : Type*}

def report? : LinkEvt κ → Option κ
  | .keyReport content _ => some content
  | .txComplete _ _ => none

end Ble.LinkEvt

namespace Firmware

/-- The reset state, with a connection open on which the
reports are subscribed; a run stays on it. -/
def start (debounce : BitVec 8) (list : BufferList Unit) (inBootMode : Bool) : Firmware :=
  { matrix := (MatrixState.reset debounce).matrixInit
    keyboard := Tmk.Keyboard.reset
    link := Link.start list inBootMode Report.empty }

variable (debounce : BitVec 8) (keymap : Keymap) (limit : Nat)

def scanned (firmware : Firmware) (turn : Turn) : Scan :=
  { matrix := (firmware.matrix.matrixScan debounce turn.raw).matrixGetRow
    edgeTime := turn.edgeTime
    tickTime := turn.tickTime }

def step (firmware : Firmware) (turn : Turn) : Firmware :=
  { matrix := firmware.matrix.matrixScan debounce turn.raw
    keyboard := firmware.keyboard.keyboardTask keymap (firmware.scanned debounce turn)
    link := run (Link.step limit) firmware.link turn.radio }

/-- The service is given the reports of the task, and a
completion reports outstanding notifications only. -/
structure Permits (firmware : Firmware) (turn : Turn) : Prop where
  given : (firmware.step debounce keymap limit turn).keyboard.engine.core.sent =
    firmware.keyboard.engine.core.sent ++ turn.radio.filterMap LinkEvt.report?
  completes : Guarded (Link.step limit) Link.Completes firmware.link turn.radio

/-- In every call of `keys_send` the local `actual_len`, which is never written, holds at most 8.  A
refused report is put into the buffer only then. -/
def Enqueues (firmware : Firmware) (turn : Turn) : Prop :=
  Guarded (Link.step limit) Link.Enqueues firmware.link turn.radio

/-- What the host holds: the last report it accepted, or no key before the first. -/
def hostReport (firmware : Firmware) : Report :=
  firmware.link.service.softDevice.accepted.getLast?.getD Report.empty

/-- The readings of the turns, from the first scan on. -/
def readings (turns : List Turn) (scan : Nat) : MatrixRows :=
  (turns[scan - 1]?.map Turn.raw).getD fun _ => 0

end Firmware

namespace Ble.Link

variable {κ : Type*} {limit : Nat} {link : Link κ}

structure Quiet (link : Link κ) : Prop where
  accepted : link.given = [] → link.service.softDevice.accepted = []
  waiting : link.given = [] → link.service.bufferList.count = 0

theorem Quiet.step (quiet : link.Quiet) (connected : Connected limit link) {evt : LinkEvt κ}
    (completes : link.Completes evt) : (link.step limit evt).Quiet := by
  have outcome := connected.step_outcome completes
  generalize link.step limit evt = after at outcome
  cases outcome with
  | accepted | enqueued | lost => exact ⟨fun none => by simp at none, fun none => by simp at none⟩
  | idle completed actualLen empty => exact ⟨quiet.accepted, quiet.waiting⟩
  | resent completed actualLen live pending =>
      exact ⟨fun none => absurd (quiet.waiting none) pending,
        fun none => absurd (quiet.waiting none) pending⟩
  | skipped completed actualLen cleared pending =>
      exact ⟨quiet.accepted, fun none => absurd (quiet.waiting none) pending⟩

theorem run_quiet (quiet : link.Quiet) (connected : Connected limit link) {evts : List (LinkEvt κ)}
    (completes : Guarded (step limit) Completes link evts) :
      (run (step limit) link evts).Quiet := by
  have both : (run (step limit) link evts).Quiet ∧ Connected limit (run (step limit) link evts) :=
    @run_invariant _ _ (step limit) (fun link => link.Quiet ∧ Connected limit link) Completes
      (fun link evt inv completes => ⟨inv.1.step inv.2 completes, inv.2.step completes⟩) _ _
        ⟨quiet, connected⟩ completes
  exact both.1

theorem Converging.run (converging : Converging limit link) {evts : List (LinkEvt κ)}
    (completes : Guarded (Link.step limit) Completes link evts)
    (enqueues : Guarded (Link.step limit) Enqueues link evts) :
    Converging limit (Data.run (Link.step limit) link evts) :=
  run_invariant (fun _ _ converging both => converging.step both.1 both.2) converging
    (Guarded.and.mpr ⟨completes, enqueues⟩)

theorem step_given (evt : LinkEvt κ) :
    (link.step limit evt).given = link.given ++ evt.report?.toList := by
  cases evt <;> simp [step, LinkEvt.report?]

theorem run_given (evts : List (LinkEvt κ)) :
    (run (step limit) link evts).given = link.given ++ evts.filterMap LinkEvt.report? := by
  induction evts generalizing link with
  | nil => simp
  | cons evt rest ih =>
      rw [run_cons, ih, step_given]
      cases found : evt.report? <;> simp [found]

end Ble.Link

theorem Protocol.afterScans_congr {debounce : BitVec 8} {first second : Nat → MatrixRows}
    {count : Nat} (same : ∀ scan, 1 ≤ scan → scan ≤ count → first scan = second scan) :
    afterScans debounce first count = afterScans debounce second count := by
  induction count with
  | zero => rfl
  | succ count ih =>
      rw [afterScans, afterScans, ih fun scan one known => same scan one (Nat.le_succ_of_le known),
        same (count + 1) (Nat.le_add_left ..) (Nat.le_refl _)]

namespace Firmware

variable {debounce : BitVec 8} {keymap : Keymap} {limit : Nat} {firmware : Firmware} {turn : Turn}

theorem matrixGetRow_eq (state : MatrixState) : state.matrixGetRow = state.matrix := rfl

theorem step_keyboard : (firmware.step debounce keymap limit turn).keyboard =
    firmware.keyboard.keyboardTask keymap (firmware.scanned debounce turn) := rfl

theorem scanned_matrix : (firmware.scanned debounce turn).matrix =
    (firmware.step debounce keymap limit turn).matrix.matrix := by
  simp only [scanned, step, matrixGetRow_eq]

structure Running (limit : Nat) (firmware : Firmware) : Prop where
  processed : firmware.keyboard.matrixPrev = firmware.matrix.matrix
  reported : firmware.keyboard.engine.core.Reported
  given : firmware.link.given = firmware.keyboard.engine.core.sent
  quiet : firmware.link.Quiet
  converging : firmware.link.Converging limit

theorem start_running (list : BufferList Unit) (inBootMode : Bool) :
    (start debounce list inBootMode).Running limit where
  processed := rfl
  reported := Core.reset_reported
  given := rfl
  quiet := ⟨fun _ => rfl, fun _ => (list.bufferInit_indices).2.2⟩
  converging := Link.start_converging limit list inBootMode Report.empty

theorem Running.step (running : firmware.Running limit)
    (permits : firmware.Permits debounce keymap limit turn)
    (enqueues : firmware.Enqueues limit turn) :
    (firmware.step debounce keymap limit turn).Running limit := by
  have given : (run (Link.step limit) firmware.link turn.radio).given =
      (firmware.step debounce keymap limit turn).keyboard.engine.core.sent := by
    rw [permits.given, ← running.given, Link.run_given]
  have quiet : (run (Link.step limit) firmware.link turn.radio).Quiet :=
    Link.run_quiet running.quiet running.converging.connected permits.completes
  have converging : Link.Converging limit (run (Link.step limit) firmware.link turn.radio) :=
    running.converging.run permits.completes enqueues
  have processed : (firmware.step debounce keymap limit turn).keyboard.matrixPrev =
      (firmware.step debounce keymap limit turn).matrix.matrix := by
    rw [step_keyboard, Tmk.Keyboard.keyboardTask_matrixPrev, scanned_matrix]
  have reported :=
    @Tmk.Keyboard.keyboardTask_reported keymap _ (firmware.scanned debounce turn) running.reported
  exact ⟨processed, reported, given, quiet, converging⟩

theorem Running.drained (running : firmware.Running limit)
    (empty : firmware.link.service.bufferList.count = 0) :
      firmware.hostReport = firmware.keyboard.report := by
  rw [Tmk.Keyboard.report, running.reported.current, hostReport, ← running.given]
  by_cases sent : firmware.link.given = []
  · rw [running.quiet.accepted sent, sent]
  · rw [running.converging.latest sent]
    obtain shown | ⟨distance, bound, _⟩ := running.converging.fresh sent
    · rw [shown]
    · omega

theorem readings_append {turns : List Turn} {scan : Nat} (first : 1 ≤ scan)
    (known : scan ≤ turns.length) :
    readings (turns ++ [turn]) scan = readings turns scan := by
  have inRange : scan - 1 < turns.length := by omega
  simp only [readings, List.getElem?_append_left inRange]

theorem readings_last (turns : List Turn) : readings (turns ++ [turn])
    (turns.length + 1) = turn.raw := by
  simp [readings]

theorem run_matrix {list : BufferList Unit} {inBootMode : Bool} (turns : List Turn) :
    (run (step debounce keymap limit) (start debounce list inBootMode) turns).matrix =
      afterScans debounce (readings turns) turns.length := by
  induction turns using List.reverseRecOn with
  | nil => rfl
  | append_singleton turns turn ih =>
      rw [run_append, List.length_append]
      simp only [run_cons, run_nil, step, List.length_singleton, afterScans]
      rw [ih, readings_last,
        afterScans_congr fun scan first known => (readings_append first known).symm]

theorem run_running {list : BufferList Unit} {inBootMode : Bool} {turns : List Turn}
    (permitted : Guarded (step debounce keymap limit) (Permits debounce keymap limit)
      (start debounce list inBootMode) turns)
    (enqueues : Guarded (step debounce keymap limit) (Enqueues limit)
      (start debounce list inBootMode) turns) :
    (run (step debounce keymap limit) (start debounce list inBootMode) turns).Running limit :=
  run_invariant (fun _ _ running both => running.step both.1 both.2) (start_running list inBootMode)
    (Guarded.and.mpr ⟨permitted, enqueues⟩)

/-- Under every keymap and on the open connection, as long as `actual_len` never holds more than 8,
whenever no report waits the host holds the current report: every key and modifier the firmware has
registered, and no other key. -/
theorem host_holds_current_report (keymap : Keymap) (list : BufferList Unit) (inBootMode : Bool)
    (turns : List Turn)
    (permitted : Guarded (step debounce keymap limit) (Permits debounce keymap limit)
      (start debounce list inBootMode) turns)
    (enqueues : Guarded (step debounce keymap limit) (Enqueues limit)
      (start debounce list inBootMode) turns)
    (drained : (run (step debounce keymap limit) (start debounce list inBootMode)
      turns).link.service.bufferList.count = 0) :
    (run (step debounce keymap limit) (start debounce list inBootMode) turns).hostReport =
      (run (step debounce keymap limit) (start debounce list inBootMode)
        turns).keyboard.engine.core.report :=
  (run_running permitted enqueues).drained drained

theorem run_mirrors {list : BufferList Unit} {inBootMode : Bool} (plain : keymap.Plain)
    (turns : List Turn) :
    (run (step debounce keymap limit) (start debounce list inBootMode) turns).keyboard.Mirrors
      keymap :=
  @run_preserves _ _ (step debounce keymap limit) (fun firmware => firmware.keyboard.Mirrors keymap)
    (fun _ _ mirrors => mirrors.keyboardTask plain) _ Tmk.Keyboard.mirrors_reset turns

theorem run_complete {list : BufferList Unit} {inBootMode : Bool} (plain : keymap.Plain)
    {turns : List Turn} (six : Guarded (step debounce keymap limit)
      (fun firmware turn => firmware.keyboard.WithinSix keymap (firmware.scanned debounce turn))
      (start debounce list inBootMode) turns) :
    (run (step debounce keymap limit) (start debounce list inBootMode) turns).keyboard.ShowsAll
      keymap :=
  @run_invariant _ _ (step debounce keymap limit)
    (fun firmware => firmware.keyboard.ShowsAll keymap) _
    (fun _ _ showsAll within => showsAll.keyboardTask plain within)
      _ _ Tmk.Keyboard.showsAll_reset six

/-- Under the same conditions the host holds the modifiers and keys of the latest stable reading of
the switches: no key that is up in it, and every key that is down as long as no more than six were. -/
theorem host_holds_stable_reading (positive : debounce ≠ 0#8) (plain : keymap.Plain)
    (list : BufferList Unit) (inBootMode : Bool) (turns : List Turn)
    (permitted : Guarded (step debounce keymap limit) (Permits debounce keymap limit)
      (start debounce list inBootMode) turns)
    (enqueues : Guarded (step debounce keymap limit) (Enqueues limit)
      (start debounce list inBootMode) turns)
    (drained : (run (step debounce keymap limit) (start debounce list inBootMode)
      turns).link.service.bufferList.count = 0) :
    let host := (run (step debounce keymap limit) (start debounce list inBootMode) turns).hostReport
    ∃ index : Int, IsGreatest {index : Int | index ≤ turns.length ∧
        StableWindow (readings turns) debounce.toNat index} index ∧
      host.mods = keymap.pressedMods (history (readings turns) index) ∧ host.keys.Distinct ∧
      (∀ code, code ≠ 0#8 → host.keys.Holds code → ∃ position : Position,
        position.PressedIn (history (readings turns) index) ∧ keymap.codeAt position = code) ∧
      (Guarded (step debounce keymap limit)
          (fun firmware turn => firmware.keyboard.WithinSix keymap (firmware.scanned debounce turn))
          (start debounce list inBootMode) turns →
        ∀ position : Position, position.PressedIn (history (readings turns) index) →
          (keymap.codeAt position).isKey = true → host.keys.Holds (keymap.codeAt position)) := by
  intro host
  have running := run_running permitted enqueues
  obtain ⟨index, greatest⟩ := exists_lastStable (readings turns) debounce.toNat turns.length
  have shown := (tracks_afterScans positive (readings turns) turns.length).committed index greatest
  rw [← run_matrix turns, ← running.processed] at shown
  have shows := (@run_mirrors debounce keymap limit list inBootMode plain turns).shows
  rw [shown, ← running.drained drained] at shows
  refine ⟨index, greatest, ?_, shows.distinct, ?_, ?_⟩
  · refine BitVec.eq_of_getLsbD_eq fun bit _ => ?_
    rw [Bool.eq_iff_iff, shows.mods, Keymap.pressedMods_getLsbD]
  · intro code nonzero held
    obtain ⟨position, down, _, own⟩ := shows.held code nonzero held
    exact ⟨position, down, own⟩
  · intro six
    have complete := (run_complete plain six).complete
    rw [shown, ← running.drained drained] at complete
    exact complete

/-- The letter A and shift go down in one scan; the radio
refuses the second report and takes it later. -/
def shiftedLetter : Turn where
  raw := Tmk.Keyboard.bothDown.matrix
  edgeTime _ := 1
  tickTime := 1
  radio :=
    let letter := Report.empty.applyEdge true 0x04
    [.keyReport letter 0, .keyReport (letter.applyEdge true 0xE1) 0, .txComplete 1 0,
      .txComplete 1 0]

theorem shiftedLetter_permits :
    (start 1#8 Link.blankList false).Permits 1#8 Tmk.Keyboard.letterAndShift 1 shiftedLetter :=
  ⟨by decide +kernel, by decide +kernel⟩

theorem shiftedLetter_enqueues : (start 1#8 Link.blankList false).Enqueues 1 shiftedLetter := by
  unfold Enqueues
  decide +kernel

theorem host_holds_current_report_shiftedLetter :
    let final :=
      run (step 1#8 Tmk.Keyboard.letterAndShift 1) (start 1#8 Link.blankList false) [shiftedLetter]
    final.hostReport = final.keyboard.engine.core.report :=
  @host_holds_current_report 1#8 1 Tmk.Keyboard.letterAndShift Link.blankList false [shiftedLetter]
    ⟨shiftedLetter_permits, trivial⟩
    ⟨shiftedLetter_enqueues, trivial⟩ (by decide +kernel)

theorem host_holds_stable_reading_shiftedLetter :
    ∃ index : Int, index ≤ 1 ∧ StableWindow (readings [shiftedLetter]) 1 index ∧
      (run (step 1#8 Tmk.Keyboard.letterAndShift 1) (start 1#8 Link.blankList false)
        [shiftedLetter]).hostReport.mods =
        Tmk.Keyboard.letterAndShift.pressedMods (history (readings [shiftedLetter]) index) := by
  obtain ⟨index, greatest, mods, _⟩ :=
    @host_holds_stable_reading 1#8 Tmk.Keyboard.letterAndShift 1 (by decide)
    Tmk.Keyboard.plain_letterAndShift Link.blankList false [shiftedLetter]
      ⟨shiftedLetter_permits, trivial⟩
    ⟨shiftedLetter_enqueues, trivial⟩ (by decide +kernel)
  exact ⟨index, greatest.1.1, greatest.1.2, mods⟩

end Firmware

end BleKeyboard
