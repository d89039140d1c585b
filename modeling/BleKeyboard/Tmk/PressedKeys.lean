import BleKeyboard.Tmk.Drain
import BleKeyboard.Tmk.Keyboard
import BleKeyboard.Tmk.Registered
import Mathlib.Data.Finset.Card
import Mathlib.Data.Fintype.Option
import Mathlib.Data.Fintype.Prod
import Mathlib.Data.List.ProdSigma

namespace BleKeyboard.Tmk

open BleKeyboard.Data BleKeyboard.Protocol

namespace Keymap

variable (keymap : Keymap)

def codeAt (position : Position) : Code := keymap.keymapKeyToKeycode 0 position.keyPos

/-- Layer 0 holds ordinary keys and modifiers only. -/
structure Ordinary : Prop where
  codes : ∀ position, keymap.codeAt position = Code.kcNo ∨ (keymap.codeAt position).isKey = true ∨
    (keymap.codeAt position).isMod = true

/-- No key is bound twice. -/
structure Plain : Prop extends keymap.Ordinary where
  distinct : ∀ first second, keymap.codeAt first = keymap.codeAt second →
    keymap.codeAt first ≠ Code.kcNo → first = second

def isMapped (position : Position) : Bool := keymap.codeAt position ≠ Code.kcNo

/-- The OR of `MOD_BIT` over the modifiers that are down in the matrix. -/
def pressedMods (matrix : MatrixRows) : BitVec 8 :=
  (List.product (List.finRange matrixRows) (List.finRange matrixCols)).foldl (fun mods position =>
    if position.PressedIn matrix ∧ (keymap.codeAt position).isMod = true then
      mods ||| (keymap.codeAt position).modBit
    else mods) 0#8

def pressedKeys (matrix : MatrixRows) : Finset Position :=
  Finset.univ.filter fun position => position.PressedIn matrix ∧
    (keymap.codeAt position).isKey = true

end Keymap

def Report.applyEdge (report : Report) (pressed : Bool) (code : Code) : Report :=
  if code.isKey then
    { report with
      keys := if pressed then report.keys.addKeyByte code else report.keys.delKeyByte code }
  else if code.isMod then
    { report with
      mods := if pressed then report.mods ||| code.modBit else report.mods &&& ~~~code.modBit }
  else report

theorem Report.applyEdge_kcNo (report : Report) (pressed : Bool) :
    report.applyEdge pressed Code.kcNo = report := by
  rw [Report.applyEdge, if_neg (by decide), if_neg (by decide)]

def Report.applyEdges (keymap : Keymap) (scan : Scan) (report : Report) :
    List Position → List Report
  | [] => []
  | position :: rest =>
      let next := report.applyEdge (scan.edge position).pressed (keymap.codeAt position)
      next :: next.applyEdges keymap scan rest

namespace Keyboard

def report (keyboard : Keyboard) : Report := keyboard.engine.core.report

/-- No more than six ordinary keys are down after any edge of the task. -/
def WithinSix (keymap : Keymap) (keyboard : Keyboard) (scan : Scan) : Prop :=
  Throughout Position.toggle (fun matrix => (keymap.pressedKeys matrix).card ≤ 6)
    keyboard.matrixPrev
    (changes keyboard.matrixPrev scan.matrix)

end Keyboard

variable {keymap : Keymap} {matrix : MatrixRows} {position : Position} {scan : Scan} {code : Code}

theorem Keymap.pressedMods_getLsbD {bit : Nat} : (keymap.pressedMods matrix).getLsbD bit = true ↔
    ∃ position : Position, position.PressedIn matrix ∧ (keymap.codeAt position).isMod = true ∧
      (keymap.codeAt position).modBit.getLsbD bit = true := by
  have loop : ∀ (positions : List Position) (mods : BitVec 8),
      ((positions.foldl (fun mods position =>
        if position.PressedIn matrix ∧ (keymap.codeAt position).isMod = true then
          mods ||| (keymap.codeAt position).modBit
        else mods) mods).getLsbD bit = true) ↔
      mods.getLsbD bit = true ∨ ∃ position ∈ positions, position.PressedIn matrix ∧
        (keymap.codeAt position).isMod = true ∧
        (keymap.codeAt position).modBit.getLsbD bit = true := by
    intro positions
    induction positions with
    | nil => simp
    | cons position rest ih =>
        intro mods
        rw [List.foldl_cons, ih]
        split
        · rename_i down
          simp [down, or_assoc]
        · rename_i up
          have not : ¬ (position.PressedIn matrix ∧ (keymap.codeAt position).isMod = true ∧
              (keymap.codeAt position).modBit.getLsbD bit = true) := fun ⟨pressed, modifier,
                _⟩ => up ⟨pressed, modifier⟩
          simp [not]
  rw [Keymap.pressedMods, loop]
  simp

theorem Keymap.Ordinary.actionOf (ordinary : keymap.Ordinary) {event : KeyEvent}
    (real : event.isNoEvent = false) (at' : event.key = position.keyPos) :
    keymap.actionOf event = .key (keymap.codeAt position) := by
  have entry : keymap.keymapKeyToKeycode 0 event.key = keymap.codeAt position := by rw [at']; rfl
  rw [Keymap.actionOf_eq keymap real, Keymap.actionForKey]
  simp only [entry]
  obtain none | key | modifier := ordinary.codes position
  · rw [none, if_neg (by decide)]
    rfl
  · have bounds := Code.isKey_iff.mp key
    rw [if_neg (by omega), Keymap.keycodeToAction, key]
    rfl
  · have bounds := Code.isMod_iff.mp modifier
    rw [if_neg (by omega), Keymap.keycodeToAction, modifier, Bool.or_true]
    rfl

theorem Keymap.Ordinary.isTapKey (ordinary : keymap.Ordinary) :
    keymap.isTapKey (scan.edge position) = false := by
  simp [Keymap.isTapKey, ordinary.actionOf Keyboard.edge_real rfl, Action.key, Action.isTap]

namespace Engine

theorem actionExec_idle {engine : Engine} {event : KeyEvent} (idle : engine.isTapping = false)
    (empty : engine.waitingBuffer = [])
    (plain : event.pressed = true → keymap.isTapKey event = false) :
    engine.actionExec keymap event = (engine.note event).processAction keymap
      (engine.recordOf event) := by
  have notPressed : (engine.note event).isTappingPressed = false := by
    simp [isTappingPressed, isTapping] at idle ⊢
    simp [idle]
  have notReleased : (engine.note event).isTappingReleased = false := by
    simp [isTappingReleased, isTapping] at idle ⊢
    simp [idle]
  have noStart : (event.pressed && keymap.isTapKey event) = false := by
    cases pressed : event.pressed with
    | true => simp [plain pressed]
    | false => rfl
  have direct : (engine.note event).processTapping keymap (engine.recordOf event) =
      (engine.note event).handDirectly keymap (engine.recordOf event) := by
    simp [processTapping, notPressed, notReleased, recordOf, noStart]
  have arrives : (engine.note event).arrive keymap (engine.recordOf event) =
      (engine.note event).processAction keymap (engine.recordOf event) := by
    simp [arrive, direct, handDirectly]
  unfold actionExec actionTappingProcess
  rw [arrives]
  simp [empty, drain]

end Engine

/-- Only `real_mods` and the report are in use, and they agree. -/
structure Core.Settled (core : Core) : Prop where
  running : core.jumped = false
  weak : core.weakMods = 0#8
  oneshot : core.oneshotMods = 0#8
  mods : core.report.mods = core.realMods

namespace Core.Settled

variable {core : Core}

theorem act (settled : core.Settled) (mapped : code.isKey = true ∨ code.isMod = true)
    (record : KeyRecord) :
    core.act record (.key code) =
      { core with
          report := core.report.applyEdge record.event.pressed code
          realMods := (core.report.applyEdge record.event.pressed code).mods
          sent := core.sent ++ [core.report.applyEdge record.event.pressed code] } := by
  have notNo : code ≠ Code.kcNo := by
    intro equal
    subst equal
    revert mapped
    decide
  obtain ⟨_, weak, oneshot, mods⟩ := settled
  obtain key | modifier := mapped
  · cases pressed : record.event.pressed <;>
      simp [Core.act, Action.key, actMods, Action.modsByte, registerCode, unregisterCode, notNo,
        key, addKey, delKey, sendKeyboardReport, assembleReport, weak, oneshot, Report.applyEdge,
        pressed, mods]
  · have notKey : code.isKey = false := by
      cases key : code.isKey with
      | false => rfl
      | true =>
          rw [Code.isKey_not_isMod key] at modifier
          contradiction
    cases pressed : record.event.pressed <;>
      simp [Core.act, Action.key, actMods, Action.modsByte, registerCode, unregisterCode, notNo,
        notKey, modifier, addMods, delMods, sendKeyboardReport, assembleReport, weak, oneshot,
        Report.applyEdge, pressed, mods]

theorem act_kcNo (core : Core) (record : KeyRecord) : core.act record (.key Code.kcNo) = core := by
  cases pressed : record.event.pressed <;>
    simp [Core.act, Action.key, actMods, Action.modsByte, registerCode, unregisterCode, pressed]

end Core.Settled

/-- The report shows the keys that are down in the matrix: all modifiers, and no key that is up. -/
structure Report.Shows (keymap : Keymap) (matrix : MatrixRows) (report : Report) : Prop where
  mods : ∀ bit, report.mods.getLsbD bit = true ↔ ∃ position : Position, position.PressedIn matrix ∧
    (keymap.codeAt position).isMod = true ∧ (keymap.codeAt position).modBit.getLsbD bit = true
  distinct : report.keys.Distinct
  held : ∀ code, code ≠ 0#8 → report.keys.Holds code →
    ∃ position : Position, position.PressedIn matrix ∧ (keymap.codeAt position).isKey = true ∧
    keymap.codeAt position = code

def Report.Complete (keymap : Keymap) (matrix : MatrixRows) (report : Report) : Prop :=
  ∀ position : Position, position.PressedIn matrix → (keymap.codeAt position).isKey = true →
    report.keys.Holds (keymap.codeAt position)

namespace Report.Shows

variable {report : Report} {pressed : Bool}

theorem modBit_injective {first second : Code} (firstMod : first.isMod = true)
    (secondMod : second.isMod = true) {bit : Nat} (inFirst : first.modBit.getLsbD bit = true)
    (inSecond : second.modBit.getLsbD bit = true) :
    first = second := by
  have single : ∀ code : Code, code.isMod = true → code.modBit.getLsbD bit = true →
      code.toNat = 0xE0 + bit := by
    intro code modifier set
    have bounds := Code.isMod_iff.mp modifier
    have low : (code &&& 0x07#8).toNat = code.toNat - 0xE0 := by
      have masked : (code &&& 0x07#8).toNat = code.toNat % 8 :=
        Nat.and_two_pow_sub_one_eq_mod code.toNat 3
      omega
    simp only [Code.modBit, BitVec.shiftLeft_eq', low, BitVec.getLsbD_shiftLeft, BitVec.getLsbD_one,
      Bool.and_eq_true, Bool.not_eq_true', decide_eq_true_eq, decide_eq_false_iff_not] at set
    omega
  exact BitVec.eq_of_toNat_eq
    ((single first firstMod inFirst).trans (single second secondMod inSecond).symm)

theorem down_toggle (differs : ¬ (pressed = true ↔ position.PressedIn matrix)) :
    position.PressedIn (position.toggle matrix) ↔ pressed = true := by
  rw [Position.pressedIn_toggle, if_pos rfl]
  tauto

theorem down_other {place : Position} (different : place ≠ position) :
    place.PressedIn (position.toggle matrix) ↔ place.PressedIn matrix := by
  rw [Position.pressedIn_toggle, if_neg different]

theorem applyEdge_key (shows : report.Shows keymap matrix)
    (key : (keymap.codeAt position).isKey = true)
    (differs : ¬ (pressed = true ↔ position.PressedIn matrix)) :
    (report.applyEdge pressed (keymap.codeAt position)).Shows keymap (position.toggle matrix) := by
  have notMod := Code.isKey_not_isMod key
  have apart : ∀ {place : Position}, (keymap.codeAt place).isMod = true → place ≠ position := by
    intro place modifier equal
    subst equal
    rw [notMod] at modifier
    contradiction
  rw [Report.applyEdge, if_pos key]
  refine ⟨fun bit => (shows.mods bit).trans ?_, ?_, ?_⟩
  · constructor
    · intro given
      rcases given with ⟨place, down, modifier, set⟩
      exact ⟨place, (down_other (apart modifier)).mpr down, modifier, set⟩
    · intro given
      rcases given with ⟨place, down, modifier, set⟩
      exact ⟨place, (down_other (apart modifier)).mp down, modifier, set⟩
  · cases pressed with
    | true => exact KeyBytes.addKeyByte_distinct shows.distinct
    | false => exact KeyBytes.delKeyByte_distinct shows.distinct
  · intro code nonzero held
    cases pressed with
    | true =>
        have up : ¬ position.PressedIn matrix := by tauto
        cases KeyBytes.addKeyByte_holds held with
        | inl same => exact ⟨position, (down_toggle differs).mpr rfl, key, same.symm⟩
        | inr old =>
            obtain ⟨place, down, isKey, own⟩ := shows.held code nonzero old
            have different : place ≠ position := by
              intro equal
              subst equal
              exact up down
            exact ⟨place, (down_other different).mpr down, isKey, own⟩
    | false =>
        obtain ⟨old, otherCode⟩ := (KeyBytes.delKeyByte_holds nonzero).mp held
        obtain ⟨place, down, isKey, own⟩ := shows.held code nonzero old
        have different : place ≠ position := by
          intro equal
          subst equal
          exact otherCode own.symm
        exact ⟨place, (down_other different).mpr down, isKey, own⟩

theorem applyEdge_mod (shows : report.Shows keymap matrix) (plain : keymap.Plain)
    (modifier : (keymap.codeAt position).isMod = true)
    (differs : ¬ (pressed = true ↔ position.PressedIn matrix)) :
    (report.applyEdge pressed (keymap.codeAt position)).Shows keymap (position.toggle matrix) := by
  have notKey : ¬ (keymap.codeAt position).isKey = true := fun key => by
    rw [Code.isKey_not_isMod key] at modifier
    contradiction
  rw [Report.applyEdge, if_neg notKey, if_pos modifier]
  refine ⟨fun bit => ?_, shows.distinct, ?_⟩
  · cases pressed with
    | true =>
        have up : ¬ position.PressedIn matrix := by tauto
        simp only [if_true, BitVec.getLsbD_or, Bool.or_eq_true, shows.mods bit]
        constructor
        · intro either
          rcases either with ⟨place, down, isMod, set⟩ | set
          · have different : place ≠ position := by
              intro equal
              subst equal
              exact up down
            exact ⟨place, (down_other different).mpr down, isMod, set⟩
          · exact ⟨position, (down_toggle differs).mpr rfl, modifier, set⟩
        · intro given
          rcases given with ⟨place, down, isMod, set⟩
          by_cases here : place = position
          · rw [here] at set
            exact .inr set
          · exact .inl ⟨place, (down_other here).mp down, isMod, set⟩
    | false =>
        simp only [Bool.false_eq_true, if_false, getLsbD_and_not]
        constructor
        · intro kept
          obtain ⟨place, down, isMod, set⟩ := (shows.mods bit).mp kept.1
          have different : place ≠ position := by
            intro equal
            subst equal
            rw [kept.2] at set
            contradiction
          exact ⟨place, (down_other different).mpr down, isMod, set⟩
        · intro given
          rcases given with ⟨place, down, isMod, set⟩
          have different : place ≠ position := by
            intro equal
            subst equal
            exact absurd ((down_toggle differs).mp down) (by simp)
          have old := (shows.mods bit).mpr ⟨place, (down_other different).mp down, isMod, set⟩
          have clear : (keymap.codeAt position).modBit.getLsbD bit = false := by
            by_contra own
            rw [Bool.not_eq_false] at own
            have same := modBit_injective isMod modifier set own
            refine different (plain.distinct place position same ?_)
            intro none
            rw [none] at isMod
            exact absurd isMod (by decide)
          exact ⟨old, clear⟩
  · intro code nonzero held
    obtain ⟨place, down, isKey, own⟩ := shows.held code nonzero held
    have different : place ≠ position := by
      intro equal
      subst equal
      exact notKey isKey
    exact ⟨place, (down_other different).mpr down, isKey, own⟩

theorem toggle_kcNo (shows : report.Shows keymap matrix)
    (none : keymap.codeAt position = Code.kcNo) :
    report.Shows keymap (position.toggle matrix) := by
  have keyElsewhere : ∀ {place : Position}, (keymap.codeAt place).isKey = true →
      place ≠ position := by
    intro place key equal
    subst equal
    rw [none] at key
    exact absurd key (by decide)
  have modElsewhere : ∀ {place : Position}, (keymap.codeAt place).isMod = true →
      place ≠ position := by
    intro place modifier equal
    subst equal
    rw [none] at modifier
    exact absurd modifier (by decide)
  refine ⟨fun bit => (shows.mods bit).trans ?_, shows.distinct, ?_⟩
  · constructor
    · intro given
      rcases given with ⟨place, down, modifier, set⟩
      exact ⟨place, (down_other (modElsewhere modifier)).mpr down, modifier, set⟩
    · intro given
      rcases given with ⟨place, down, modifier, set⟩
      exact ⟨place, (down_other (modElsewhere modifier)).mp down, modifier, set⟩
  · intro code nonzero held
    obtain ⟨place, down, key, own⟩ := shows.held code nonzero held
    exact ⟨place, (down_other (keyElsewhere key)).mpr down, key, own⟩

theorem room (shows : report.Shows keymap matrix) (full : ¬ report.keys.Holds 0#8)
    (up : ¬ position.PressedIn matrix) (key : (keymap.codeAt position).isKey = true) :
      6 < (keymap.pressedKeys (position.toggle matrix)).card := by
  have filled : ∀ slot, report.keys slot ≠ 0#8 := fun slot zero => full ⟨slot, zero⟩
  have places :
      ∀ slot, ∃ place : Position, place.PressedIn matrix ∧ (keymap.codeAt place).isKey = true ∧
      keymap.codeAt place = report.keys slot := fun slot => shows.held _ (filled slot) ⟨slot, rfl⟩
  choose placeOf down isKey own using places
  let place : Option (Fin 6) → Position := fun slot => slot.elim position placeOf
  have inside : ∀ slot ∈ Finset.univ, place slot ∈ keymap.pressedKeys (position.toggle matrix) := by
    intro slot _
    rw [Keymap.pressedKeys, Finset.mem_filter]
    refine ⟨Finset.mem_univ _, ?_⟩
    cases slot with
    | none =>
        have down : position.PressedIn (position.toggle matrix) := by
          rw [Position.pressedIn_toggle, if_pos rfl]
          exact up
        exact ⟨down, key⟩
    | some slot =>
        have different : placeOf slot ≠ position := by
          intro same
          exact up (same ▸ down slot)
        exact ⟨(down_other different).mpr (down slot), isKey slot⟩
  have injective : Set.InjOn place (Finset.univ : Finset (Option (Fin 6))) := by
    intro one _ other _ same
    cases one with
    | none =>
        cases other with
        | none => rfl
        | some second =>
            have here : position = placeOf second := same
            exact absurd (here ▸ down second) up
    | some first =>
        cases other with
        | none =>
            have here : placeOf first = position := same
            exact absurd (here ▸ down first) up
        | some second =>
            have here : placeOf first = placeOf second := same
            have codes : report.keys first = report.keys second := by
              rw [← own first, ← own second, here]
            rw [shows.distinct first second codes (filled first)]
  have count := Finset.card_le_card_of_injOn place inside injective
  rw [Finset.card_univ, Fintype.card_option, Fintype.card_fin] at count
  exact count

theorem complete (shows : report.Shows keymap matrix) (plain : keymap.Plain)
    (whole : report.Complete keymap matrix)
    (differs : ¬ (pressed = true ↔ position.PressedIn matrix))
    (six : (keymap.pressedKeys (position.toggle matrix)).card ≤ 6) :
    (report.applyEdge pressed (keymap.codeAt position)).Complete keymap
      (position.toggle matrix) := by
  intro place down isKey
  have nonzero := Code.isKey_ne_zero isKey
  by_cases key : (keymap.codeAt position).isKey = true
  · rw [Report.applyEdge, if_pos key]
    cases pressed with
    | true =>
        have up : ¬ position.PressedIn matrix := by tauto
        by_cases here : place = position
        · rw [here]
          by_cases held : report.keys.Holds (keymap.codeAt position)
          · exact KeyBytes.addKeyByte_keeps (Code.isKey_ne_zero key) held
          · obtain ⟨slot, _, update⟩ | ⟨full, _⟩ := KeyBytes.addKeyByte_new held
            · exact ⟨slot, by simp [update]⟩
            · have many := shows.room full up key
              omega
        · exact KeyBytes.addKeyByte_keeps nonzero (whole place ((down_other here).mp down) isKey)
    | false =>
        have different : place ≠ position := by
          intro equal
          subst equal
          exact absurd ((down_toggle differs).mp down) (by simp)
        refine (KeyBytes.delKeyByte_holds nonzero).mpr
          ⟨whole place ((down_other different).mp down) isKey, ?_⟩
        intro same
        exact different (plain.distinct place position same nonzero)
  · have different : place ≠ position := by
      intro equal
      subst equal
      exact key isKey
    have before := whole place ((down_other different).mp down) isKey
    rw [Report.applyEdge, if_neg key]
    split <;> exact before

end Report.Shows

namespace Keyboard

/-- Between edges no tap is pending, nothing waits, and the
report shows the matrix processed so far. -/
structure Mirrors (keymap : Keymap) (keyboard : Keyboard) : Prop where
  idle : keyboard.engine.isTapping = false
  empty : keyboard.engine.waitingBuffer = []
  settled : keyboard.engine.core.Settled
  shows : keyboard.report.Shows keymap keyboard.matrixPrev

/-- In the middle of a task that began with `start`: the reports
sent and those still owed are those of the whole task. -/
structure Midway (keymap : Keymap) (scan : Scan) (start keyboard : Keyboard)
    (todo : List Position) : Prop where
  mirrors : keyboard.Mirrors keymap
  sent : keyboard.engine.core.sent ++ keyboard.report.applyEdges keymap scan
    (todo.filter keymap.isMapped) =
    start.engine.core.sent ++
      start.report.applyEdges keymap scan
        ((changes start.matrixPrev scan.matrix).filter keymap.isMapped)

structure ShowsAll (keymap : Keymap) (keyboard : Keyboard) :
    Prop extends keyboard.Mirrors keymap where
  complete : keyboard.report.Complete keymap keyboard.matrixPrev

structure Fits (keymap : Keymap) (keyboard : Keyboard) (todo : List Position) : Prop extends
    keyboard.ShowsAll keymap where
  six : Throughout Position.toggle (fun matrix => (keymap.pressedKeys matrix).card ≤ 6)
    keyboard.matrixPrev todo

variable {keyboard : Keyboard}

theorem processEdge_idle (idle : keyboard.engine.isTapping = false)
    (empty : keyboard.engine.waitingBuffer = [])
    (settled : keyboard.engine.core.Settled) (ordinary : keymap.Ordinary) :
    (keyboard.processEdge keymap scan position).engine.core =
        keyboard.engine.core.act (keyboard.engine.recordOf (scan.edge position))
          (.key (keymap.codeAt position)) ∧
      (keyboard.processEdge keymap scan position).engine.isTapping = false ∧
      (keyboard.processEdge keymap scan position).engine.waitingBuffer = [] := by
  have direct := @Engine.actionExec_idle keymap keyboard.engine (scan.edge position) idle empty
    (fun _ => ordinary.isTapKey)
  refine ⟨?_, ?_, ?_⟩
  · simp [processEdge, direct, Keymap.processAction, Engine.recordOf, edge_real, settled.running,
      ordinary.actionOf edge_real rfl]
  · simpa [processEdge, direct, Engine.isTapping] using idle
  · simpa [processEdge, direct] using empty

theorem tick_idle (idle : keyboard.engine.isTapping = false)
    (empty : keyboard.engine.waitingBuffer = []) :
    (keyboard.engine.actionExec keymap scan.tick).core = keyboard.engine.core ∧
      (keyboard.engine.actionExec keymap scan.tick).isTapping = false ∧
      (keyboard.engine.actionExec keymap scan.tick).waitingBuffer = [] := by
  have direct := @Engine.actionExec_idle keymap keyboard.engine scan.tick idle empty
    (fun pressed => absurd pressed (by simp [Scan.tick, KeyEvent.tick]))
  have noEvent : scan.tick.isNoEvent = true := KeyEvent.isNoEvent_tick _
  refine ⟨?_, ?_, ?_⟩
  · simp [direct, Keymap.processAction, Engine.recordOf, noEvent]
  · simpa [direct, Engine.isTapping] using idle
  · simpa [direct] using empty

theorem mirrors_reset : reset.Mirrors keymap where
  idle := rfl
  empty := rfl
  settled := ⟨rfl, rfl, rfl, rfl⟩
  shows :=
    { mods := fun bit => by
        simp [reset, report, Engine.reset, Core.reset, Report.empty, Position.PressedIn]
      distinct := fun first second _ filled => absurd rfl filled
      held := fun code nonzero held => absurd (KeyBytes.empty_holds.mp held) nonzero }

namespace Mirrors

theorem tick (mirrors : keyboard.Mirrors keymap) :
    (keyboard.engine.actionExec keymap scan.tick).core = keyboard.engine.core ∧
      ({ keyboard with engine := keyboard.engine.actionExec keymap scan.tick } : Keyboard).Mirrors
        keymap := by
  obtain ⟨same, idle, empty⟩ := @tick_idle keymap scan _ mirrors.idle mirrors.empty
  refine ⟨same, idle, empty, ?_, ?_⟩
  · rw [same]
    exact mirrors.settled
  · rw [report, same]
    exact mirrors.shows

theorem edge (mirrors : keyboard.Mirrors keymap) (plain : keymap.Plain)
    (changed : ¬ (position.PressedIn scan.matrix ↔ position.PressedIn keyboard.matrixPrev)) :
    (keyboard.processEdge keymap scan position).Mirrors keymap ∧
      (keyboard.processEdge keymap scan position).report =
        keyboard.report.applyEdge (scan.edge position).pressed (keymap.codeAt position) ∧
      (keyboard.processEdge keymap scan position).engine.core.sent = keyboard.engine.core.sent ++
        if keymap.isMapped position then
          [keyboard.report.applyEdge (scan.edge position).pressed (keymap.codeAt position)]
        else [] := by
  have differs :
      ¬ ((scan.edge position).pressed = true ↔ position.PressedIn keyboard.matrixPrev) := by
    rwa [edge_pressed]
  obtain ⟨acts, idle, empty⟩ :=
    @processEdge_idle keymap position scan _ mirrors.idle mirrors.empty mirrors.settled
    plain.toOrdinary
  by_cases none : keymap.codeAt position = Code.kcNo
  · rw [none, Core.Settled.act_kcNo] at acts
    have unmapped : keymap.isMapped position = false := by simp [Keymap.isMapped, none]
    have unchanged : keyboard.report.applyEdge (scan.edge position).pressed
        (keymap.codeAt position) = keyboard.report := by
      rw [none, Report.applyEdge_kcNo]
    refine ⟨⟨idle, empty, by rw [acts]; exact mirrors.settled, ?_⟩, ?_, ?_⟩
    · rw [report, acts]
      exact mirrors.shows.toggle_kcNo none
    · rw [unchanged, report, acts]
      rfl
    · rw [acts, unmapped]
      simp
  · have mapped := (plain.codes position).resolve_left none
    have isMapped : keymap.isMapped position = true := by simp [Keymap.isMapped, none]
    rw [mirrors.settled.act mapped] at acts
    have shows : (keyboard.report.applyEdge (scan.edge position).pressed
        (keymap.codeAt position)).Shows keymap
        (position.toggle keyboard.matrixPrev) := by
      obtain key | modifier := mapped
      · exact mirrors.shows.applyEdge_key key differs
      · exact mirrors.shows.applyEdge_mod plain modifier differs
    refine ⟨⟨idle, empty, ?_, ?_⟩, ?_, ?_⟩
    · rw [acts]
      exact ⟨mirrors.settled.running, mirrors.settled.weak, mirrors.settled.oneshot, rfl⟩
    · rw [report, acts]
      exact shows
    · rw [report, acts]
      rfl
    · rw [acts, isMapped]
      rfl

theorem processRows (mirrors : keyboard.Mirrors keymap) (plain : keymap.Plain) :
    (keyboard.processRows keymap scan).Mirrors keymap ∧
      (keyboard.processRows keymap scan).engine.core.sent = keyboard.engine.core.sent ++
        keyboard.report.applyEdges keymap scan
          ((changes keyboard.matrixPrev scan.matrix).filter keymap.isMapped) := by
  have step : ∀ (current : Keyboard) (position : Position) (rest : List Position),
      Midway keymap scan keyboard current (position :: rest) →
      ¬ (position.PressedIn scan.matrix ↔ position.PressedIn current.matrixPrev) →
      Midway keymap scan keyboard (current.processEdge keymap scan position) rest := by
    intro current position rest midway changed
    obtain ⟨next, report, sent⟩ := midway.mirrors.edge plain changed
    refine ⟨next, ?_⟩
    rw [← midway.sent, sent, report]
    cases mapped : keymap.isMapped position with
    | true => simp [mapped, Report.applyEdges]
    | false =>
        have none : keymap.codeAt position = Code.kcNo := by simpa [Keymap.isMapped] using mapped
        rw [none, Report.applyEdge_kcNo]
        simp [mapped]
  obtain ⟨⟨next, sent⟩, _⟩ := processRows_invariant step ⟨mirrors, rfl⟩
  exact ⟨next, by simpa [Report.applyEdges] using sent⟩

theorem keyboardTask (mirrors : keyboard.Mirrors keymap) (plain : keymap.Plain) :
    (keyboard.keyboardTask keymap scan).Mirrors keymap :=
  (mirrors.processRows plain).1.tick.2

end Mirrors

theorem ShowsAll.keyboardTask (showsAll : keyboard.ShowsAll keymap) (plain : keymap.Plain)
    (six : keyboard.WithinSix keymap scan) :
      (keyboard.keyboardTask keymap scan).ShowsAll keymap := by
  have step : ∀ (current : Keyboard) (position : Position) (rest : List Position),
      Fits keymap current (position :: rest) →
      ¬ (position.PressedIn scan.matrix ↔ position.PressedIn current.matrixPrev) →
      Fits keymap (current.processEdge keymap scan position) rest := by
    intro current position rest fits changed
    obtain ⟨next, report, _⟩ := fits.toMirrors.edge plain changed
    refine ⟨⟨next, ?_⟩, fits.six.2⟩
    rw [report]
    refine fits.shows.complete plain fits.complete ?_ fits.six.2.first
    rwa [edge_pressed]
  obtain ⟨fits, _⟩ := processRows_invariant step ⟨showsAll, six⟩
  obtain ⟨same, next⟩ := @Mirrors.tick _ scan _ fits.toMirrors
  refine ⟨next, ?_⟩
  rw [Keyboard.keyboardTask, Keyboard.report, same]
  exact fits.complete

theorem showsAll_reset : reset.ShowsAll keymap where
  toMirrors := mirrors_reset
  complete position down := absurd down (by simp [reset, Position.PressedIn])

theorem run_mirrors (plain : keymap.Plain) (scans : List Scan) :
    (run (keyboardTask keymap) reset scans).Mirrors keymap :=
  run_preserves (fun _ _ mirrors => mirrors.keyboardTask plain) mirrors_reset scans

theorem run_showsAll (plain : keymap.Plain) {scans : List Scan}
    (six : Guarded (keyboardTask keymap) (WithinSix keymap) reset scans) :
    (run (keyboardTask keymap) reset scans).ShowsAll keymap :=
  run_invariant (fun _ _ showsAll within => showsAll.keyboardTask plain within) showsAll_reset six

/-- After every task the report is the set of pressed keys, and the
driver got one report for each edge of a mapped key. -/
theorem keyboardTask_reports (keymap : Keymap) (plain : keymap.Plain) (scans : List Scan)
    (scan : Scan) :
    let before := run (keyboardTask keymap) reset scans
    let after := before.keyboardTask keymap scan
    after.report.mods = keymap.pressedMods scan.matrix ∧
      (after.report.keys.Distinct ∧ ∀ code, code ≠ 0#8 → after.report.keys.Holds code →
        ∃ position : Position, position.PressedIn scan.matrix ∧ keymap.codeAt position = code) ∧
      (Guarded (keyboardTask keymap) (WithinSix keymap) reset (scans ++ [scan]) →
        ∀ position : Position, position.PressedIn scan.matrix →
        (keymap.codeAt position).isKey = true →
          after.report.keys.Holds (keymap.codeAt position)) ∧
      after.engine.core.sent = before.engine.core.sent ++
        before.report.applyEdges keymap scan
          ((changes before.matrixPrev scan.matrix).filter keymap.isMapped) := by
  intro before after
  have mirrors : before.Mirrors keymap := run_mirrors plain scans
  have next : after.Mirrors keymap := mirrors.keyboardTask plain
  have shows := next.shows
  rw [keyboardTask_matrixPrev] at shows
  refine ⟨?_, ⟨shows.distinct, ?_⟩, ?_, ?_⟩
  · refine BitVec.eq_of_getLsbD_eq fun bit _ => ?_
    rw [Bool.eq_iff_iff, shows.mods, Keymap.pressedMods_getLsbD]
  · intro code nonzero held
    obtain ⟨position, down, _, own⟩ := shows.held code nonzero held
    exact ⟨position, down, own⟩
  · intro six
    have complete := (run_showsAll plain six).complete
    rw [run_append] at complete
    simp only [run_cons, run_nil, keyboardTask_matrixPrev] at complete
    exact complete
  · have sent := (@Mirrors.processRows _ scan _ mirrors plain).2
    rw [← sent]
    exact congrArg Core.sent (@Mirrors.tick _ scan _ (mirrors.processRows plain).1).1

def letterAndShift : Keymap where
  keymaps _ key := if key = ⟨0, 0⟩ then 0x04 else if key = ⟨0, 1⟩ then 0xE1 else Code.kcNo
  fnActions _ := 0

def bothDown : Scan where
  matrix row := if row = 0 then 0x0003 else 0
  edgeTime _ := 1
  tickTime := 1

theorem plain_letterAndShift : letterAndShift.Plain := ⟨⟨by decide +kernel⟩, by decide +kernel⟩

theorem keyboardTask_reports_both :
    ((reset.keyboardTask letterAndShift bothDown).report.mods =
    letterAndShift.pressedMods bothDown.matrix ∧
      letterAndShift.pressedMods bothDown.matrix = 0x02) ∧
    (reset.keyboardTask letterAndShift bothDown).engine.core.sent =
      Report.empty.applyEdges letterAndShift bothDown [(0, 0), (0, 1)] := by
  have reports := keyboardTask_reports letterAndShift plain_letterAndShift [] bothDown
  refine ⟨⟨reports.1, by decide⟩, ?_⟩
  have edges : (changes reset.matrixPrev bothDown.matrix).filter letterAndShift.isMapped = [(0, 0),
      (0, 1)] := by
    decide
  have sent := reports.2.2.2
  rw [run_nil, edges] at sent
  exact sent

end Keyboard

end BleKeyboard.Tmk
