import BleKeyboard.Tmk.Macro
import BleKeyboard.Data.Triple

namespace BleKeyboard.Tmk

open MacroCommand Data

instance (keys : KeyBytes) (code : Code) : Decidable (keys.Holds code) :=
  inferInstanceAs (Decidable (∃ slot, keys slot = code))

/-- The keys a host finds in a report and not in the one before. -/
def newKeys (before keys : KeyBytes) : List Code :=
  ((List.finRange 6).map keys).filter (fun code => code ≠ 0#8 ∧ ¬ before.Holds code)

/-- A host, which notes every new key with the modifiers it comes with. -/
structure Listener where
  keys : KeyBytes
  typed : List (BitVec 8 × Code)

def Listener.hear (listener : Listener) (report : Report) : Listener :=
  { keys := report.keys
    typed := listener.typed ++ (newKeys listener.keys report.keys).map (Prod.mk report.mods) }

/-- `T`, and the modifier macros `ST`, `SFT_`, `CTL_`, `ALT_` and `AGR_`. -/
inductive Text where
  | done
  | type (key : Code) (rest : Text)
  | under (modifier : Code) (body rest : Text)

namespace Text

def commands : Text → List MacroCommand
  | .done => []
  | .type key rest => [.keyDown key, .keyUp key] ++ rest.commands
  | .under modifier body rest =>
      (.keyDown modifier :: (body.commands ++ [.keyUp modifier])) ++ rest.commands

def strokes (mods : BitVec 8) : Text → List (BitVec 8 × Code)
  | .done => []
  | .type key rest => (mods, key) :: rest.strokes mods
  | .under modifier body rest => body.strokes (mods ||| modifier.modBit) ++ rest.strokes mods

/-- The text types keys that are up, under modifiers that are off. -/
def Typable (keys : KeyBytes) (weak : BitVec 8) : Text → Prop
  | .done => True
  | .type key rest => key.isKey = true ∧ ¬ keys.Holds key ∧ rest.Typable keys weak
  | .under modifier body rest => modifier.isMod = true ∧ weak &&& modifier.modBit = 0#8 ∧
      body.Typable keys (weak ||| modifier.modBit) ∧ rest.Typable keys weak

end Text

theorem newKeys_self (keys : KeyBytes) : newKeys keys keys = [] := by
  simp [newKeys, KeyBytes.Holds]

section OneKey

variable {keys : KeyBytes} {slot : Fin 6} {key : Code}

theorem update_other (up : ¬ keys.Holds key) (place : Fin 6) :
    (Function.update keys slot key place ≠ 0#8 ∧
    ¬ keys.Holds (Function.update keys slot key place)) ↔
      key ≠ 0#8 ∧ place = slot := by
  rw [Function.update_apply]
  split
  · rename_i here
    simp [here, up]
  · rename_i elsewhere
    simp only [elsewhere, and_false, iff_false, not_and, not_not]
    exact fun _ => ⟨place, rfl⟩

theorem newKeys_pressed (nonzero : key ≠ 0#8) (up : ¬ keys.Holds key) :
    newKeys keys (Function.update keys slot key) = [key] := by
  have alone : (List.finRange 6).filter (fun place => place = slot) = [slot] := by
    rw [List.filter_eq, List.count_eq_one_of_mem (List.nodup_finRange 6) (List.mem_finRange slot)]
    rfl
  have chosen : (fun place => decide (Function.update keys slot key place ≠ 0#8 ∧
      ¬ keys.Holds (Function.update keys slot key place))) =
      fun place => decide (place = slot) := by
    funext place
    simp [update_other up place, nonzero]
  simp only [newKeys, List.filter_map, Function.comp_def, chosen, alone, List.map_cons,
    List.map_nil, Function.update_self]

theorem newKeys_released (free : keys slot = 0#8) :
    newKeys (Function.update keys slot key) keys = [] := by
  simp only [newKeys, List.filter_eq_nil_iff, List.mem_map, List.mem_finRange, true_and,
    decide_eq_true_eq]
  intro _ given assumed
  rcases given with ⟨place, rfl⟩
  rcases assumed with ⟨nonzero, absent⟩
  have elsewhere : place ≠ slot := by
    intro equal
    subst equal
    exact nonzero free
  exact absent ⟨place, Function.update_of_ne elsewhere key keys⟩

theorem delKeyByte_update (free : keys slot = 0#8) (up : ¬ keys.Holds key) :
    KeyBytes.delKeyByte (Function.update keys slot key) key = keys := by
  funext place
  simp only [KeyBytes.delKeyByte, Function.update_apply]
  by_cases here : place = slot
  · simp [here, free]
  · have other : keys place ≠ key := fun same => up ⟨place, same⟩
    simp [here, other]

end OneKey

theorem Core.sendKeyboardReport_quiet {core : Core} (quiet : core.oneshotMods = 0#8) :
    core.sendKeyboardReport =
      { core with
        report := { core.report with mods := core.realMods ||| core.weakMods }
        sent := core.sent ++ [{ core.report with mods := core.realMods ||| core.weakMods }] } := by
  simp [Core.sendKeyboardReport, Core.assembleReport, quiet]

theorem Core.sendKeyboardReport_heard {core : Core} {listener : Listener} {before : KeyBytes}
    {typed : List (BitVec 8 × Code)} (quiet : core.oneshotMods = 0#8)
    (heard : run Listener.hear listener core.sent = { keys := before, typed }) :
    run Listener.hear listener core.sendKeyboardReport.sent =
      { keys := core.report.keys
        typed := typed ++ (newKeys before core.report.keys).map
          (Prod.mk (core.realMods ||| core.weakMods)) } := by
  rw [Core.sendKeyboardReport_quiet quiet, run_append, heard]
  rfl

theorem or_and_not {weak bit : BitVec 8} (off : weak &&& bit = 0#8) :
    (weak ||| bit) &&& ~~~bit = weak := by
  apply BitVec.eq_of_getLsbD_eq
  intro place bound
  have apart := congrArg (fun byte => BitVec.getLsbD byte place) off
  simp only [BitVec.getLsbD_and, BitVec.getLsbD_zero] at apart
  simp only [BitVec.getLsbD_and, BitVec.getLsbD_or, BitVec.getLsbD_not, bound, decide_true,
    Bool.true_and]
  cases set : weak.getLsbD place <;> cases own : bit.getLsbD place <;> simp_all

/-- The keyboard holds these keys and modifiers, and the host,
which listens from `listener` on, has read `typed`. -/
structure Typing (listener : Listener) (held : KeyBytes) (real weak : BitVec 8)
    (typed : List (BitVec 8 × Code)) (player : Player) : Prop where
  keys : player.core.report.keys = held
  real : player.core.realMods = real
  weak : player.core.weakMods = weak
  oneshot : player.core.oneshotMods = 0#8
  heard : run Listener.hear listener player.core.sent = { keys := held, typed }

namespace Typing

variable {listener : Listener} {held : KeyBytes} {real weak : BitVec 8}
    {typed : List (BitVec 8 × Code)}
  {player : Player} {slot : Fin 6} {key modifier : Code}

theorem sends (typing : Typing listener held real weak typed player) (changed : Core)
    {held' : KeyBytes}
    {weak' : BitVec 8} (keys : changed.report.keys = held') (weakMods : changed.weakMods = weak')
    (realMods : changed.realMods = player.core.realMods)
    (oneshot : changed.oneshotMods = player.core.oneshotMods)
    (sent : changed.sent = player.core.sent) :
    Typing listener held' real weak' (typed ++ (newKeys held held').map (Prod.mk (real ||| weak')))
      (player.onCore fun _ => changed.sendKeyboardReport).pause := by
  have quiet := oneshot.trans typing.oneshot
  have heard := Core.sendKeyboardReport_heard quiet (sent ▸ typing.heard)
  have still := realMods.trans typing.real
  subst keys weakMods
  refine ⟨?_, ?_, ?_, ?_, ?_⟩ <;> simp only [Player.pause, Player.onCore, Core.waitMs]
  · simp
  · simpa using still
  · simp
  · simp [Core.sendKeyboardReport_quiet quiet, quiet]
  · simpa [still] using heard

theorem press (typing : Typing listener held real weak typed player) (isKey : key.isKey = true)
    (up : ¬ held.Holds key) (room : held.Holds 0#8) :
    ∃ slot, held slot = 0#8 ∧ Typing listener (Function.update held slot key) real weak
      (typed ++ [(real ||| weak, key)]) (perform player (.keyDown key)) := by
  have nonzero := Code.isKey_ne_zero isKey
  obtain ⟨slot, free, added⟩ | ⟨full, _⟩ := KeyBytes.addKeyByte_new up
  · have keys : (player.core.addKey key).report.keys = Function.update held slot key := by
      rw [← added, ← typing.keys]
      rfl
    have sent := typing.sends _ keys typing.weak rfl rfl rfl
    rw [newKeys_pressed nonzero up] at sent
    refine ⟨slot, free, ?_⟩
    simpa [perform, Player.keyDown, Core.registerCode, Code.isKey_not_isMod isKey, isKey, Code.kcNo,
      nonzero, Player.onCore] using sent
  · exact absurd room full

theorem release (free : held slot = 0#8) (isKey : key.isKey = true) (up : ¬ held.Holds key)
    (typing : Typing listener (Function.update held slot key) real weak typed player) :
    Typing listener held real weak typed (perform player (.keyUp key)) := by
  have nonzero := Code.isKey_ne_zero isKey
  have keys : (player.core.delKey key).report.keys = held := by
    rw [← delKeyByte_update free up, ← typing.keys]
    rfl
  have sent := typing.sends _ keys typing.weak rfl rfl rfl
  rw [newKeys_released free, List.map_nil, List.append_nil] at sent
  simpa [perform, Player.keyUp, Core.unregisterCode, Code.isKey_not_isMod isKey, isKey, Code.kcNo,
    nonzero, Player.onCore] using sent

theorem enter (typing : Typing listener held real weak typed player)
    (isMod : modifier.isMod = true) :
    Typing listener held real (weak ||| modifier.modBit) typed
      (perform player (.keyDown modifier)) := by
  have keys : (player.core.addWeakMods modifier.modBit).report.keys = held := typing.keys
  have weakMods :
      (player.core.addWeakMods modifier.modBit).weakMods = weak ||| modifier.modBit := by
    rw [← typing.weak]
    rfl
  have sent := typing.sends _ keys weakMods rfl rfl rfl
  rw [newKeys_self, List.map_nil, List.append_nil] at sent
  simpa [perform, Player.keyDown, isMod, Player.onCore] using sent

theorem leave (isMod : modifier.isMod = true) (off : weak &&& modifier.modBit = 0#8)
    (typing : Typing listener held real (weak ||| modifier.modBit) typed player) :
    Typing listener held real weak typed (perform player (.keyUp modifier)) := by
  have keys : (player.core.delWeakMods modifier.modBit).report.keys = held := typing.keys
  have weakMods : (player.core.delWeakMods modifier.modBit).weakMods = weak := by
    simp only [Core.delWeakMods, typing.weak]
    exact or_and_not off
  have sent := typing.sends _ keys weakMods rfl rfl rfl
  rw [newKeys_self, List.map_nil, List.append_nil] at sent
  simpa [perform, Player.keyUp, isMod, Player.onCore] using sent

end Typing

/-- Every text is typed as its strokes, and the keyboard is then as it was. -/
theorem Text.types {listener : Listener} {held : KeyBytes} {real : BitVec 8} (room : held.Holds 0#8)
    (text : Text) :
    ∀ {weak : BitVec 8} (typed : List (BitVec 8 × Code)), text.Typable held weak →
      Triple perform (Typing listener held real weak typed) text.commands
        (Typing listener held real weak (typed ++ text.strokes (real ||| weak))) := by
  induction text with
  | done =>
      intro weak typed _
      simpa [Text.commands, Text.strokes] using Triple.skip
  | type key rest ih =>
      intro weak typed given
      rcases given with ⟨isKey, up, typable⟩
      have stroke : Triple perform (Typing listener held real weak typed) [.keyDown key, .keyUp key]
          (Typing listener held real weak (typed ++ [(real ||| weak, key)])) := by
        intro player typing
        obtain ⟨slot, free, pressed⟩ := typing.press isKey up room
        exact Typing.release free isKey up pressed
      simpa [Text.commands, Text.strokes] using stroke.append (ih _ typable)
  | under modifier body rest bodyIh restIh =>
      intro weak typed given
      rcases given with ⟨isMod, off, typableBody, typableRest⟩
      have bracket : Triple perform (Typing listener held real weak typed)
          (.keyDown modifier :: (body.commands ++ [.keyUp modifier]))
            (Typing listener held real weak _) :=
        Triple.bracket (fun _ typing => typing.enter isMod) (bodyIh typed typableBody)
          (fun _ => Typing.leave isMod off)
      simpa [Text.commands, Text.strokes, BitVec.or_assoc]
        using bracket.append (restIh _ typableRest)

/-- The bytes of `MACRO(...)`: two for every command of a text, and the `END`. -/
def Text.script (text : Text) : List (BitVec 8) :=
  text.commands.flatMap MacroCommand.longForm ++ [0x00#8]

/-- A host that knows which keys are down reads from the reports of the macro exactly the strokes of
its text, each with its modifiers, and the macro leaves the keys and modifiers as it found them. -/
theorem text_read_by_host {listener : Listener} {core : Core} (text : Text)
    (room : core.report.keys.Holds 0#8)
    (typable : text.Typable core.report.keys core.weakMods) (quiet : core.oneshotMods = 0#8)
    (known : (run Listener.hear listener core.sent).keys = core.report.keys) :
    ∃ final, actionMacroPlay (some text.script) core = some final ∧
      (run Listener.hear listener final.sent).typed =
        (run Listener.hear listener core.sent).typed ++ text.strokes
          (core.realMods ||| core.weakMods) ∧
      final.report.keys = core.report.keys ∧ final.realMods = core.realMods ∧
        final.weakMods = core.weakMods := by
  have start : Typing listener core.report.keys core.realMods core.weakMods
      (run Listener.hear listener core.sent).typed (Player.start core) :=
    ⟨rfl, rfl, rfl, quiet, by rw [← known]; rfl⟩
  have typed := text.types room _ typable _ start
  refine ⟨_, ?_, congrArg Listener.typed typed.heard, typed.keys, typed.real, typed.weak⟩
  rw [actionMacroPlay,
    macroLoop_returns.mpr ⟨text.commands, text.commands.map MacroCommand.longForm, 0x00#8, [], ?_,
    .inl rfl, by rw [Text.script, List.flatMap_def], rfl⟩, Option.map_some]
  rw [List.forall₂_map_right_iff, List.forall₂_same]
  exact fun command _ => command.encodes_longForm

theorem text_read_by_host_shifted :
    let text : Text := .under 0xE1 (.type 0x0B .done) (.type 0x0C (.type 0x0C .done))
    ∃ final, actionMacroPlay
        (some [0x01, 0xE1, 0x01, 0x0B, 0x02, 0x0B, 0x02, 0xE1, 0x01, 0x0C, 0x02, 0x0C,
        0x01, 0x0C, 0x02, 0x0C, 0x00]) Core.reset = some final ∧
      text.script.length = 17 ∧
      (run Listener.hear { keys := KeyBytes.empty, typed := [] } final.sent).typed =
        [(0x02, 0x0B), (0x00, 0x0C), (0x00, 0x0C)] := by
  intro text
  obtain ⟨final, played, typed, _⟩ :=
    @text_read_by_host { keys := KeyBytes.empty, typed := [] } Core.reset text
    ⟨⟨0, by decide⟩, rfl⟩
    ⟨by decide, by decide, ⟨by decide, by decide, trivial⟩, by decide, by decide, by decide,
      by decide, trivial⟩
    rfl rfl
  exact ⟨final, played, rfl, typed⟩

end BleKeyboard.Tmk
