import BleKeyboard.Tmk.Registered
import BleKeyboard.Data.Machine

namespace BleKeyboard.Tmk

/-! The macro player (`action_macro.c`, `action_macro.h`).

A macro is a string of bytes.  A key code between 0x04 and 0x73 can be pressed and released by a
single byte, and every code by a command byte and an operand. -/

namespace Core

def setMods (core : Core) (mods : BitVec 8) : Core := { core with realMods := mods }

end Core

/-- The locals of `action_macro_play` beside the statics its commands change. -/
structure Player where
  core : Core
  interval : BitVec 8
  modStorage : BitVec 8

namespace Player

def start (core : Core) : Player := { core, interval := 0, modStorage := 0 }

variable (player : Player)

def onCore (change : Core → Core) : Player := { player with core := change player.core }

def keyDown (code : Code) : Player :=
  player.onCore fun core =>
    if code.isMod then (core.addWeakMods code.modBit).sendKeyboardReport else core.registerCode code

def keyUp (code : Code) : Player :=
  player.onCore fun core =>
    if code.isMod then (core.delWeakMods code.modBit).sendKeyboardReport
    else core.unregisterCode code

def wait (ms : BitVec 8) : Player := player.onCore (Core.waitMs · ms.toNat)

def setInterval (ms : BitVec 8) : Player := { player with interval := ms }

def modStore : Player := { player with modStorage := player.core.realMods }

def modRestore : Player :=
  player.onCore fun core => (core.setMods player.modStorage).sendKeyboardReport

def modClear : Player := player.onCore fun core => core.clearMods.sendKeyboardReport

def down (code : Code) : Player := player.onCore (Core.registerCode · code)

def up (code : Code) : Player := player.onCore (Core.unregisterCode · code)

def pause : Player := player.onCore (Core.waitMs · player.interval.toNat)

end Player

/-- The loop of `action_macro_play`, which gives up where the macro has no byte left to read. -/
def macroLoop : List (BitVec 8) → Player → Option Player
  | [], _ => none
  | command :: rest, player =>
      match command.toNat, rest with
      | 0x01, [] => none
      | 0x01, operand :: rest => macroLoop rest (player.keyDown operand).pause
      | 0x02, [] => none
      | 0x02, operand :: rest => macroLoop rest (player.keyUp operand).pause
      | 0x74, [] => none
      | 0x74, operand :: rest => macroLoop rest (player.wait operand).pause
      | 0x75, [] => none
      | 0x75, operand :: rest => macroLoop rest (player.setInterval operand).pause
      | 0x76, rest => macroLoop rest player.modStore.pause
      | 0x77, rest => macroLoop rest player.modRestore.pause
      | 0x78, rest => macroLoop rest player.modClear.pause
      | _, rest =>
          if 0x04#8 ≤ command ∧ command ≤ 0x73#8 then macroLoop rest (player.down command).pause
          else if 0x84#8 ≤ command ∧ command ≤ 0xF3#8 then
            macroLoop rest (player.up (command &&& 0x7F#8)).pause
          else some player

/-- `action_macro_play`, whose argument is null when the keymap binds no macro. -/
def actionMacroPlay (script : Option (List (BitVec 8))) (core : Core) : Option Core :=
  match script with
  | none => some core
  | some bytes => (macroLoop bytes (Player.start core)).map Player.core

/-- What the bytes of a macro say, whichever form they use. -/
inductive MacroCommand where
  | keyDown (code : Code)
  | keyUp (code : Code)
  | wait (ms : BitVec 8)
  | interval (ms : BitVec 8)
  | modStore
  | modRestore
  | modClear
deriving DecidableEq, Repr

namespace MacroCommand

def perform (player : Player) : MacroCommand → Player
  | .keyDown code => (player.keyDown code).pause
  | .keyUp code => (player.keyUp code).pause
  | .wait ms => (player.wait ms).pause
  | .interval ms => (player.setInterval ms).pause
  | .modStore => player.modStore.pause
  | .modRestore => player.modRestore.pause
  | .modClear => player.modClear.pause

/-- The one-byte and two-byte forms listed in `action_macro.h`. -/
inductive Encodes : MacroCommand → List (BitVec 8) → Prop
  | keyDown (code) : Encodes (.keyDown code) [0x01#8, code]
  | keyUp (code) : Encodes (.keyUp code) [0x02#8, code]
  | down {code} (least : 0x04#8 ≤ code) (most : code ≤ 0x73#8) : Encodes (.keyDown code) [code]
  | up {code} (least : 0x04#8 ≤ code) (most : code ≤ 0x73#8) :
      Encodes (.keyUp code) [code ||| 0x80#8]
  | wait (ms) : Encodes (.wait ms) [0x74#8, ms]
  | interval (ms) : Encodes (.interval ms) [0x75#8, ms]
  | modStore : Encodes .modStore [0x76#8]
  | modRestore : Encodes .modRestore [0x77#8]
  | modClear : Encodes .modClear [0x78#8]

/-- The form `DOWN(key)`, `UP(key)`, `WAIT(ms)` and the others expand to. -/
def longForm : MacroCommand → List (BitVec 8)
  | .keyDown code => [0x01#8, code]
  | .keyUp code => [0x02#8, code]
  | .wait ms => [0x74#8, ms]
  | .interval ms => [0x75#8, ms]
  | .modStore => [0x76#8]
  | .modRestore => [0x77#8]
  | .modClear => [0x78#8]

theorem encodes_longForm (command : MacroCommand) : Encodes command command.longForm := by
  cases command <;> constructor

end MacroCommand

/-- `END`, and every other byte that no command begins with. -/
def EndsMacro (stop : BitVec 8) : Prop :=
  stop = 0x00#8 ∨ stop = 0x03#8 ∨ 0x79#8 ≤ stop ∧ stop ≤ 0x83#8 ∨ 0xF4#8 ≤ stop

open MacroCommand

section OneByte

variable {code : Code} {player : Player} {rest : List (BitVec 8)}

theorem oneByte_not_isMod (most : code ≤ 0x73#8) : code.isMod = false := by
  have outside : ¬ code.isMod = true := by
    rw [Code.isMod_iff]
    have bound := BitVec.le_def.mp most
    simp only [BitVec.reduceToNat] at bound
    omega
  simpa using outside

theorem Player.down_eq_keyDown (most : code ≤ 0x73#8) : player.down code = player.keyDown code := by
  simp [Player.down, Player.keyDown, oneByte_not_isMod most]

theorem Player.up_eq_keyUp (most : code ≤ 0x73#8) : player.up code = player.keyUp code := by
  simp [Player.up, Player.keyUp, oneByte_not_isMod most]

theorem upByte_code : ∀ code : Code, 0x04#8 ≤ code → code ≤ 0x73#8 →
    (code ||| 0x80#8) &&& 0x7F#8 = code ∧ 0x84#8 ≤ code ||| 0x80#8 ∧ code ||| 0x80#8 ≤ 0xF3#8 := by
  decide +kernel

theorem code_upByte : ∀ command : BitVec 8, 0x84#8 ≤ command → command ≤ 0xF3#8 →
    (command &&& 0x7F#8) ||| 0x80#8 = command ∧
      0x04#8 ≤ command &&& 0x7F#8 ∧ command &&& 0x7F#8 ≤ 0x73#8 := by
  decide +kernel

theorem macroLoop_down (least : 0x04#8 ≤ code) (most : code ≤ 0x73#8) :
    macroLoop (code :: rest) player = macroLoop rest (player.keyDown code).pause := by
  have low := BitVec.le_def.mp least
  have high := BitVec.le_def.mp most
  simp only [BitVec.reduceToNat] at low high
  rw [macroLoop.eq_def]
  dsimp only
  split
  case h_12 => rw [if_pos ⟨least, most⟩, Player.down_eq_keyDown most]
  all_goals omega

theorem macroLoop_up (least : 0x04#8 ≤ code) (most : code ≤ 0x73#8) :
    macroLoop ((code ||| 0x80#8) :: rest) player = macroLoop rest (player.keyUp code).pause := by
  obtain ⟨back, atLeast, atMost⟩ := upByte_code code least most
  have low := BitVec.le_def.mp atLeast
  have high := BitVec.le_def.mp atMost
  simp only [BitVec.reduceToNat] at low high
  have above : ¬ code ||| 0x80#8 ≤ 0x73#8 := by
    rw [BitVec.le_def]
    simp only [BitVec.reduceToNat]
    omega
  rw [macroLoop.eq_def]
  dsimp only
  split
  case h_12 =>
    rw [if_neg (fun both => above both.2), if_pos ⟨atLeast, atMost⟩, back, Player.up_eq_keyUp most]
  all_goals omega

theorem macroLoop_ends {stop : BitVec 8} (ends : EndsMacro stop) :
    macroLoop (stop :: rest) player = some player := by
  have values : stop.toNat = 0 ∨ stop.toNat = 3 ∨ 0x79 ≤ stop.toNat ∧ stop.toNat ≤ 0x83 ∨
      0xF4 ≤ stop.toNat := by
    rcases ends with rfl | rfl | ⟨low, high⟩ | low
    · exact .inl rfl
    · exact .inr (.inl rfl)
    · exact .inr (.inr (.inl ⟨BitVec.le_def.mp low, BitVec.le_def.mp high⟩))
    · exact .inr (.inr (.inr (BitVec.le_def.mp low)))
  rw [macroLoop.eq_def]
  dsimp only
  split
  case h_12 =>
    simp only [BitVec.le_def, BitVec.reduceToNat]
    rw [if_neg (by omega), if_neg (by omega)]
  all_goals omega

end OneByte

theorem macroLoop_encoded {command : MacroCommand} {chunk rest : List (BitVec 8)} {player : Player}
    (encodes : Encodes command chunk) :
    macroLoop (chunk ++ rest) player = macroLoop rest (perform player command) := by
  cases encodes with
  | down least most => exact macroLoop_down least most
  | up least most => exact macroLoop_up least most
  | keyDown code => rfl
  | keyUp code => rfl
  | wait ms => rfl
  | interval ms => rfl
  | modStore => rfl
  | modRestore => rfl
  | modClear => rfl

/-- What one turn of the loop reads: a command, the end of the macro, or beyond the last byte. -/
theorem macroLoop_reads (bytes : List (BitVec 8)) (player : Player) :
    (∃ command chunk rest, bytes = chunk ++ rest ∧ Encodes command chunk) ∨
      (∃ stop rest, bytes = stop :: rest ∧ EndsMacro stop) ∨ macroLoop bytes player = none := by
  cases bytes with
  | nil => exact .inr (.inr rfl)
  | cons command rest =>
      by_cases twoByte : command = 0x01#8 ∨ command = 0x02#8 ∨ command = 0x74#8 ∨ command = 0x75#8
      · cases rest with
        | nil =>
            rcases twoByte with rfl | rfl | rfl | rfl
            all_goals exact .inr (.inr rfl)
        | cons operand rest =>
            rcases twoByte with rfl | rfl | rfl | rfl
            · exact .inl ⟨_, [0x01#8, operand], rest, rfl, .keyDown operand⟩
            · exact .inl ⟨_, [0x02#8, operand], rest, rfl, .keyUp operand⟩
            · exact .inl ⟨_, [0x74#8, operand], rest, rfl, .wait operand⟩
            · exact .inl ⟨_, [0x75#8, operand], rest, rfl, .interval operand⟩
      · by_cases modifiers : command = 0x76#8 ∨ command = 0x77#8 ∨ command = 0x78#8
        · rcases modifiers with rfl | rfl | rfl
          · exact .inl ⟨_, [0x76#8], rest, rfl, .modStore⟩
          · exact .inl ⟨_, [0x77#8], rest, rfl, .modRestore⟩
          · exact .inl ⟨_, [0x78#8], rest, rfl, .modClear⟩
        · by_cases press : 0x04#8 ≤ command ∧ command ≤ 0x73#8
          · exact .inl ⟨_, [command], rest, rfl, .down press.1 press.2⟩
          · by_cases release : 0x84#8 ≤ command ∧ command ≤ 0xF3#8
            · obtain ⟨same, least, most⟩ := code_upByte command release.1 release.2
              have encodes := Encodes.up least most
              rw [same] at encodes
              exact .inl ⟨_, [command], rest, rfl, encodes⟩
            · refine .inr (.inl ⟨command, rest, rfl, ?_⟩)
              simp only [EndsMacro, BitVec.le_def, BitVec.reduceToNat, ← BitVec.toNat_inj] at *
              omega

theorem MacroCommand.Encodes.nonempty {command : MacroCommand} {chunk : List (BitVec 8)}
    (encodes : Encodes command chunk) :
    0 < chunk.length := by
  cases encodes <;> simp

theorem macroLoop_returns {bytes : List (BitVec 8)} {player final : Player} :
    macroLoop bytes player = some final ↔
      ∃ commands chunks stop rest, List.Forall₂ Encodes commands chunks ∧ EndsMacro stop ∧
        bytes = chunks.flatten ++ stop :: rest ∧ final = Data.run perform player commands := by
  constructor
  · intro returned
    induction size : bytes.length using Nat.strong_induction_on generalizing bytes player with
    | _ length ih =>
        obtain ⟨command, chunk, rest, rfl, encodes⟩ | ⟨stop, rest, rfl, ends⟩ | stuck :=
          macroLoop_reads bytes player
        · have shorter : rest.length < length := by
            rw [← size, List.length_append]
            have := encodes.nonempty
            omega
          rw [macroLoop_encoded encodes] at returned
          obtain ⟨commands, chunks, stop, last, all, ends, rfl, rfl⟩ := ih _ shorter returned rfl
          exact ⟨command :: commands, chunk :: chunks, stop, last, .cons encodes all, ends,
            by simp, rfl⟩
        · rw [macroLoop_ends ends] at returned
          exact ⟨[], [], stop, rest, .nil, ends, rfl, (Option.some.inj returned).symm⟩
        · rw [stuck] at returned
          cases returned
  · intro given
    rcases given with ⟨commands, chunks, stop, rest, all, ends, rfl, rfl⟩
    induction all generalizing player with
    | nil => exact macroLoop_ends ends
    | cons encodes _ ih =>
        rw [List.flatten_cons, List.append_assoc, macroLoop_encoded encodes, ih]
        rfl

/-- The player returns from exactly the macros that are commands, in either form, up to a byte that
ends the macro, and it has then performed those commands. -/
theorem actionMacroPlay_returns {bytes : List (BitVec 8)} {core final : Core} :
    actionMacroPlay (some bytes) core = some final ↔
      ∃ commands chunks stop rest, List.Forall₂ Encodes commands chunks ∧ EndsMacro stop ∧
        bytes = chunks.flatten ++ stop :: rest ∧
        final = (Data.run perform (Player.start core) commands).core := by
  simp only [actionMacroPlay, Option.map_eq_some_iff]
  constructor
  · intro given
    rcases given with ⟨player, returned, rfl⟩
    obtain ⟨commands, chunks, stop, rest, all, ends, whole, rfl⟩ := macroLoop_returns.mp returned
    exact ⟨commands, chunks, stop, rest, all, ends, whole, rfl⟩
  · intro given
    rcases given with ⟨commands, chunks, stop, rest, all, ends, whole, rfl⟩
    exact ⟨_, macroLoop_returns.mpr ⟨commands, chunks, stop, rest, all, ends, whole, rfl⟩, rfl⟩

end BleKeyboard.Tmk
