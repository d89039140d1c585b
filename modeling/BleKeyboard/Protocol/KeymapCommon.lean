import BleKeyboard.Tmk.PressedKeys

namespace BleKeyboard.Protocol

open BleKeyboard.Data BleKeyboard.Tmk

inductive KeymapParam where
  | k00 | k01 | k02 | k03 | k04 | k05 | k06 | k07 | k08 | k09 | k0a | k0b | k0c | k0d | k0f
  | k10 | k11 | k12 | k13 | k14 | k15 | k16 | k17 | k18 | k19 | k1a | k1b | k1c | k1d | k1f
  | k20 | k21 | k22 | k23 | k24 | k25 | k26 | k27 | k28 | k29 | k2a | k2b | k2c | k2d | k2f
  | k30 | k31 | k32 | k33 | k34 | k35 | k36 | k37 | k38 | k39 | k3a | k3b | k3c | k3d | k3f
  | k40 | k41 | k42 | k43 | k44 | k45 | k46 | k47 | k48 | k49 | k4a | k4b | k4c | k4d | k4f
  | k50 | k51 | k52 | k55 | k57 | k58 | k59 | k5a | k5b | k5c | k5d | k5f
deriving DecidableEq

namespace KeymapParam

def all : List KeymapParam :=
  [k00, k01, k02, k03, k04, k05, k06, k07, k08, k09, k0a, k0b, k0c, k0d, k0f,
    k10, k11, k12, k13, k14, k15, k16, k17, k18, k19, k1a, k1b, k1c, k1d, k1f,
    k20, k21, k22, k23, k24, k25, k26, k27, k28, k29, k2a, k2b, k2c, k2d, k2f,
    k30, k31, k32, k33, k34, k35, k36, k37, k38, k39, k3a, k3b, k3c, k3d, k3f,
    k40, k41, k42, k43, k44, k45, k46, k47, k48, k49, k4a, k4b, k4c, k4d, k4f,
    k50, k51, k52, k55, k57, k58, k59, k5a, k5b, k5c, k5d, k5f]

/-- The rows that `KEYMAP` expands to, `none` for its `KC_NO` entries. -/
def keymapRows : List (List (Option KeymapParam)) :=
  [[k00, k01, k02, k03, k04, k05, k06, k07, k08, k09, k0a, k0b, k0c, k0d, k0f].map some,
    [k10, k11, k12, k13, k14, k15, k16, k17, k18, k19, k1a, k1b, k1c, k1d, k1f].map some,
    [k20, k21, k22, k23, k24, k25, k26, k27, k28, k29, k2a, k2b, k2c, k2d, k2f].map some,
    [k30, k31, k32, k33, k34, k35, k36, k37, k38, k39, k3a, k3b, k3c, k3d, k3f].map some,
    [k40, k41, k42, k43, k44, k45, k46, k47, k48, k49, k4a, k4b, k4c, k4d, k4f].map some,
    [k50, k51, k52].map some ++ [none, none, some k55, none, none] ++ [k58, k59, k5a, k5b, k5c, k5d,
      k5f].map some]

/-- What the expansion has at a position.  Column 15 of a row is not initialised, so it is 0. -/
def entryAt (row col : Nat) : Option KeymapParam := (keymapRows[row]?.bind (·[col]?)).join

theorem mem_all (param : KeymapParam) : param ∈ all := by
  cases param <;> decide

theorem placed : ∀ param ∈ all, param ≠ .k57 → ∃ position : Position,
    entryAt position.1.val position.2.val = some param := by
  decide +kernel

theorem k57_dropped : ∀ position : Position, entryAt position.1.val position.2.val ≠ some .k57 := by
  decide +kernel

def keymapPlain : KeymapParam → Code
  | .k00 => 0x29 | .k01 => 0x3A | .k02 => 0x3B | .k03 => 0x3C | .k04 => 0x3D | .k05 => 0x3E
  | .k06 => 0x3F | .k07 => 0x40 | .k08 => 0x41 | .k09 => 0x42 | .k0a => 0x43 | .k0b => 0x44
  | .k0c => 0x45 | .k0d => 0x46 | .k0f => 0x47
  | .k10 => 0x35 | .k11 => 0x1E | .k12 => 0x1F | .k13 => 0x20 | .k14 => 0x21 | .k15 => 0x22
  | .k16 => 0x23 | .k17 => 0x24 | .k18 => 0x25 | .k19 => 0x26 | .k1a => 0x27 | .k1b => 0x2D
  | .k1c => 0x2E | .k1d => 0x2A | .k1f => 0x48
  | .k20 => 0x2B | .k21 => 0x14 | .k22 => 0x1A | .k23 => 0x08 | .k24 => 0x15 | .k25 => 0x17
  | .k26 => 0x1C | .k27 => 0x18 | .k28 => 0x0C | .k29 => 0x12 | .k2a => 0x13 | .k2b => 0x2F
  | .k2c => 0x30 | .k2d => 0x31 | .k2f => 0x4A
  | .k30 => 0x39 | .k31 => 0x04 | .k32 => 0x16 | .k33 => 0x07 | .k34 => 0x09 | .k35 => 0x0A
  | .k36 => 0x0B | .k37 => 0x0D | .k38 => 0x0E | .k39 => 0x0F | .k3a => 0x33 | .k3b => 0x34
  | .k3c => 0x28 | .k3d => 0x49 | .k3f => 0x4D
  | .k40 => 0xE1 | .k41 => 0x1D | .k42 => 0x1B | .k43 => 0x06 | .k44 => 0x19 | .k45 => 0x05
  | .k46 => 0x11 | .k47 => 0x10 | .k48 => 0x36 | .k49 => 0x37 | .k4a => 0x38 | .k4b => 0xE5
  | .k4c => 0x52 | .k4d => 0x4C | .k4f => 0x4B
  | .k50 => 0xE0 | .k51 => 0xE3 | .k52 => 0xE2 | .k55 => 0x2C | .k57 => 0xE6 | .k58 => 0xE7
  | .k59 => 0x65 | .k5a => 0xE4 | .k5b => 0x50 | .k5c => 0x51 | .k5d => 0x4F | .k5f => 0x4E

end KeymapParam

/-- The keymap of an assignment of codes to the parameters.
Its one layer is the only one that is read. -/
def keymapOf (assign : KeymapParam → Code) : Keymap where
  keymaps _ key := (KeymapParam.entryAt key.row.toNat key.col.toNat).elim Code.kcNo assign
  fnActions _ := 0

variable {assign : KeymapParam → Code} {position : Position} {code other : Code}

theorem codeAt_keymapOf : (keymapOf assign).codeAt position =
    (KeymapParam.entryAt position.1.val position.2.val).elim Code.kcNo assign := by
  have row : position.keyPos.row.toNat = position.1.val := by
    have bound := position.row_lt
    simp only [Position.keyPos, BitVec.toNat_ofNat]
    omega
  have col : position.keyPos.col.toNat = position.2.val := by
    have bound := position.col_lt
    simp only [Position.keyPos, BitVec.toNat_ofNat]
    omega
  simp [Keymap.codeAt, Keymap.keymapKeyToKeycode, keymapOf, row, col]

theorem ordinary_keymapOf
    (ordinary : ∀ param, (assign param).isKey = true ∨ (assign param).isMod = true) :
    (keymapOf assign).Ordinary where
  codes position := by
    rw [codeAt_keymapOf]
    cases KeymapParam.entryAt position.1.val position.2.val with
    | none => exact .inl rfl
    | some param => exact .inr (ordinary param)

def Contains (report : Report) (code : Code) : Prop :=
  code.isKey = true ∧ report.keys.Holds code ∨ code.isMod = true ∧ report.mods &&& code.modBit ≠ 0#8

/-- No key is down, and nothing is pending, waiting or registered. -/
structure Idle (keyboard : Keyboard) : Prop where
  released : keyboard.matrixPrev = fun _ => 0
  idle : keyboard.engine.isTapping = false
  empty : keyboard.engine.waitingBuffer = []
  settled : keyboard.engine.core.Settled
  report : keyboard.report = Report.empty

/-- From any idle state the press of the key at the position
sends one report, which contains the code. -/
def Types (keymap : Keymap) (position : Position) (code : Code) : Prop :=
  ∀ keyboard scan, Idle keyboard → scan.matrix = position.toggle (fun _ => 0) →
    ∃ report,
      (keyboard.keyboardTask keymap scan).engine.core.sent = keyboard.engine.core.sent ++ [report] ∧
      Contains report code

theorem idle_reset : Idle Keyboard.reset := ⟨rfl, rfl, rfl, ⟨rfl, rfl, rfl, rfl⟩, rfl⟩

theorem press_contains (mapped : code.isKey = true ∨ code.isMod = true)
    (known : other.isKey = true ∨ other.isMod = true) :
    Contains (Report.empty.applyEdge true code) other ↔ code = other := by
  have nothing : ∀ {byte : Code}, byte.isKey = true → ¬ KeyBytes.empty.Holds byte := fun key held =>
    Code.isKey_ne_zero key (KeyBytes.empty_holds.mp held)
  obtain key | modifier := mapped
  · rw [Report.applyEdge, if_pos key]
    constructor
    · intro either
      rcases either with ⟨otherKey, held⟩ | ⟨_, set⟩
      · exact ((KeyBytes.addKeyByte_holds held).resolve_right (nothing otherKey)).symm
      · exact absurd (BitVec.zero_and) set
    · intro equal
      subst equal
      refine .inl ⟨key, ?_⟩
      obtain ⟨slot, _, update⟩ | ⟨full, _⟩ := KeyBytes.addKeyByte_new (nothing key)
      · exact ⟨slot, by simp [Report.empty, update]⟩
      · exact absurd (KeyBytes.empty_holds.mpr rfl) full
  · have notKey : ¬ code.isKey = true := fun key => by
      rw [Code.isKey_not_isMod key] at modifier
      contradiction
    rw [Report.applyEdge, if_neg notKey, if_pos modifier]
    have alone : (0 : BitVec 8) ||| code.modBit = code.modBit := BitVec.zero_or
    simp only [Contains, Report.empty, if_true, alone]
    constructor
    · intro either
      rcases either with ⟨otherKey, held⟩ | ⟨otherMod, set⟩
      · exact absurd held (nothing otherKey)
      · by_contra different
        refine set (BitVec.eq_of_getLsbD_eq fun bit _ => ?_)
        by_contra common
        rw [BitVec.getLsbD_zero, Bool.not_eq_false, BitVec.getLsbD_and, Bool.and_eq_true] at common
        exact different (Report.Shows.modBit_injective modifier otherMod common.1 common.2)
    · intro equal
      subst equal
      refine .inr ⟨modifier, ?_⟩
      rw [BitVec.and_self]
      exact Code.modBit_ne_zero code

theorem types_iff {keymap : Keymap} (ordinary : keymap.Ordinary)
    (known : code.isKey = true ∨ code.isMod = true) :
    Types keymap position code ↔ keymap.codeAt position = code := by
  have task : ∀ keyboard scan, Idle keyboard → scan.matrix = position.toggle (fun _ => 0) →
      (keyboard.keyboardTask keymap scan).engine.core =
        keyboard.engine.core.act (keyboard.engine.recordOf (scan.edge position))
          (.key (keymap.codeAt position)) ∧
      (scan.edge position).pressed = true := by
    intro keyboard scan idle matrix
    have pressed : (scan.edge position).pressed = true := by
      rw [Keyboard.edge_pressed, matrix, Position.pressedIn_toggle, if_pos rfl]
      simp [Position.PressedIn]
    obtain ⟨acts, still, empty⟩ :=
      @Keyboard.processEdge_idle keymap position scan keyboard idle.idle idle.empty
      idle.settled ordinary
    refine ⟨?_, pressed⟩
    rw [Keyboard.keyboardTask, Keyboard.processRows_eq, idle.released, matrix,
      Keyboard.changes_press, List.foldl_cons, List.foldl_nil]
    exact (Keyboard.tick_idle still empty).1.trans acts
  have start : ∀ (keyboard : Keyboard) (scan : Scan), Idle keyboard →
      scan.matrix = position.toggle (fun _ => 0) →
      (keymap.codeAt position).isKey = true ∨ (keymap.codeAt position).isMod = true →
      (keyboard.keyboardTask keymap scan).engine.core.sent =
        keyboard.engine.core.sent ++ [Report.empty.applyEdge true (keymap.codeAt position)] := by
    intro keyboard scan idle matrix mapped
    obtain ⟨acts, pressed⟩ := task keyboard scan idle matrix
    have empty : keyboard.engine.core.report = Report.empty := idle.report
    rw [acts, idle.settled.act mapped, empty]
    simp [Engine.recordOf, pressed]
  constructor
  · intro types
    let press : Scan :=
      { matrix := position.toggle (fun _ => 0), edgeTime := fun _ => 1, tickTime := 1 }
    obtain ⟨report, sent, contains⟩ := types Keyboard.reset press idle_reset rfl
    obtain none | mapped := ordinary.codes position
    · rw [(task Keyboard.reset press idle_reset rfl).1, none, Core.Settled.act_kcNo] at sent
      exact absurd (congrArg List.length sent) (by simp)
    · rw [start Keyboard.reset press idle_reset rfl mapped] at sent
      have same : report = Report.empty.applyEdge true (keymap.codeAt position) := by
        simpa using sent.symm
      rw [same] at contains
      exact (press_contains mapped known).mp contains
  · intro own keyboard scan idle matrix
    rw [← own] at known ⊢
    exact ⟨_, start keyboard scan idle matrix known, (press_contains known known).mpr rfl⟩

/-- A parameter has a key that types its code exactly if it is
not K57, or another parameter has the same code. -/
theorem types_iff_placed (assign : KeymapParam → Code)
    (ordinary : ∀ param, (assign param).isKey = true ∨ (assign param).isMod = true)
    (param : KeymapParam) :
    (∃ position, Types (keymapOf assign) position (assign param)) ↔
      param ≠ .k57 ∨ ∃ other, other ≠ .k57 ∧ assign other = assign param := by
  have typed : ∀ position, Types (keymapOf assign) position (assign param) ↔
      (keymapOf assign).codeAt position = assign param :=
    fun position => types_iff (ordinary_keymapOf ordinary) (ordinary param)
  constructor
  · intro given
    rcases given with ⟨position, types⟩
    have own := (typed position).mp types
    rw [codeAt_keymapOf] at own
    cases found : KeymapParam.entryAt position.1.val position.2.val with
    | none =>
        have blank : assign param = Code.kcNo := by
          rw [← own, found]
          rfl
        have known := ordinary param
        rw [blank] at known
        exact absurd known (by decide)
    | some other =>
        rw [found] at own
        refine .inr ⟨other, ?_, own⟩
        intro equal
        subst equal
        exact KeymapParam.k57_dropped position found
  · intro placed
    have kept : ∃ other, other ≠ .k57 ∧ assign other = assign param := by
      obtain named | twin := placed
      · exact ⟨param, named, rfl⟩
      · exact twin
    obtain ⟨other, named, same⟩ := kept
    obtain ⟨position, found⟩ := KeymapParam.placed other (KeymapParam.mem_all other) named
    refine ⟨position, (typed position).mpr ?_⟩
    rw [codeAt_keymapOf, found, ← same]
    rfl

theorem ordinary_keymapPlain (param : KeymapParam) :
    (KeymapParam.keymapPlain param).isKey = true ∨
    (KeymapParam.keymapPlain param).isMod = true := by
  cases param <;> decide

theorem types_iff_placed_escape :
    ∃ position, Types (keymapOf KeymapParam.keymapPlain) position 0x29 :=
  (types_iff_placed KeymapParam.keymapPlain ordinary_keymapPlain .k00).mpr (.inl (by decide))

/-- In the shipped layout no key types the right alt key, the argument for K57. -/
theorem plain_altgr_dead :
    ¬ ∀ assign : KeymapParam → Code,
      (∀ param, (assign param).isKey = true ∨ (assign param).isMod = true) →
      ∀ param, ∃ position, Types (keymapOf assign) position (assign param) := by
  intro always
  obtain ⟨position, types⟩ := always KeymapParam.keymapPlain ordinary_keymapPlain .k57
  have own :=
    (types_iff (ordinary_keymapOf ordinary_keymapPlain) (ordinary_keymapPlain .k57)).mp types
  rw [codeAt_keymapOf] at own
  have dead : ∀ place : Position,
      (KeymapParam.entryAt place.1.val place.2.val).elim Code.kcNo KeymapParam.keymapPlain ≠
      KeymapParam.keymapPlain .k57 := by decide +kernel
  exact dead position own

end BleKeyboard.Protocol
