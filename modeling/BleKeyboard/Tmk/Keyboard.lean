import BleKeyboard.Data.Machine
import BleKeyboard.Protocol.Matrix
import BleKeyboard.Tmk.Tapping
import Mathlib.Data.List.Perm.Basic

namespace BleKeyboard.Tmk

open BleKeyboard.Data BleKeyboard.Protocol

abbrev Position := Fin matrixRows × Fin matrixCols

namespace Position

def keyPos (position : Position) : KeyPos :=
  { row := BitVec.ofNat 8 position.1.val, col := BitVec.ofNat 8 position.2.val }

def colMask (position : Position) : MatrixRow := 1#16 <<< position.2.val

def PressedIn (matrix : MatrixRows) (position : Position) : Prop :=
  (matrix position.1).getLsbD position.2.val = true

instance (matrix : MatrixRows) (position : Position) : Decidable (position.PressedIn matrix) :=
  inferInstanceAs (Decidable (_ = _))

def toggle (matrix : MatrixRows) (position : Position) : MatrixRows :=
  Function.update matrix position.1 (matrix position.1 ^^^ position.colMask)

theorem row_lt (position : Position) : position.1.val < 6 := position.1.isLt

theorem col_lt (position : Position) : position.2.val < 16 := position.2.isLt

theorem keyPos_real (position : Position) {time : BitVec 16} (pressed : Bool)
    (nonzero : time ≠ 0#16) :
    KeyEvent.isNoEvent { key := position.keyPos, pressed, time } = false := by
  have elsewhere : position.keyPos ≠ KeyEvent.tickKey := by
    intro same
    have row := congrArg (fun key => BitVec.toNat key.row) same
    have last : KeyEvent.tickKey.row.toNat = 255 := rfl
    simp only [keyPos, last, BitVec.toNat_ofNat] at row
    have bound := position.row_lt
    omega
  simp [KeyEvent.isNoEvent, nonzero, elsewhere]

theorem colMask_getLsbD {position : Position} {col : Nat} :
    position.colMask.getLsbD col = decide (col = position.2.val) := by
  have inRange := position.col_lt
  simp only [colMask, BitVec.getLsbD_shiftLeft, BitVec.getLsbD_one]
  by_cases here : col = position.2.val
  · simp [here]
  · simp only [here, decide_false]
    simp
    omega

theorem pressedIn_toggle {matrix : MatrixRows} {position other : Position} :
    other.PressedIn (toggle matrix position) ↔
      if other = position then ¬ other.PressedIn matrix else other.PressedIn matrix := by
  unfold PressedIn toggle
  by_cases row : other.1 = position.1
  · have same : other = position ↔ other.2.val = position.2.val :=
      ⟨fun same => by rw [same], fun col => Prod.ext row (Fin.ext col)⟩
    rw [row, Function.update_self, BitVec.getLsbD_xor, colMask_getLsbD]
    by_cases col : other.2.val = position.2.val
    · simp [same, col]
    · simp [same, col]
  · have different : other ≠ position := fun same => row (congrArg Prod.fst same)
    rw [Function.update_of_ne row, if_neg different]

end Position

/-- The matrix that one call of `keyboard_task` reads, and what
`timer_read` returns for each edge and for the tick. -/
structure Scan where
  matrix : MatrixRows
  edgeTime : Position → BitVec 16
  tickTime : BitVec 16

def Scan.edge (scan : Scan) (position : Position) : KeyEvent :=
  { key := position.keyPos
    pressed := (scan.matrix position.1 &&& position.colMask) ≠ 0#16
    time := scan.edgeTime position ||| 1#16 }

def Scan.tick (scan : Scan) : KeyEvent := .tick (scan.tickTime ||| 1#16)

structure Keyboard where
  matrixPrev : MatrixRows
  engine : Engine

namespace Keyboard

def reset : Keyboard := { matrixPrev := fun _ => 0, engine := Engine.reset }

variable (keymap : Keymap)

/-- The body of the loop over the columns for a changed key. -/
def processEdge (scan : Scan) (keyboard : Keyboard) (position : Position) : Keyboard :=
  { matrixPrev := position.toggle keyboard.matrixPrev
    engine := keyboard.engine.actionExec keymap (scan.edge position) }

def processRow (scan : Scan) (keyboard : Keyboard) (row : Fin matrixRows) : Keyboard :=
  let matrixChange := scan.matrix row ^^^ keyboard.matrixPrev row
  if matrixChange ≠ 0#16 then
    (List.finRange matrixCols).foldl (fun current col =>
      if matrixChange.getLsbD col.val then current.processEdge keymap scan (row, col)
      else current) keyboard
  else keyboard

/-- The loop over the rows of `keyboard_task`. -/
def processRows (keyboard : Keyboard) (scan : Scan) : Keyboard :=
  (List.finRange matrixRows).foldl (processRow keymap scan) keyboard

def keyboardTask (keyboard : Keyboard) (scan : Scan) : Keyboard :=
  let keyboard := keyboard.processRows keymap scan
  { keyboard with engine := keyboard.engine.actionExec keymap scan.tick }

/-- The columns of a row in which two matrices differ, and
all such positions in the order of the task. -/
def changedCols (prev matrix : MatrixRows) (row : Fin matrixRows) : List (Fin matrixCols) :=
  (List.finRange matrixCols).filter fun col => (matrix row ^^^ prev row).getLsbD col.val

def changes (prev matrix : MatrixRows) : List Position :=
  (List.finRange matrixRows).flatMap fun row => (changedCols prev matrix row).map (row, ·)

variable {keymap} {scan : Scan} {keyboard : Keyboard} {prev matrix : MatrixRows}
    {position : Position}

theorem mem_changes : position ∈ changes prev matrix ↔
    ¬ (position.PressedIn matrix ↔ position.PressedIn prev) := by
  obtain ⟨row, col⟩ := position
  simp only [changes, changedCols, List.mem_flatMap, List.mem_map, List.mem_filter,
    List.mem_finRange, true_and, Prod.mk.injEq, Position.PressedIn, BitVec.getLsbD_xor]
  constructor
  · intro given
    rcases given with ⟨_, _, differs, rfl, rfl⟩
    simpa using differs
  · intro differs
    exact ⟨row, col, by simpa using differs, rfl, rfl⟩

theorem changes_nodup : (changes prev matrix).Nodup := by
  rw [changes, List.nodup_flatMap]
  refine ⟨fun row _ => ?_, ?_⟩
  · exact ((List.nodup_finRange _).filter _).map fun _ _ same => (Prod.mk.inj same).2
  · refine (List.nodup_finRange _).imp ?_
    intro first second different position inFirst inSecond
    simp only [List.mem_map] at inFirst inSecond
    obtain ⟨_, _, rfl⟩ := inFirst
    obtain ⟨_, _, same⟩ := inSecond
    exact different (Prod.mk.inj same).1.symm

theorem changes_single (differ : ∀ other : Position,
    ¬ (other.PressedIn matrix ↔ other.PressedIn prev) ↔ other = position) :
    changes prev matrix = [position] := by
  have single : ∀ other, other ∈ changes prev matrix ↔ other ∈ [position] := by
    intro other
    rw [mem_changes, differ, List.mem_singleton]
  exact List.perm_singleton.mp ((List.perm_ext_iff_of_nodup changes_nodup (by simp)).mpr single)

theorem pressedIn_press {other : Position} : other.PressedIn (position.toggle (fun _ => 0)) ↔
    other = position := by
  have up : ¬ other.PressedIn (fun _ => 0) := by simp [Position.PressedIn]
  rw [Position.pressedIn_toggle]
  split <;> simp_all

theorem changes_press : changes (fun _ => 0) (position.toggle (fun _ => 0)) = [position] := by
  refine changes_single fun other => ?_
  rw [pressedIn_press]
  simp [Position.PressedIn]

theorem edge_pressed : (scan.edge position).pressed = true ↔ position.PressedIn scan.matrix := by
  simp only [Scan.edge, decide_eq_true_eq, Position.PressedIn]
  constructor
  · intro masked
    by_contra up
    have clear : (scan.matrix position.1).getLsbD position.2.val = false := by
      simpa only [Bool.not_eq_true] using up
    refine masked (BitVec.eq_of_getLsbD_eq fun index bound => ?_)
    rw [BitVec.getLsbD_and, Position.colMask_getLsbD, BitVec.getLsbD_zero]
    by_cases here : index = position.2.val
    · rw [here, clear, Bool.false_and]
    · rw [decide_eq_false here, Bool.and_false]
  · intro set masked
    have bit := congrArg (fun row => BitVec.getLsbD row position.2.val) masked
    rw [BitVec.getLsbD_and, Position.colMask_getLsbD, BitVec.getLsbD_zero, set] at bit
    simp at bit

theorem edge_real : (scan.edge position).isNoEvent = false :=
  position.keyPos_real _ (by
    intro zero
    have bit := congrArg (fun time => BitVec.getLsbD time 0) zero
    simp at bit)

theorem processRow_eq (row : Fin matrixRows) : keyboard.processRow keymap scan row =
    ((changedCols keyboard.matrixPrev scan.matrix row).map (row, ·)).foldl (processEdge keymap scan)
      keyboard := by
  unfold processRow changedCols
  dsimp only
  rw [List.foldl_map, List.foldl_filter]
  split
  · rfl
  · rename_i same
    have unchanged : scan.matrix row ^^^ keyboard.matrixPrev row = 0#16 := by simpa using same
    simp [unchanged]

theorem foldl_processEdge_matrixPrev {positions : List Position} {row : Fin matrixRows}
    (elsewhere : ∀ position ∈ positions, position.1 ≠ row) :
    (positions.foldl (processEdge keymap scan) keyboard).matrixPrev row =
    keyboard.matrixPrev row := by
  induction positions generalizing keyboard with
  | nil => rfl
  | cons position rest ih =>
      rw [List.foldl_cons, ih fun other member => elsewhere other (List.mem_cons_of_mem _ member)]
      exact Function.update_of_ne (elsewhere position (by simp)).symm _ _

theorem processRows_eq : keyboard.processRows keymap scan =
    (changes keyboard.matrixPrev scan.matrix).foldl (processEdge keymap scan) keyboard := by
  have loop : ∀ (rows : List (Fin matrixRows)) (current : Keyboard), rows.Nodup →
      (∀ row ∈ rows, current.matrixPrev row = keyboard.matrixPrev row) →
      rows.foldl (processRow keymap scan) current =
        (rows.flatMap fun row => (changedCols keyboard.matrixPrev scan.matrix row).map
          (row, ·)).foldl
          (processEdge keymap scan) current := by
    intro rows
    induction rows with
    | nil => intros; rfl
    | cons row rest ih =>
        intro current nodup same
        obtain ⟨fresh, nodup⟩ := List.nodup_cons.mp nodup
        have cols : changedCols current.matrixPrev scan.matrix row =
            changedCols keyboard.matrixPrev scan.matrix row := by
          simp only [changedCols, same row (by simp)]
        rw [List.foldl_cons, List.flatMap_cons, List.foldl_append, processRow_eq, cols]
        refine ih _ nodup fun other member => ?_
        rw [foldl_processEdge_matrixPrev, same other (List.mem_cons_of_mem _ member)]
        intro position inRow equal
        subst equal
        obtain ⟨_, _, rfl⟩ := List.mem_map.mp inRow
        exact fresh member
  exact loop _ keyboard (List.nodup_finRange _) fun _ _ => rfl

/-- The rule for a task: every edge is processed while its key still differs from the matrix of the
scan, and in the end no key does. -/
theorem processRows_invariant {inv : Keyboard → List Position → Prop}
    (step : ∀ current position rest, inv current (position :: rest) →
      ¬ (position.PressedIn scan.matrix ↔ position.PressedIn current.matrixPrev) →
      inv (current.processEdge keymap scan position) rest)
    (initial : inv keyboard (changes keyboard.matrixPrev scan.matrix)) :
    inv (keyboard.processRows keymap scan) [] ∧
    (keyboard.processRows keymap scan).matrixPrev = scan.matrix := by
  have loop : ∀ (todo : List Position) (current : Keyboard), todo.Nodup → inv current todo →
      (∀ position, position ∈ todo ↔
      ¬ (position.PressedIn scan.matrix ↔ position.PressedIn current.matrixPrev)) →
      inv (todo.foldl (processEdge keymap scan) current) [] ∧
        (todo.foldl (processEdge keymap scan) current).matrixPrev = scan.matrix := by
    intro todo
    induction todo with
    | nil =>
        intro current _ holds differs
        refine ⟨holds, funext fun row => BitVec.eq_of_getLsbD_eq fun col bound => ?_⟩
        have same := not_not.mp ((not_congr (differs (row, ⟨col, bound⟩))).mp (by simp))
        exact (Bool.eq_iff_iff.mpr same).symm
    | cons position rest ih =>
        intro current nodup holds differs
        obtain ⟨fresh, nodup⟩ := List.nodup_cons.mp nodup
        have changed := (differs position).mp (by simp)
        refine ih _ nodup (step current position rest holds changed) fun other => ?_
        have before := differs other
        simp only [processEdge, Position.pressedIn_toggle]
        by_cases here : other = position
        · subst here
          simp only [fresh, if_true, false_iff]
          tauto
        · rw [if_neg here, ← before, List.mem_cons, or_iff_right here]
  rw [processRows_eq]
  exact loop _ keyboard changes_nodup initial fun _ => mem_changes

theorem keyboardTask_matrixPrev : (keyboard.keyboardTask keymap scan).matrixPrev = scan.matrix :=
  (@processRows_invariant keymap scan keyboard (fun _ _ => True)
    (fun _ _ _ _ _ => trivial) trivial).2

end Keyboard

end BleKeyboard.Tmk
