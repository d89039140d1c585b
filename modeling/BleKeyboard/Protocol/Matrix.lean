import Mathlib.Data.Fintype.Basic
import Mathlib.Data.List.FinRange
import Mathlib.Tactic.Common

namespace BleKeyboard.Protocol

abbrev matrixRows : Nat := 6

abbrev matrixCols : Nat := 16

abbrev MatrixRow := BitVec matrixCols

/-- One row vector for the whole matrix: a raw reading, or
the matrix published to the keyboard task. -/
abbrev MatrixRows := Fin matrixRows → MatrixRow

structure MatrixState where
  debouncing : BitVec 8
  matrix : MatrixRows
  matrixDebouncing : MatrixRows

namespace MatrixState

def reset (debounce : BitVec 8) : MatrixState :=
  { debouncing := debounce, matrix := fun _ => 0, matrixDebouncing := fun _ => 0 }

/-- `matrix_init` clears both matrices and leaves the countdown as it is. -/
def matrixInit (state : MatrixState) : MatrixState :=
  { state with matrix := fun _ => 0, matrixDebouncing := fun _ => 0 }

/-- The body of the scan loop for one row, whose columns read `cols`. -/
def scanRow (debounce : BitVec 8) (cols : MatrixRow) (state : MatrixState) (row : Fin matrixRows) :
    MatrixState :=
  if state.matrixDebouncing row ≠ cols then
    { state with
      matrixDebouncing := Function.update state.matrixDebouncing row cols
      debouncing := debounce }
  else state

def scanRows (debounce : BitVec 8) (raw : MatrixRows) (state : MatrixState) : MatrixState :=
  (List.finRange matrixRows).foldl (fun current row => current.scanRow debounce (raw row) row) state

/-- The countdown at the end of `matrix_scan`: it publishes when it reaches zero. -/
def countdown (state : MatrixState) : MatrixState :=
  if state.debouncing ≠ 0#8 then
    let debouncing := state.debouncing - 1#8
    if debouncing ≠ 0#8 then { state with debouncing }
    else { state with debouncing, matrix := state.matrixDebouncing }
  else state

/-- The milliseconds `matrix_scan` spends in `wait_ms` on its countdown. -/
def countdownWait (state : MatrixState) : Nat :=
  if state.debouncing ≠ 0#8 ∧ state.debouncing - 1#8 ≠ 0#8 then 1 else 0

def matrixScan (debounce : BitVec 8) (state : MatrixState) (raw : MatrixRows) : MatrixState :=
  (state.scanRows debounce raw).countdown

def matrixGetRow (state : MatrixState) (row : Fin matrixRows) : MatrixRow :=
  state.matrix row

variable {debounce : BitVec 8} {raw : MatrixRows} {state : MatrixState}

theorem foldl_scanRow (rows : List (Fin matrixRows)) :
    (rows.foldl (fun current row => current.scanRow debounce (raw row) row) state) =
      { matrix := state.matrix
        matrixDebouncing := fun row => if row ∈ rows then raw row else state.matrixDebouncing row
        debouncing :=
          if ∀ row ∈ rows, state.matrixDebouncing row = raw row then state.debouncing
          else debounce } := by
  induction rows generalizing state with
  | nil => simp
  | cons row rest ih =>
      rw [List.foldl_cons, ih]
      by_cases same : state.matrixDebouncing row = raw row
      · have unchanged : state.scanRow debounce (raw row) row = state := by simp [scanRow, same]
        rw [unchanged]
        simp only [List.mem_cons, forall_eq_or_imp, same, true_and]
        congr 1
        funext other
        by_cases here : other = row
        · subst other; simp [same]
        · simp [here]
      · simp only [scanRow, ne_eq, same, not_false_eq_true, if_true, List.mem_cons,
          forall_eq_or_imp, false_and, if_false, ite_self]
        congr 1
        funext other
        by_cases here : other = row
        · subst other; simp
        · simp [here]

/-- The countdown that `matrix_scan` decrements: restarted
when any row differs from the last reading. -/
def restarted (debounce : BitVec 8) (state : MatrixState) (raw : MatrixRows) : BitVec 8 :=
  if state.matrixDebouncing = raw then state.debouncing else debounce

theorem scanRows_eq : state.scanRows debounce raw =
    { matrix := state.matrix, matrixDebouncing := raw,
      debouncing := state.restarted debounce raw } := by
  have every : (∀ row ∈ List.finRange matrixRows, state.matrixDebouncing row = raw row) ↔
      state.matrixDebouncing = raw := by
    simp [funext_iff]
  simp only [scanRows, foldl_scanRow, every]
  simp only [List.mem_finRange, if_true, restarted]

theorem matrixScan_eq : state.matrixScan debounce raw =
    { matrixDebouncing := raw
      debouncing :=
        if state.restarted debounce raw = 0#8 then 0#8
        else state.restarted debounce raw - 1#8
      matrix := if state.restarted debounce raw = 1#8 then raw else state.matrix } := by
  simp only [matrixScan, scanRows_eq, countdown]
  generalize state.restarted debounce raw = count
  by_cases zero : count = 0#8
  · simp [zero]
  · have last : count - 1#8 = 0#8 ↔ count = 1#8 := by bv_omega
    by_cases one : count = 1#8 <;> simp [zero, one, last]

end MatrixState

end BleKeyboard.Protocol
