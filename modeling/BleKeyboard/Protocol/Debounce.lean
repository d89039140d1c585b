import BleKeyboard.Protocol.Matrix
import Mathlib.Order.Bounds.Basic
import Mathlib.Data.Int.Order.Basic

namespace BleKeyboard.Protocol

open MatrixState

/-! What debouncing means over a whole sequence of readings.

The specification looks at windows of the reading history; the code keeps one
countdown for all rows.  `Tracks` relates the two after each scan. -/

/-- The state after `n` calls of `matrix_scan`, the `k`th of which reads `readings k`. -/
def afterScans (debounce : BitVec 8) (readings : Nat → MatrixRows) : Nat → MatrixState
  | 0 => (reset debounce).matrixInit
  | n + 1 => (afterScans debounce readings n).matrixScan debounce (readings (n + 1))

/-- The readings, extended by all-zero readings before the first scan. -/
def history (readings : Nat → MatrixRows) (index : Int) : MatrixRows :=
  if index ≤ 0 then fun _ => 0 else readings index.toNat

/-- The `width` readings up to and including `index` are identical. -/
def StableWindow (readings : Nat → MatrixRows) (width : Nat) (index : Int) : Prop :=
  ∀ back : Nat, back < width → history readings (index - back) = history readings index

variable {debounce : BitVec 8} {readings : Nat → MatrixRows} {n : Nat}

theorem history_succ (readings : Nat → MatrixRows) (n : Nat) :
    history readings (n + 1 : Int) = readings (n + 1) := by
  have positive : ¬ (n + 1 : Int) ≤ 0 := by omega
  simp only [history, positive, if_false]
  rfl

theorem history_of_nonpos {index : Int} (nonpositive : index ≤ 0) :
    history readings index = fun _ => 0 := by
  simp [history, nonpositive]

theorem StableWindow.narrow {width narrower : Nat} {index : Int}
    (stable : StableWindow readings width index)
    (le : narrower ≤ width) : StableWindow readings narrower index :=
  fun back within => stable back (by omega)

theorem StableWindow.extend {width : Nat} (stable : StableWindow readings width n)
    (repeated : history readings (n + 1 : Int) = history readings n) :
    StableWindow readings (width + 1) (n + 1 : Int) := by
  intro back within
  cases back with
  | zero => simp
  | succ back =>
      have shift : ((n : Int) + 1) - ((back + 1 : Nat) : Int) = n - back := by push_cast; omega
      rw [shift, stable back (by omega), repeated]

theorem stableWindow_one (index : Int) : StableWindow readings 1 index := by
  intro back within
  obtain rfl : back = 0 := by omega
  simp

/-- The countdown and the published matrix, related to the history after scan `n`.  While the
countdown runs, either nothing was ever read as pressed or the reading before the window differs. -/
structure Tracks (debounce : BitVec 8) (readings : Nat → MatrixRows) (n : Nat)
    (state : MatrixState) : Prop where
  latest : state.matrixDebouncing = history readings n
  bounded : state.debouncing ≤ debounce
  window : StableWindow readings (debounce.toNat - state.debouncing.toNat) n
  broken : state.debouncing ≠ 0#8 →
    (∀ index : Int, index ≤ n → history readings index = fun _ => 0) ∨
      state.debouncing < debounce ∧
        history readings (n - ((debounce.toNat - state.debouncing.toNat : Nat) : Int)) ≠
        history readings n
  committed : ∀ index : Int,
    IsGreatest {index : Int | index ≤ n ∧ StableWindow readings debounce.toNat index} index →
    state.matrix = history readings index

theorem isGreatest_now (stable : StableWindow readings debounce.toNat n) :
    IsGreatest {index : Int | index ≤ n ∧ StableWindow readings debounce.toNat index} n :=
  ⟨⟨le_refl _, stable⟩, fun _ member => member.1⟩

theorem isGreatest_before {index : Int}
    (unstable : ¬ StableWindow readings debounce.toNat (n + 1 : Int)) (greatest : IsGreatest
      {index : Int | index ≤ (n + 1 : Nat) ∧ StableWindow readings debounce.toNat index} index) :
    IsGreatest {index : Int | index ≤ n ∧ StableWindow readings debounce.toNat index} index := by
  obtain ⟨⟨bound, stable⟩, upper⟩ := greatest
  have notLast : index ≠ (n + 1 : Int) := by
    intro same
    exact unstable (same ▸ stable)
  refine ⟨⟨by push_cast at bound; omega, stable⟩, ?_⟩
  intro other given
  rcases given with ⟨otherBound, otherStable⟩
  exact upper ⟨by push_cast; omega, otherStable⟩

theorem allZero_stable {width : Nat}
    (zero : ∀ index : Int, index ≤ n → history readings index = fun _ => 0) :
    StableWindow readings width n := by
  intro back within
  rw [zero n (le_refl _), zero _ (by omega)]

theorem Tracks.matrix_zero {state : MatrixState} (tracks : Tracks debounce readings n state)
    (zero : ∀ index : Int, index ≤ n → history readings index = fun _ => 0) :
      state.matrix = fun _ => 0 := by
  rw [tracks.committed n (isGreatest_now (allZero_stable zero)), zero n (le_refl _)]

theorem tracks_reset (debounce : BitVec 8) (readings : Nat → MatrixRows) :
    Tracks debounce readings 0 (reset debounce).matrixInit where
  latest := (history_of_nonpos (le_refl _)).symm
  bounded := BitVec.le_refl _
  window := by simp [reset, matrixInit, StableWindow]
  broken := fun _ => .inl fun index bound => history_of_nonpos bound
  committed := fun index greatest => (history_of_nonpos greatest.1.1).symm

/-- The scan that reads a changed matrix: every window but the shortest is broken. -/
theorem Tracks.scan_changed {state : MatrixState} (tracks : Tracks debounce readings n state)
    (positive : debounce ≠ 0#8) (changed : history readings (n + 1 : Int) ≠ history readings n) :
    Tracks debounce readings (n + 1) (state.matrixScan debounce (readings (n + 1))) := by
  have count : state.restarted debounce (readings (n + 1)) = debounce := by
    rw [restarted, if_neg]
    rw [tracks.latest, ← history_succ readings n]
    exact fun same => changed same.symm
  have width : debounce.toNat - (debounce - 1#8).toNat = 1 := by bv_omega
  have before : ((n : Int) + 1) - 1 = n := by omega
  rw [matrixScan_eq, count]
  refine ⟨(history_succ readings n).symm, ?_, ?_, ?_, ?_⟩
  · simp only [positive, if_false]
    bv_omega
  · simp only [positive, if_false, width]
    exact stableWindow_one _
  · intro running
    simp only [positive, if_false, width] at running ⊢
    refine .inr ⟨by bv_omega, ?_⟩
    push_cast
    rw [before]
    exact fun same => changed same.symm
  · intro index greatest
    by_cases one : debounce = 1#8
    · have now : StableWindow readings debounce.toNat ((n + 1 : Nat) : Int) := by
        subst one
        exact stableWindow_one _
      rw [greatest.unique (isGreatest_now now)]
      simp only [one, if_true]
      exact (history_succ readings n).symm
    · have unstable : ¬ StableWindow readings debounce.toNat (n + 1 : Int) := by
        intro stable
        have previous := stable 1 (by bv_omega)
        push_cast at previous
        rw [before] at previous
        exact changed previous.symm
      simp only [one, if_false]
      exact tracks.committed index (isGreatest_before unstable greatest)

/-- The scan that repeats the last reading: the window grows
by one and the countdown drops by one. -/
theorem Tracks.scan_repeated {state : MatrixState} (tracks : Tracks debounce readings n state)
    (repeated : history readings (n + 1 : Int) = history readings n) :
    Tracks debounce readings (n + 1) (state.matrixScan debounce (readings (n + 1))) := by
  have count : state.restarted debounce (readings (n + 1)) = state.debouncing := by
    rw [restarted, if_pos]
    rw [tracks.latest, ← history_succ readings n, repeated]
  have grown := tracks.window.extend repeated
  have bounded := tracks.bounded
  rw [matrixScan_eq, count]
  by_cases idle : state.debouncing = 0#8
  · simp only [idle, if_true]
    have now : StableWindow readings debounce.toNat ((n + 1 : Nat) : Int) :=
      grown.narrow (by simp [idle])
    refine ⟨(history_succ readings n).symm,
      by bv_omega, now.narrow (by omega), fun running => absurd rfl running, ?_⟩
    intro index greatest
    rw [greatest.unique (isGreatest_now now)]
    have earlier := tracks.committed n (isGreatest_now (tracks.window.narrow (by simp [idle])))
    simp only [show ¬ (0#8 = 1#8) by decide, if_false]
    rw [earlier]
    exact repeated.symm
  · have width : debounce.toNat - (state.debouncing - 1#8).toNat =
        debounce.toNat - state.debouncing.toNat + 1 := by
      bv_omega
    simp only [idle, if_false]
    refine ⟨(history_succ readings n).symm, by bv_omega, by rw [width]; exact grown, ?_, ?_⟩
    · intro running
      rcases tracks.broken idle with zero | ⟨below, differs⟩
      · left
        intro index bound
        by_cases last : index = (n + 1 : Int)
        · rw [last, repeated, zero n (le_refl _)]
        · exact zero index (by push_cast at bound; omega)
      · right
        refine ⟨by bv_omega, ?_⟩
        have shift : ((n + 1 : Nat) : Int) -
            ((debounce.toNat - (state.debouncing - 1#8).toNat : Nat) : Int) =
            n - ((debounce.toNat - state.debouncing.toNat : Nat) : Int) := by
          rw [width]; push_cast; omega
        rw [shift]
        push_cast
        rw [repeated]
        exact differs
    · intro index greatest
      by_cases one : state.debouncing = 1#8
      · have now : StableWindow readings debounce.toNat ((n + 1 : Nat) : Int) :=
          grown.narrow (by bv_omega)
        rw [greatest.unique (isGreatest_now now)]
        simp only [one, if_true]
        exact (history_succ readings n).symm
      · simp only [one, if_false]
        rcases tracks.broken idle with zero | ⟨below, differs⟩
        · rw [tracks.matrix_zero zero]
          by_cases last : index = (n + 1 : Int)
          · rw [last, repeated, zero n (le_refl _)]
          · have bound := greatest.1.1
            rw [zero index (by push_cast at bound; omega)]
        · have unstable : ¬ StableWindow readings debounce.toNat (n + 1 : Int) := by
            intro stable
            have far := stable (debounce.toNat - state.debouncing.toNat + 1) (by bv_omega)
            have shift :
                ((n : Int) + 1) - ((debounce.toNat - state.debouncing.toNat + 1 : Nat) : Int) =
                n - ((debounce.toNat - state.debouncing.toNat : Nat) : Int) := by
              push_cast; omega
            rw [shift, repeated] at far
            exact differs far
          exact tracks.committed index (isGreatest_before unstable greatest)

theorem tracks_afterScans (positive : debounce ≠ 0#8) (readings : Nat → MatrixRows) (n : Nat) :
    Tracks debounce readings n (afterScans debounce readings n) := by
  induction n with
  | zero => exact tracks_reset debounce readings
  | succ n ih =>
      by_cases repeated : history readings (n + 1 : Int) = history readings n
      · exact ih.scan_repeated repeated
      · exact ih.scan_changed positive repeated

theorem exists_lastStable (readings : Nat → MatrixRows) (width n : Nat) :
    ∃ index : Int,
      IsGreatest {index : Int | index ≤ n ∧ StableWindow readings width index} index := by
  induction n with
  | zero =>
      refine ⟨0, ⟨by simp, ?_⟩, fun _ member => member.1⟩
      intro back within
      rw [history_of_nonpos (by omega), history_of_nonpos (le_refl _)]
  | succ n ih =>
      by_cases now : StableWindow readings width ((n + 1 : Nat) : Int)
      · exact ⟨(n + 1 : Nat), ⟨le_refl _, now⟩, fun _ member => member.1⟩
      · obtain ⟨index, ⟨bound, stable⟩, upper⟩ := ih
        refine ⟨index, ⟨by push_cast; omega, stable⟩, ?_⟩
        intro other given
        rcases given with ⟨otherBound, otherStable⟩
        have notLast : other ≠ ((n + 1 : Nat) : Int) := by
          intro same
          exact now (same ▸ otherStable)
        exact upper ⟨by push_cast at *; omega, otherStable⟩

/-- The matrix published after scan `n` is the reading that ends the latest stable window, or all
zero when no reading does; so what is published was always stable in every row. -/
theorem matrixScan_publishes_last_stable (debounce : BitVec 8) (positive : debounce ≠ 0#8)
    (readings : Nat → MatrixRows) (n : Nat) :
    (∀ index : Int,
      IsGreatest {index : Int | index ≤ n ∧ StableWindow readings debounce.toNat index} index →
        (afterScans debounce readings n).matrixGetRow = history readings index) ∧
      ((∀ index : Int, 1 ≤ index → index ≤ n → ¬ StableWindow readings debounce.toNat index) →
        (afterScans debounce readings n).matrixGetRow = fun _ => 0) ∧
      ∃ index : Int, index ≤ n ∧ StableWindow readings debounce.toNat index ∧
        (afterScans debounce readings n).matrixGetRow = history readings index := by
  have tracks := tracks_afterScans positive readings n
  obtain ⟨last, greatest⟩ := exists_lastStable readings debounce.toNat n
  have shown : (afterScans debounce readings n).matrixGetRow = history readings last :=
    tracks.committed last greatest
  refine ⟨tracks.committed, ?_, last, greatest.1.1, greatest.1.2, shown⟩
  intro never
  rw [shown]
  apply history_of_nonpos
  by_contra late
  exact never last (by omega) greatest.1.1 greatest.1.2

theorem matrixScan_publishes_last_stable_shipped : 1#8 ≠ 0#8 ∧
    ∃ index : Int, index ≤ (3 : Nat) ∧ StableWindow (fun _ _ => 1#16) (1#8).toNat index ∧
      (afterScans 1#8 (fun _ _ => 1#16) 3).matrixGetRow = history (fun _ _ => 1#16) index :=
  ⟨by decide, (matrixScan_publishes_last_stable 1#8 (by decide) (fun _ _ => 1#16) 3).2.2⟩

theorem afterScans_zero (readings : Nat → MatrixRows) (n : Nat) :
    (afterScans 0#8 readings n).debouncing = 0#8 ∧
    (afterScans 0#8 readings n).matrix = fun _ => 0 := by
  induction n with
  | zero => exact ⟨rfl, rfl⟩
  | succ n ih =>
      have count : (afterScans 0#8 readings n).restarted 0#8 (readings (n + 1)) = 0#8 := by
        rw [restarted, ih.1, ite_self]
      rw [afterScans, matrixScan_eq, count]
      exact ⟨rfl, by simpa using ih.2⟩

/-- With `DEBOUNCE` 0 every scan publishes its reading
exactly when no switch is ever read as pressed. -/
theorem matrixScan_zero_publishes_iff (readings : Nat → MatrixRows) :
    (∀ n, 1 ≤ n → (afterScans 0#8 readings n).matrixGetRow = readings n) ↔
      ∀ n, 1 ≤ n → readings n = fun _ => 0 := by
  constructor
  · intro immediate n first
    rw [← immediate n first]
    exact (afterScans_zero readings n).2
  · intro silent n first
    rw [silent n first]
    exact (afterScans_zero readings n).2

theorem matrixScan_zero_hides_press :
    ¬ ∀ (readings : Nat → MatrixRows) (n : Nat), 1 ≤ n →
    (afterScans 0#8 readings n).matrixGetRow = readings n := by
  intro immediate
  have shown := immediate (fun _ _ => 1#16) 1 (le_refl _)
  have hidden := (afterScans_zero (fun _ _ => 1#16) 1).2
  exact absurd ((congrFun hidden 0).symm.trans (congrFun shown 0)) (by decide)

end BleKeyboard.Protocol
