import Mathlib.Algebra.Order.Ring.Nat
import Mathlib.Tactic.Common

namespace BleKeyboard.Protocol

inductive RtcFrequency where
  | hz32768 | hz16384 | hz8192 | hz4096 | hz2048 | hz1024
deriving DecidableEq, Repr

def RtcFrequency.config : RtcFrequency → BitVec 32
  | .hz32768 => 0
  | .hz16384 => 1
  | .hz8192 => 3
  | .hz4096 => 7
  | .hz2048 => 15
  | .hz1024 => 31

def appTimerConfigRtcFrequency : RtcFrequency := .hz16384

def tickPerMillisecond (frequency : RtcFrequency) : BitVec 32 :=
  32768#32 / (frequency.config + 1#32) / 1000#32

/-- `app_timer_cnt_diff_compute`: the difference of two counts of the 24-bit counter. -/
def appTimerCntDiffCompute (ticksTo ticksFrom : BitVec 32) : BitVec 32 :=
  (ticksTo - ticksFrom) &&& 0xFFFFFF#32

variable (frequency : RtcFrequency)

/-- `timer_read32` when `app_timer_cnt_get` returns `count`. -/
def timerRead32 (count : BitVec 32) : BitVec 32 :=
  count / tickPerMillisecond frequency

def timerRead (count : BitVec 32) : BitVec 16 :=
  (timerRead32 frequency count % 0xFFFF#32).setWidth 16

def timerDiff16 (a b : BitVec 16) : BitVec 16 := a - b

def timerElapsed (count : BitVec 32) (last : BitVec 16) : BitVec 16 :=
  timerDiff16 (timerRead frequency count) last

def timerElapsed32 (count last : BitVec 32) : BitVec 32 :=
  appTimerCntDiffCompute count (last * tickPerMillisecond frequency) / tickPerMillisecond frequency

/-- The timestamp a key event gets: never the value 0 that marks the absence of an event. -/
def eventTime (count : BitVec 32) : BitVec 16 :=
  timerRead frequency count ||| 1#16

def counterAt (ticks : Nat) : BitVec 32 :=
  BitVec.ofNat 32 (ticks % 2 ^ 24)

/-- Milliseconds between the reading at `start` and `elapsed`
ticks later, the first one as truncated by the clock. -/
def elapsedMilliseconds (start elapsed : Nat) : Nat :=
  (start % (tickPerMillisecond frequency).toNat + elapsed) / (tickPerMillisecond frequency).toNat

/-- Which block of 65535 milliseconds of its own cycle a count falls into. -/
def readingBlock (count : BitVec 32) : Nat :=
  count.toNat / (tickPerMillisecond frequency).toNat / 65535

def readingParity (count : BitVec 32) : Nat :=
  count.toNat / (tickPerMillisecond frequency).toNat % 2

@[simp] theorem counterAt_toNat (ticks : Nat) : (counterAt ticks).toNat = ticks % 2 ^ 24 := by
  simp only [counterAt, BitVec.toNat_ofNat]
  omega

theorem tickPerMillisecond_toNat : (tickPerMillisecond frequency).toNat ∈ [1, 2, 4, 8, 16, 32] := by
  cases frequency <;> decide

theorem timerRead32_toNat (count : BitVec 32) :
    (timerRead32 frequency count).toNat = count.toNat / (tickPerMillisecond frequency).toNat := by
  simp [timerRead32]

theorem timerRead_toNat (count : BitVec 32) :
    (timerRead frequency count).toNat =
    count.toNat / (tickPerMillisecond frequency).toNat % 65535 := by
  have modulus : (0xFFFF#32).toNat = 65535 := by decide
  simp only [timerRead, BitVec.toNat_setWidth, BitVec.toNat_umod, timerRead32_toNat, modulus]
  omega

theorem timerDiff16_toNat (a b : BitVec 16) :
    (timerDiff16 a b).toNat = (a.toNat + 65536 - b.toNat) % 65536 := by
  simp only [timerDiff16]
  bv_omega

theorem appTimerCntDiffCompute_toNat (ticksTo ticksFrom : BitVec 32) :
    (appTimerCntDiffCompute ticksTo ticksFrom).toNat =
    (ticksTo.toNat + 2 ^ 32 - ticksFrom.toNat) % 2 ^ 24 := by
  have mask : (0xFFFFFF#32).toNat = 2 ^ 24 - 1 := by decide
  simp only [appTimerCntDiffCompute, BitVec.toNat_and, mask, Nat.and_two_pow_sub_one_eq_mod]
  bv_omega

theorem timerRead32_mul_toNat (count : BitVec 32) (counter : count.toNat < 2 ^ 24) :
    (timerRead32 frequency count * tickPerMillisecond frequency).toNat =
      count.toNat - count.toNat % (tickPerMillisecond frequency).toNat := by
  have whole := Nat.div_add_mod count.toNat (tickPerMillisecond frequency).toNat
  rw [Nat.mul_comm] at whole
  rw [BitVec.toNat_mul, timerRead32_toNat]
  omega

theorem timerElapsed32_exact {start elapsed : Nat} (counter : start < 2 ^ 24)
    (within : start % (tickPerMillisecond frequency).toNat + elapsed < 2 ^ 24) :
    (timerElapsed32 frequency (counterAt (start + elapsed))
      (timerRead32 frequency (counterAt start))).toNat =
      elapsedMilliseconds frequency start elapsed := by
  have started : (counterAt start).toNat = start := by
    rw [counterAt_toNat, Nat.mod_eq_of_lt counter]
  have last := timerRead32_mul_toNat frequency (counterAt start) (by rw [started]; exact counter)
  have remainder := Nat.mod_le start (tickPerMillisecond frequency).toNat
  rw [started] at last
  simp only [timerElapsed32, BitVec.toNat_udiv, appTimerCntDiffCompute_toNat, last, counterAt_toNat,
    elapsedMilliseconds]
  congr 1
  omega

theorem tickPerMillisecond_divides :
    (tickPerMillisecond frequency).toNat ∣ 2 ^ 24 ∧ 0 < (tickPerMillisecond frequency).toNat := by
  cases frequency <;> decide

theorem timerRead32_mul_fits (count : BitVec 32) :
    (timerRead32 frequency count).toNat * (tickPerMillisecond frequency).toNat < 2 ^ 32 := by
  rw [timerRead32_toNat]
  exact Nat.lt_of_le_of_lt (Nat.div_mul_le_self _ _) count.isLt

theorem elapsedMilliseconds_mono (start : Nat) {earlier later : Nat} (le : earlier ≤ later) :
    elapsedMilliseconds frequency start earlier ≤ elapsedMilliseconds frequency start later :=
  Nat.div_le_div_right (Nat.add_le_add_left le _)

theorem elapsedMilliseconds_near (start elapsed : Nat) :
    elapsed < (elapsedMilliseconds frequency start elapsed + 1) *
    (tickPerMillisecond frequency).toNat ∧
      elapsedMilliseconds frequency start elapsed * (tickPerMillisecond frequency).toNat <
        elapsed + (tickPerMillisecond frequency).toNat := by
  obtain ⟨_, positive⟩ := tickPerMillisecond_divides frequency
  have remainder := Nat.mod_lt start positive
  have below := Nat.div_mul_le_self (start % (tickPerMillisecond frequency).toNat + elapsed)
    (tickPerMillisecond frequency).toNat
  have above := Nat.lt_mul_of_div_lt
    (Nat.lt_succ_self ((start % (tickPerMillisecond frequency).toNat + elapsed) /
      (tickPerMillisecond frequency).toNat))
    positive
  simp only [elapsedMilliseconds, Nat.succ_eq_add_one, Nat.mul_comm] at below above ⊢
  omega

/-- The 32-bit elapsed time across the wrap of the counter: the whole milliseconds since the start
of the millisecond in which the first reading was taken. -/
theorem timerElapsed32_floor {start elapsed : Nat} (counter : start < 2 ^ 24)
    (within : start % (tickPerMillisecond frequency).toNat + elapsed < 2 ^ 24) :
    ((tickPerMillisecond frequency).toNat ∣ 2 ^ 24 ∧ 0 < (tickPerMillisecond frequency).toNat) ∧
    (timerRead32 frequency (counterAt start)).toNat * (tickPerMillisecond frequency).toNat <
    2 ^ 32 ∧
    (timerElapsed32 frequency (counterAt (start + elapsed))
      (timerRead32 frequency (counterAt start))).toNat =
      (start % (tickPerMillisecond frequency).toNat + elapsed) /
      (tickPerMillisecond frequency).toNat ∧
    (∀ earlier, earlier ≤ elapsed →
      timerElapsed32 frequency (counterAt (start + earlier))
        (timerRead32 frequency (counterAt start)) ≤
        timerElapsed32 frequency (counterAt (start + elapsed))
          (timerRead32 frequency (counterAt start))) ∧
    elapsed <
      ((timerElapsed32 frequency (counterAt (start + elapsed))
        (timerRead32 frequency (counterAt start))).toNat + 1) *
        (tickPerMillisecond frequency).toNat ∧
    (timerElapsed32 frequency (counterAt (start + elapsed))
      (timerRead32 frequency (counterAt start))).toNat *
      (tickPerMillisecond frequency).toNat < elapsed + (tickPerMillisecond frequency).toNat := by
  have exact32 := timerElapsed32_exact frequency counter within
  obtain ⟨above, below⟩ := elapsedMilliseconds_near frequency start elapsed
  refine ⟨tickPerMillisecond_divides frequency, timerRead32_mul_fits frequency _,
    exact32, ?_, ?_, ?_⟩
  · intro earlier le
    have earlier32 :=
      timerElapsed32_exact frequency counter (Nat.lt_of_le_of_lt (Nat.add_le_add_left le _) within)
    rw [BitVec.le_def, earlier32, exact32]
    exact elapsedMilliseconds_mono frequency start le
  · rwa [exact32]
  · rwa [exact32]

/-- A quarter of a millisecond before the wrap, read 1000.5 milliseconds later. -/
theorem timerElapsed32_floor_wrapping :
    (timerElapsed32 appTimerConfigRtcFrequency (counterAt (2 ^ 24 - 4 + 16008))
      (timerRead32 appTimerConfigRtcFrequency (counterAt (2 ^ 24 - 4)))).toNat = 1001 :=
  (timerElapsed32_floor appTimerConfigRtcFrequency (by decide) (by decide)).2.2.1.trans (by decide)

theorem block_difference {first second elapsed cycles : Nat} (firstBound : first < 2 ^ 24)
    (secondBound : second < 2 ^ 24)
    (short : elapsed < 65536) (later : second + 65536 * cycles = first + elapsed) :
    (second % 65535 + 65536 - first % 65535) % 65536 = elapsed ↔
    first / 65535 = second / 65535 := by
  omega

/-- The millisecond reading after `elapsed` ticks.  A cycle of the
counter is at least eight times 65536 milliseconds. -/
theorem counterAt_milliseconds {start : Nat} (elapsed : Nat) (counter : start < 2 ^ 24) :
    ∃ cycles, (cycles = 0 ∨ 8 ≤ cycles) ∧
      (counterAt (start + elapsed)).toNat / (tickPerMillisecond frequency).toNat + 65536 * cycles =
        (counterAt start).toNat / (tickPerMillisecond frequency).toNat + elapsedMilliseconds
          frequency start elapsed := by
  simp only [counterAt_toNat, elapsedMilliseconds, Nat.mod_eq_of_lt counter]
  have settings := tickPerMillisecond_toNat frequency
  generalize (tickPerMillisecond frequency).toNat = ticks at settings
  simp only [List.mem_cons, List.not_mem_nil, or_false] at settings
  refine ⟨(start + elapsed) / 2 ^ 24 * (256 / ticks), ?_, ?_⟩ <;>
    rcases settings with rfl | rfl | rfl | rfl | rfl | rfl <;> omega

theorem readings_bounded (count : BitVec 32) (counter : count.toNat < 2 ^ 24) :
    count.toNat / (tickPerMillisecond frequency).toNat < 2 ^ 24 :=
  Nat.lt_of_le_of_lt (Nat.div_le_self _ _) counter

theorem eventTime_toNat (count : BitVec 32) :
    (eventTime frequency count).toNat = 2 * ((timerRead frequency count).toNat / 2) + 1 := by
  have low : (1#16).toNat = 1 := by decide
  rw [eventTime, BitVec.toNat_or, low]
  have half :
      ((timerRead frequency count).toNat ||| 1) / 2 = (timerRead frequency count).toNat / 2 := by
    simp [Nat.or_div_two]
  have odd : ((timerRead frequency count).toNat ||| 1) % 2 = 1 := by
    simp [Nat.or_mod_two_eq_one]
  omega

theorem short_within {start elapsed : Nat}
    (short : elapsedMilliseconds frequency start elapsed < 65536) :
    start % (tickPerMillisecond frequency).toNat + elapsed < 2 ^ 24 := by
  simp only [elapsedMilliseconds] at short
  have settings := tickPerMillisecond_toNat frequency
  generalize (tickPerMillisecond frequency).toNat = ticks at settings short ⊢
  simp only [List.mem_cons, List.not_mem_nil, or_false] at settings
  rcases settings with rfl | rfl | rfl | rfl | rfl | rfl <;> omega

theorem timerElapsed_eq_iff {start elapsed : Nat} (counter : start < 2 ^ 24)
    (short : elapsedMilliseconds frequency start elapsed < 65536) :
    (timerElapsed frequency (counterAt (start + elapsed))
      (timerRead frequency (counterAt start))).toNat =
        elapsedMilliseconds frequency start elapsed ↔
      readingBlock frequency (counterAt start) =
        readingBlock frequency (counterAt (start + elapsed)) := by
  obtain ⟨cycles, _, later⟩ := counterAt_milliseconds frequency elapsed counter
  have firstBound := readings_bounded frequency (counterAt start) (by rw [counterAt_toNat]; omega)
  have secondBound :=
    readings_bounded frequency (counterAt (start + elapsed)) (by rw [counterAt_toNat]; omega)
  rw [timerElapsed, timerDiff16_toNat, timerRead_toNat, timerRead_toNat]
  exact block_difference firstBound secondBound short later

theorem odd_difference {first second elapsed : Nat} (firstBound : first < 65535)
    (secondBound : second < 65535) (difference : (second + 65536 - first) % 65536 = elapsed) :
    (2 * (second / 2) + 1 + 65536 - (2 * (first / 2) + 1)) % 65536 = elapsed ↔
    first % 2 = second % 2 := by
  omega

theorem parity_in_block {first second : Nat} (block : first / 65535 = second / 65535) :
    first % 65535 % 2 = second % 65535 % 2 ↔ first % 2 = second % 2 := by
  omega

theorem eventTime_difference_iff {start elapsed : Nat} (counter : start < 2 ^ 24)
    (short : elapsedMilliseconds frequency start elapsed < 65536)
    (block : readingBlock frequency (counterAt start) =
      readingBlock frequency (counterAt (start + elapsed))) :
    (timerDiff16 (eventTime frequency (counterAt (start + elapsed)))
        (eventTime frequency (counterAt start))).toNat =
        elapsedMilliseconds frequency start elapsed ↔
      readingParity frequency (counterAt start) =
        readingParity frequency (counterAt (start + elapsed)) := by
  have right := (timerElapsed_eq_iff frequency counter short).mpr block
  have parity := parity_in_block block
  rw [timerElapsed, timerDiff16_toNat, timerRead_toNat, timerRead_toNat] at right
  rw [timerDiff16_toNat, eventTime_toNat, eventTime_toNat, timerRead_toNat, timerRead_toNat,
    odd_difference (Nat.mod_lt _ (by decide)) (Nat.mod_lt _ (by decide)) right]
  exact parity

/-- The 16-bit elapsed time and the difference of two timestamps are both right exactly when the two
readings fall into one block of 65535 milliseconds of one cycle of the counter and have the same
parity; the block alone decides for the elapsed time.  The 32-bit elapsed time is always right. -/
theorem timerElapsed_right_iff (start elapsed : Nat) (counter : start < 2 ^ 24)
    (short : elapsedMilliseconds frequency start elapsed < 65536) :
    (((timerElapsed frequency (counterAt (start + elapsed))
      (timerRead frequency (counterAt start))).toNat =
          elapsedMilliseconds frequency start elapsed ∧
        (timerElapsed frequency (counterAt (start + elapsed))
          (timerRead frequency (counterAt start))).toNat =
          (timerElapsed32 frequency (counterAt (start + elapsed))
            (timerRead32 frequency (counterAt start))).toNat ∧
        (timerDiff16 (eventTime frequency (counterAt (start + elapsed)))
          (eventTime frequency (counterAt start))).toNat =
          elapsedMilliseconds frequency start elapsed) ↔
      readingBlock frequency (counterAt start) =
        readingBlock frequency (counterAt (start + elapsed)) ∧
        readingParity frequency (counterAt start) =
        readingParity frequency (counterAt (start + elapsed))) ∧
    ((timerElapsed frequency (counterAt (start + elapsed))
        (timerRead frequency (counterAt start))).toNat =
        elapsedMilliseconds frequency start elapsed ↔
      readingBlock frequency (counterAt start) =
        readingBlock frequency (counterAt (start + elapsed))) ∧
    (timerElapsed32 frequency (counterAt (start + elapsed))
      (timerRead32 frequency (counterAt start))).toNat =
      elapsedMilliseconds frequency start elapsed := by
  have exact32 := timerElapsed32_exact frequency counter (short_within frequency short)
  have blocks := timerElapsed_eq_iff frequency counter short
  refine ⟨?_, blocks, exact32⟩
  rw [exact32]
  constructor
  · intro right
    have block := blocks.mp right.1
    exact ⟨block, (eventTime_difference_iff frequency counter short block).mp right.2.2⟩
  · intro same
    have elapsed16 := blocks.mpr same.1
    exact ⟨elapsed16, elapsed16,
      (eventTime_difference_iff frequency counter short same.1).mpr same.2⟩

theorem timerElapsed_right_iff_one_second :
    (timerElapsed appTimerConfigRtcFrequency (counterAt (0 + 16000))
        (timerRead appTimerConfigRtcFrequency (counterAt 0))).toNat =
      elapsedMilliseconds appTimerConfigRtcFrequency 0 16000 ∧
    (timerElapsed appTimerConfigRtcFrequency (counterAt (0 + 16000))
        (timerRead appTimerConfigRtcFrequency (counterAt 0))).toNat =
      (timerElapsed32 appTimerConfigRtcFrequency (counterAt (0 + 16000))
        (timerRead32 appTimerConfigRtcFrequency (counterAt 0))).toNat ∧
    (timerDiff16 (eventTime appTimerConfigRtcFrequency (counterAt (0 + 16000)))
        (eventTime appTimerConfigRtcFrequency (counterAt 0))).toNat =
      elapsedMilliseconds appTimerConfigRtcFrequency 0 16000 :=
  (timerElapsed_right_iff appTimerConfigRtcFrequency 0 16000 (by decide) (by decide)).1.mpr
    ⟨by decide, by decide⟩

/-- In one block, the timestamps of two events 199 milliseconds apart differ by 198 or by 200. -/
example :
    timerDiff16 (eventTime appTimerConfigRtcFrequency (counterAt (199 * 16)))
        (eventTime appTimerConfigRtcFrequency (counterAt 0)) = 198 ∧
      timerDiff16 (eventTime appTimerConfigRtcFrequency (counterAt (16 + 199 * 16)))
        (eventTime appTimerConfigRtcFrequency (counterAt 16)) = 200 := by decide

/-- Sixty-five and a half seconds into the cycle, one elapsed millisecond is read as two. -/
theorem timerElapsed_wrong_at_block_end :
    ¬ ∀ start elapsed : Nat, start < 2 ^ 24 →
    elapsedMilliseconds appTimerConfigRtcFrequency start elapsed < 65536 →
      (timerElapsed appTimerConfigRtcFrequency (counterAt (start + elapsed))
        (timerRead appTimerConfigRtcFrequency (counterAt start))).toNat =
          elapsedMilliseconds appTimerConfigRtcFrequency start elapsed := by
  intro always
  exact absurd (always (65534 * 16) 16 (by decide) (by decide)) (by decide)

end BleKeyboard.Protocol
