import BleKeyboard.Data.Machine

namespace BleKeyboard.Powermgr

open BleKeyboard.Data

def initialPercentage : BitVec 8 := 255

/-- `trans_persentage`, from the stored percentage and a
voltage in millivolts to the new stored percentage. -/
def transPersentage (percentage : BitVec 8) (voltage : BitVec 16) : BitVec 8 :=
  if voltage ≥ 4100#16 then 100
  else if voltage ≥ 3335#16 then BitVec.ofNat 8 (15 + (voltage.toNat - 3335) / 9)
  else if voltage ≥ 2900#16 then BitVec.ofNat 8 ((voltage.toNat - 2900) / 29)
  else percentage

def percentageAfter (voltages : List (BitVec 16)) : BitVec 8 :=
  run transPersentage initialPercentage voltages

/-- The percentage of a voltage that one of the ranges covers. -/
def voltagePercentage (voltage : Nat) : Nat :=
  if 4100 ≤ voltage then 100
  else if 3335 ≤ voltage then 15 + (voltage - 3335) / 9
  else (voltage - 2900) / 29

theorem voltagePercentage_le_hundred (voltage : Nat) : voltagePercentage voltage ≤ 100 := by
  unfold voltagePercentage
  repeat' split
  all_goals omega

theorem voltagePercentage_mono {lower higher : Nat} (le : lower ≤ higher) :
    voltagePercentage lower ≤ voltagePercentage higher := by
  unfold voltagePercentage
  repeat' split
  all_goals omega

theorem transPersentage_covered {percentage : BitVec 8} {voltage : BitVec 16}
    (covered : 2900#16 ≤ voltage) :
    transPersentage percentage voltage = BitVec.ofNat 8 (voltagePercentage voltage.toNat) := by
  simp only [transPersentage, voltagePercentage, ge_iff_le, BitVec.le_def, BitVec.toNat_ofNat]
    at covered ⊢
  split
  · rfl
  · split <;> rfl

theorem transPersentage_below {percentage : BitVec 8} {voltage : BitVec 16}
    (below : ¬ 2900#16 ≤ voltage) :
    transPersentage percentage voltage = percentage := by
  have high : ¬ voltage ≥ 4100#16 := by bv_omega
  have middle : ¬ voltage ≥ 3335#16 := by bv_omega
  simp only [transPersentage, high, middle, ge_iff_le, below, if_false]

@[simp] theorem percentageAfter_snoc (voltages : List (BitVec 16)) (voltage : BitVec 16) :
    percentageAfter (voltages ++ [voltage]) = transPersentage (percentageAfter voltages)
      voltage := by
  simp [percentageAfter]

theorem percentageAfter_covered {voltage : BitVec 16} (covered : 2900#16 ≤ voltage)
    (voltages : List (BitVec 16)) :
    (percentageAfter (voltages ++ [voltage])).toNat = voltagePercentage voltage.toNat := by
  have bound := voltagePercentage_le_hundred voltage.toNat
  rw [percentageAfter_snoc, transPersentage_covered covered, BitVec.toNat_ofNat]
  omega

/-- A voltage has a percentage in range, the same after every history and in order with the
percentages of higher voltages, exactly when it is at least 2900 mV. -/
theorem percentageAfter_function_iff (voltage : BitVec 16) :
    ((∀ before, (percentageAfter (before ++ [voltage])).toNat ≤ 100) ∧
      (∀ before other,
        percentageAfter (before ++ [voltage]) = percentageAfter (other ++ [voltage])) ∧
      ∀ higher, voltage ≤ higher → ∀ before other,
        percentageAfter (before ++ [voltage]) ≤ percentageAfter (other ++ [higher])) ↔
    2900#16 ≤ voltage := by
  constructor
  · intro given
    rcases given with ⟨bounded, _, _⟩
    by_contra below
    have first := bounded []
    rw [percentageAfter_snoc, transPersentage_below below] at first
    exact absurd first (by decide)
  · intro covered
    refine ⟨fun before => ?_, fun before other => ?_, fun higher le before other => ?_⟩
    · rw [percentageAfter_covered covered]
      exact voltagePercentage_le_hundred _
    · apply BitVec.eq_of_toNat_eq
      rw [percentageAfter_covered covered, percentageAfter_covered covered]
    · rw [BitVec.le_def, percentageAfter_covered covered,
        percentageAfter_covered (BitVec.le_trans covered le)]
      exact voltagePercentage_mono le

/-- A discharged battery reads as 255 percent when it is the first measurement. -/
theorem percentageAfter_discharged :
    ¬ ∀ voltages : List (BitVec 16), voltages ≠ [] → (percentageAfter voltages).toNat ≤ 100 := by
  intro bounded
  exact absurd (bounded [2800#16] (by simp)) (by decide)

end BleKeyboard.Powermgr
