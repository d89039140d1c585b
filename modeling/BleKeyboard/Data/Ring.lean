import Mathlib.Data.Fin.Basic
import Mathlib.Data.List.Basic
import Mathlib.Data.List.FinRange
import Mathlib.Data.List.Nodup
import Mathlib.Logic.Function.Basic

namespace BleKeyboard.Data.Ring

/-! Windows of a circular array.

`contents slots head count` lists the `count` slots that follow each other from
`head`, wrapping at the end of the array.  Its lemmas describe a write at the
end of the window, a read at its start, and writes elsewhere. -/

variable {n : Nat} {α : Type*} {slots : Fin n → α} {head index : Fin n} {count : Nat} {value : α}

def next (index : Fin n) : Fin n :=
  if within : index.val + 1 < n then ⟨index.val + 1, within⟩ else ⟨0, index.pos⟩

/-- The index `distance` steps after `index`. -/
def ahead (index : Fin n) : Nat → Fin n
  | 0 => index
  | distance + 1 => ahead (next index) distance

def contents (slots : Fin n → α) (head : Fin n) : Nat → List α
  | 0 => []
  | count + 1 => slots head :: contents slots (next head) count

theorem next_val (index : Fin n) : (next index).val = (index.val + 1) % n := by
  unfold next
  split
  · next within => exact (Nat.mod_eq_of_lt within).symm
  · next last =>
      have full : index.val + 1 = n := by have := index.isLt; omega
      simp [full]

theorem ahead_val (index : Fin n) (distance : Nat) :
    (ahead index distance).val = (index.val + distance) % n := by
  induction distance generalizing index with
  | zero => exact (Nat.mod_eq_of_lt index.isLt).symm
  | succ distance ih =>
      rw [ahead, ih, next_val, Nat.mod_add_mod]
      congr 1
      omega

theorem ahead_succ (index : Fin n) (distance : Nat) :
    ahead index (distance + 1) = next (ahead index distance) := by
  apply Fin.ext
  rw [next_val, ahead_val, ahead_val, Nat.mod_add_mod, Nat.add_assoc]

theorem ahead_ahead (index : Fin n) (first second : Nat) :
    ahead (ahead index first) second = ahead index (first + second) := by
  apply Fin.ext
  rw [ahead_val, ahead_val, ahead_val, Nat.mod_add_mod, Nat.add_assoc]

theorem ahead_injective {first second : Nat} (firstBound : first < n) (secondBound : second < n)
    (same : ahead index first = ahead index second) : first = second := by
  have values := congrArg Fin.val same
  rw [ahead_val, ahead_val] at values
  have bound := index.isLt
  have firstMod : (index.val + first) % n = if index.val + first < n then index.val + first
      else index.val + first - n := by
    split
    · exact Nat.mod_eq_of_lt ‹_›
    · rw [Nat.mod_eq_sub_mod (by omega), Nat.mod_eq_of_lt (by omega)]
  have secondMod : (index.val + second) % n =
      if index.val + second < n then index.val + second else index.val + second - n := by
    split
    · exact Nat.mod_eq_of_lt ‹_›
    · rw [Nat.mod_eq_sub_mod (by omega), Nat.mod_eq_of_lt (by omega)]
  rw [firstMod, secondMod] at values
  split at values <;> split at values <;> omega

theorem ahead_next_ne {distance : Nat} (within : distance + 1 < n) :
    ahead (next index) distance ≠ index := by
  intro same
  have again : ahead index (distance + 1) = ahead index 0 := same
  have apart := ahead_injective within (by omega) again
  omega

theorem ahead_size (index : Fin n) : ahead index n = index := by
  apply Fin.ext
  rw [ahead_val, Nat.add_mod_right, Nat.mod_eq_of_lt index.isLt]

@[simp] theorem contents_zero : contents slots head 0 = [] := rfl

theorem contents_succ :
    contents slots head (count + 1) = slots head :: contents slots (next head) count := rfl

@[simp] theorem contents_length : (contents slots head count).length = count := by
  induction count generalizing head with
  | zero => rfl
  | succ count ih => simp [contents, ih]

theorem mem_contents : value ∈ contents slots head count ↔ ∃ distance, distance < count ∧
    slots (ahead head distance) = value := by
  induction count generalizing head with
  | zero => simp
  | succ count ih =>
      rw [contents_succ, List.mem_cons, ih]
      constructor
      · intro either
        rcases either with rfl | ⟨distance, bound, found⟩
        · exact ⟨0, by omega, rfl⟩
        · exact ⟨distance + 1, by omega, found⟩
      · intro given
        rcases given with ⟨distance, bound, found⟩
        cases distance with
        | zero => exact .inl found.symm
        | succ distance => exact .inr ⟨distance, by omega, found⟩

theorem contents_last :
    contents slots head (count + 1) = contents slots head count ++ [slots (ahead head count)] := by
  induction count generalizing head with
  | zero => rfl
  | succ count ih => rw [contents_succ, ih, contents_succ, List.cons_append, ahead]

theorem contents_update_outside
    (outside : ∀ distance, distance < count → ahead head distance ≠ index) :
    contents (Function.update slots index value) head count = contents slots head count := by
  induction count generalizing head with
  | zero => rfl
  | succ count ih =>
      have first : head ≠ index := outside 0 (by omega)
      rw [contents_succ, contents_succ, Function.update_of_ne first]
      rw [ih fun distance bound => outside (distance + 1) (by omega)]

theorem contents_push (room : count < n) :
    contents (Function.update slots (ahead head count) value) head (count + 1) =
    contents slots head count ++ [value] := by
  rw [contents_last, Function.update_self, contents_update_outside]
  intro distance bound same
  have := ahead_injective (by omega) room same
  omega

theorem contents_update_head (bound : count < n) :
    contents (Function.update slots head value) head (count + 1) =
    value :: contents slots (next head) count := by
  rw [contents_succ, Function.update_self, contents_update_outside]
  exact fun distance within => ahead_next_ne (by omega)

theorem contents_update_removed (bound : count < n) :
    contents (Function.update slots head value) (next head) count =
    contents slots (next head) count := by
  rw [contents_update_outside]
  exact fun distance within => ahead_next_ne (by omega)

theorem ahead_next (index : Fin n) (distance : Nat) :
    ahead (next index) distance = ahead index (distance + 1) := rfl

theorem exists_ahead (head index : Fin n) :
    ∃ distance, distance < n ∧ ahead head distance = index := by
  have headBound := head.isLt
  have indexBound := index.isLt
  by_cases before : index.val < head.val
  · refine ⟨index.val + n - head.val, by omega, Fin.ext ?_⟩
    rw [ahead_val,
      show head.val + (index.val + n - head.val) = index.val + n by omega, Nat.add_mod_right]
    exact Nat.mod_eq_of_lt indexBound
  · refine ⟨index.val - head.val, by omega, Fin.ext ?_⟩
    rw [ahead_val, show head.val + (index.val - head.val) = index.val by omega]
    exact Nat.mod_eq_of_lt indexBound

theorem contents_eq_map : contents slots head count = (List.range count).map fun distance =>
    slots (ahead head distance) := by
  induction count with
  | zero => rfl
  | succ count ih => rw [contents_last, ih, List.range_succ, List.map_append, List.map_singleton]

theorem contents_append (first second : Nat) :
    contents slots head (first + second) = contents slots head first ++ contents slots
      (ahead head first) second := by
  induction first generalizing head with
  | zero => simp [ahead]
  | succ first ih => rw [Nat.succ_add, contents_succ, contents_succ, ih, List.cons_append, ahead]

theorem contents_split {distance : Nat} (within : distance < count) :
    contents slots head count = contents slots head distance ++
      slots (ahead head distance) :: contents slots (ahead head (distance + 1))
        (count - distance - 1) := by
  rw [show count = distance + ((count - distance - 1) + 1)
    by omega, contents_append, contents_succ, ← ahead_succ]
  simp

theorem contents_congr {other : Fin n → α} (same : ∀ distance, distance < count →
    slots (ahead head distance) = other (ahead head distance)) :
    contents slots head count = contents other head count := by
  rw [contents_eq_map, contents_eq_map]
  exact List.map_congr_left fun distance member => same distance (List.mem_range.mp member)

theorem contents_perm (slots : Fin n → α) (head : Fin n) :
    (contents slots head n).Perm ((List.finRange n).map slots) := by
  have indices : ((List.range n).map (ahead head)).Perm (List.finRange n) := by
    rw [List.perm_ext_iff_of_nodup]
    · intro index
      obtain ⟨distance, bound, found⟩ := exists_ahead head index
      simp only [List.mem_map, List.mem_range, List.mem_finRange, iff_true]
      exact ⟨distance, bound, found⟩
    · refine List.Nodup.map_on ?_ List.nodup_range
      intro first firstMember second secondMember same
      exact ahead_injective (List.mem_range.mp firstMember) (List.mem_range.mp secondMember) same
    · exact List.nodup_finRange n
  have mapped := indices.map slots
  rw [List.map_map] at mapped
  rw [contents_eq_map]
  exact mapped

end BleKeyboard.Data.Ring
