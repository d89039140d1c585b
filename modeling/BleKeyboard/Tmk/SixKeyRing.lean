import BleKeyboard.Data.Machine
import BleKeyboard.Data.Ring
import BleKeyboard.Tmk.Report

namespace BleKeyboard.Tmk

open BleKeyboard.Data

/-! The key slots as a ring of the last six keys: `action_util.c` as it is built with
`USB_6KRO_ENABLE`. -/

def roSub (index : Fin 6) (offset : Nat) : Fin 6 :=
  ⟨(index.val + 6 - offset) % 6, Nat.mod_lt _ (by decide)⟩

/-- The bytes of the report behind its modifiers, and `cb_head`, `cb_tail` and `cb_count`. -/
structure SixKeyRing where
  reserved : BitVec 8
  keys : KeyBytes
  cbHead : Fin 6
  cbTail : Fin 6
  cbCount : Int

namespace SixKeyRing

def start : Fin 6 := ⟨0, by decide⟩

def reset : SixKeyRing :=
  { reserved := 0, keys := KeyBytes.empty, cbHead := start, cbTail := start, cbCount := 0 }

variable (ring : SixKeyRing)

/-- The first loop of `add_key_byte`: nothing when it returns because the code is held, else the
first empty slot if there is one.  A loop over the ring ends after six passes at most. -/
def findEmpty (code : Code) : Nat → Fin 6 → Option (Fin 6) → Option (Option (Fin 6))
  | 0, _, empty => some empty
  | fuel + 1, i, empty =>
      if ring.keys i = code then none
      else
        let empty := if empty = none ∧ ring.keys i = 0#8 then some i else empty
        let i := Ring.next i
        if i = ring.cbTail then some empty else findEmpty code fuel i empty

/-- The loop that moves codes into the empty slots before them. -/
def leftShift (cbTail : Fin 6) : Nat → KeyBytes → Fin 6 → Fin 6 → Nat → KeyBytes × Nat
  | 0, keys, _, _, offset => (keys, offset)
  | fuel + 1, keys, empty, i, offset =>
      if keys i ≠ 0#8 then
        let keys := Function.update (Function.update keys empty (keys i)) i 0#8
        if Ring.next i = cbTail then (keys, offset)
        else leftShift cbTail fuel keys (Ring.next empty) (Ring.next i) offset
      else if Ring.next i = cbTail then (keys, offset + 1)
      else leftShift cbTail fuel keys empty (Ring.next i) (offset + 1)

def addToTail (code : Code) : SixKeyRing :=
  { ring with
    keys := Function.update ring.keys ring.cbTail code
    cbTail := Ring.next ring.cbTail
    cbCount := ring.cbCount + 1 }

/-- What `add_key_byte` does first when head and tail meet. -/
def makeRoom : Option (Fin 6) → SixKeyRing
  | none => { ring with cbHead := Ring.next ring.cbHead, cbCount := ring.cbCount - 1 }
  | some empty =>
      let (keys, offset) := leftShift ring.cbTail 6 ring.keys empty (Ring.next empty) 1
      { ring with keys, cbTail := roSub ring.cbTail offset }

def addKeyByte (code : Code) : SixKeyRing :=
  if ring.cbCount ≠ 0 then
    match ring.findEmpty code 6 ring.cbHead none with
    | none => ring
    | some empty => (if ring.cbTail = ring.cbHead then ring.makeRoom empty else ring).addToTail code
  else ring.addToTail code

def findCode (code : Code) : Nat → Fin 6 → Option (Fin 6)
  | 0, _ => none
  | fuel + 1, i =>
      if ring.keys i = code then some i
      else if Ring.next i = ring.cbTail then none else findCode code fuel (Ring.next i)

/-- The loop that moves the tail back over empty slots. -/
def trimTail : Nat → SixKeyRing → SixKeyRing
  | 0, ring => ring
  | fuel + 1, ring =>
      let ring := { ring with cbTail := roSub ring.cbTail 1 }
      if ring.keys (roSub ring.cbTail 1) ≠ 0#8 then ring
      else if ring.cbTail ≠ ring.cbHead then trimTail fuel ring else ring

def removeAt (i : Fin 6) : SixKeyRing :=
  let ring := { ring with keys := Function.update ring.keys i 0#8, cbCount := ring.cbCount - 1 }
  let ring := if ring.cbCount = 0 then { ring with cbHead := start, cbTail := start } else ring
  if i = roSub ring.cbTail 1 then trimTail 6 ring else ring

def delKeyByte (code : Code) : SixKeyRing :=
  if ring.cbCount ≠ 0 then
    match ring.findCode code 6 ring.cbHead with
    | none => ring
    | some i => ring.removeAt i
  else ring

def clearKeys : SixKeyRing := { ring with reserved := 0#8, keys := KeyBytes.empty }

/-- The number of slots from the head to the tail, which
meet both in an empty ring and in a full one. -/
def windowLength : Nat :=
  if ring.cbCount = 0 then 0
  else if ring.cbTail = ring.cbHead then 6
  else (ring.cbTail.val + 6 - ring.cbHead.val) % 6

def window : List Code := Ring.contents ring.keys ring.cbHead ring.windowLength

end SixKeyRing

inductive RingCall where
  | addKey (code : Code)
  | delKey (code : Code)
  | clearKeys
deriving DecidableEq, Repr

/-- The purpose of the ring: the last six keys that are held, the oldest first. -/
def heldAfter (held : List Code) : RingCall → List Code
  | .addKey code =>
      if code ∈ held then held else (if held.length = 6 then held.tail else held) ++ [code]
  | .delKey code => held.filter fun other => other ≠ code
  | .clearKeys => []

structure HeldKeys where
  ring : SixKeyRing
  held : List Code

namespace HeldKeys

def reset : HeldKeys := { ring := .reset, held := [] }

def step (keys : HeldKeys) (call : RingCall) : HeldKeys :=
  { ring := match call with
      | .addKey code => keys.ring.addKeyByte code
      | .delKey code => keys.ring.delKeyByte code
      | .clearKeys => keys.ring.clearKeys
    held := heldAfter keys.held call }

/-- The counter is the number of codes in the slots, these lie between head and tail, none of them
twice, and they are the keys that are held, in their order. -/
structure Represents (keys : HeldKeys) : Prop where
  count : keys.ring.cbCount = (List.finRange 6).countP fun slot => keys.ring.keys slot ≠ 0#8
  within : 0 ≤ keys.ring.cbCount ∧ keys.ring.cbCount ≤ 6
  inWindow : ∀ slot, keys.ring.keys slot ≠ 0#8 →
    ∃ distance, distance < keys.ring.windowLength ∧ slot = Ring.ahead keys.ring.cbHead distance
  distinct : keys.ring.keys.Distinct
  ordered : (keys.ring.window.filter fun code => code ≠ 0#8) = keys.held

/-- A code is never the one that marks an empty slot. -/
def AddsCodes (_ : HeldKeys) : RingCall → Prop
  | .addKey code => code ≠ 0#8
  | _ => True

/-- The keys are cleared while none is held, and the code that marks an empty slot is not deleted
while there is one between head and tail. -/
def SparesCounter (keys : HeldKeys) : RingCall → Prop
  | .addKey _ => True
  | .delKey code => code = 0#8 → 0#8 ∉ keys.ring.window
  | .clearKeys => ∀ slot, keys.ring.keys slot = 0#8

instance (keys : HeldKeys) : ∀ call, Decidable (keys.AddsCodes call)
  | .addKey code => inferInstanceAs (Decidable (code ≠ 0#8))
  | .delKey _ | .clearKeys => .isTrue trivial

instance (keys : HeldKeys) : ∀ call, Decidable (keys.SparesCounter call)
  | .addKey _ => .isTrue trivial
  | .delKey code => inferInstanceAs (Decidable (code = 0#8 → 0#8 ∉ keys.ring.window))
  | .clearKeys => inferInstanceAs (Decidable (∀ slot, keys.ring.keys slot = 0#8))

end HeldKeys

namespace SixKeyRing

variable {ring : SixKeyRing} {code : Code} {head i : Fin 6}

theorem roSub_ahead {distance offset : Nat} (within : offset ≤ distance) (bound : offset ≤ 6) :
    roSub (Ring.ahead head distance) offset = Ring.ahead head (distance - offset) := by
  apply Fin.ext
  simp only [roSub, Ring.ahead_val]
  omega

theorem roSub_head {offset : Nat} (bound : offset ≤ 6) :
    roSub head offset = Ring.ahead head (6 - offset) := by
  apply Fin.ext
  have := head.isLt
  simp only [roSub, Ring.ahead_val]
  omega

theorem next_eq_tail_iff {remaining : Nat} (bound : remaining < 6) :
    Ring.next i = Ring.ahead i (remaining + 1) ↔ remaining = 0 := by
  constructor
  · intro last
    have same : Ring.ahead (Ring.next i) 0 = Ring.ahead (Ring.next i) remaining := last
    exact (Ring.ahead_injective (by decide) bound same).symm
  · intro equal
    subst equal
    rfl

def firstEmpty (keys : KeyBytes) (i : Fin 6) : Nat → Option (Fin 6)
  | 0 => none
  | remaining + 1 => if keys i = 0#8 then some i else firstEmpty keys (Ring.next i) remaining

theorem firstEmpty_cases (keys : KeyBytes) (i : Fin 6) (remaining : Nat) :
    firstEmpty keys i remaining = none ∧ 0#8 ∉ Ring.contents keys i remaining ∨
      ∃ distance, distance < remaining ∧
      firstEmpty keys i remaining = some (Ring.ahead i distance) ∧
        keys (Ring.ahead i distance) = 0#8 ∧ 0#8 ∉ Ring.contents keys i distance := by
  induction remaining generalizing i with
  | zero => exact .inl ⟨rfl, by simp⟩
  | succ remaining ih =>
      by_cases empty : keys i = 0#8
      · exact .inr ⟨0, by omega, by simp [firstEmpty, empty, Ring.ahead], empty, by simp⟩
      · simp only [firstEmpty, empty, if_false, Ring.contents_succ, List.mem_cons,
          Ne.symm empty, false_or]
        cases ih (Ring.next i) with
        | inl none => exact .inl none
        | inr found =>
            obtain ⟨distance, bound, first, zero, before⟩ := found
            refine .inr ⟨distance + 1, by omega, first, zero, ?_⟩
            simp only [Ring.contents_succ, List.mem_cons, Ne.symm empty, before, or_self,
              not_false_eq_true]

theorem firstEmpty_first (keys : KeyBytes) (i : Fin 6) (empty : Option (Fin 6)) (remaining : Nat) :
    (if empty = none ∧ keys i = 0#8 then some i else empty).or
      (firstEmpty keys (Ring.next i) remaining) =
      empty.or (firstEmpty keys i (remaining + 1)) := by
  cases empty with
  | some slot => simp
  | none =>
      by_cases zero : keys i = 0#8
      · simp [firstEmpty, zero]
      · simp [firstEmpty, zero]

theorem findEmpty_eq {remaining fuel : Nat} (bound : remaining < 6) (enough : remaining < fuel)
    (empty : Option (Fin 6)) (tail : ring.cbTail = Ring.ahead i (remaining + 1)) :
    ring.findEmpty code fuel i empty =
      if code ∈ Ring.contents ring.keys i (remaining + 1) then none
      else some (empty.or (firstEmpty ring.keys i (remaining + 1))) := by
  induction remaining generalizing i fuel empty with
  | zero =>
      obtain ⟨fuel, rfl⟩ := Nat.exists_eq_succ_of_ne_zero (Nat.ne_of_gt enough)
      have last : Ring.next i = ring.cbTail := tail.symm
      by_cases found : ring.keys i = code
      · simp [findEmpty, found, Ring.contents]
      · simp only [findEmpty, found, if_false, last, if_true, Ring.contents, List.mem_singleton,
          Ne.symm found, firstEmpty]
        cases empty <;> simp
  | succ remaining ih =>
      obtain ⟨fuel, rfl⟩ := Nat.exists_eq_succ_of_ne_zero (Nat.ne_of_gt (Nat.zero_lt_of_lt enough))
      have later : Ring.next i ≠ ring.cbTail := by
        rw [tail, ne_eq, next_eq_tail_iff bound]
        omega
      have rest := fun empty => @ih (Ring.next i) fuel (by omega) (by omega) empty tail
      by_cases found : ring.keys i = code
      · simp [findEmpty, found, Ring.contents]
      · have member : code ∈ Ring.contents ring.keys i (remaining + 1 + 1) ↔
            code ∈ Ring.contents ring.keys (Ring.next i) (remaining + 1) := by
          simp only [Ring.contents_succ, List.mem_cons, Ne.symm found, false_or]
        simp only [findEmpty, found, if_false, later, rest, member, firstEmpty_first]

theorem findCode_cases {remaining fuel : Nat} (bound : remaining < 6) (enough : remaining < fuel)
    (tail : ring.cbTail = Ring.ahead i (remaining + 1)) :
    ring.findCode code fuel i = none ∧ code ∉ Ring.contents ring.keys i (remaining + 1) ∨
      ∃ distance, distance ≤ remaining ∧ ring.findCode code fuel i = some (Ring.ahead i distance) ∧
        ring.keys (Ring.ahead i distance) = code := by
  induction remaining generalizing i fuel with
  | zero =>
      obtain ⟨fuel, rfl⟩ := Nat.exists_eq_succ_of_ne_zero (Nat.ne_of_gt enough)
      have last : Ring.next i = ring.cbTail := tail.symm
      by_cases found : ring.keys i = code
      · exact .inr ⟨0, by omega, by simp [findCode, found, Ring.ahead], found⟩
      · exact .inl ⟨by simp [findCode, found, last], by simp [Ring.contents, Ne.symm found]⟩
  | succ remaining ih =>
      obtain ⟨fuel, rfl⟩ := Nat.exists_eq_succ_of_ne_zero (Nat.ne_of_gt (Nat.zero_lt_of_lt enough))
      have later : Ring.next i ≠ ring.cbTail := by
        rw [tail, ne_eq, next_eq_tail_iff bound]
        omega
      by_cases found : ring.keys i = code
      · exact .inr ⟨0, by omega, by simp [findCode, found, Ring.ahead], found⟩
      · simp only [findCode, found, if_false, later]
        obtain ⟨none, absent⟩ | ⟨distance, within, first, holds⟩ :=
          @ih (Ring.next i) fuel (by omega) (by omega) tail
        · refine .inl ⟨none, ?_⟩
          rw [Ring.contents_succ, List.mem_cons]
          exact fun held => held.elim (Ne.symm found) absent
        · exact .inr ⟨distance + 1, by omega, first, holds⟩

/-- What the shifting loop leaves: from the first empty slot on,
the codes it has passed and then empty slots only. -/
structure Shifted (keys : KeyBytes) (empty : Fin 6) (offset remaining : Nat)
    (after : KeyBytes × Nat) : Prop where
  codes : Ring.contents after.1 empty (offset + remaining - after.2) =
    (Ring.contents keys (Ring.ahead empty offset) remaining).filter fun code => code ≠ 0#8
  bound : after.2 ≤ offset + remaining
  holes : ∀ distance, offset + remaining - after.2 ≤ distance → distance < offset + remaining →
    after.1 (Ring.ahead empty distance) = 0#8
  others : ∀ distance, offset + remaining ≤ distance → distance < 6 →
    after.1 (Ring.ahead empty distance) = keys (Ring.ahead empty distance)

section LeftShift

variable {keys : KeyBytes} {cbTail empty : Fin 6} {offset remaining fuel : Nat}

def moved (keys : KeyBytes) (empty i : Fin 6) : KeyBytes :=
  Function.update (Function.update keys empty (keys i)) i 0#8

theorem moved_ahead {distance : Nat} (bound : distance < 6) (offsetBound : offset < 6)
    (gap : 0 < offset) :
    moved keys empty (Ring.ahead empty offset) (Ring.ahead empty distance) =
      if distance = 0 then keys (Ring.ahead empty offset)
      else if distance = offset then 0#8 else keys (Ring.ahead empty distance) := by
  have apart : ∀ {first second : Nat}, first < 6 → second < 6 → first ≠ second →
      Ring.ahead empty first ≠ Ring.ahead empty second :=
    fun firstBound secondBound different same =>
      different (Ring.ahead_injective firstBound secondBound same)
  have start : empty = Ring.ahead empty 0 := rfl
  split
  · next first =>
      rw [first, moved, Function.update_of_ne (apart (by decide) offsetBound (by omega)), ← start,
        Function.update_self]
  · next notFirst =>
      split
      · next here =>
          rw [here, moved, Function.update_self]
      · next elsewhere =>
          rw [moved, Function.update_of_ne (apart bound offsetBound elsewhere),
            Function.update_of_ne]
          exact apart bound (by decide) notFirst

theorem shifted_last (gap : 0 < offset) (within : offset < 6)
    (zeros : ∀ distance, distance < offset → keys (Ring.ahead empty distance) = 0#8) :
    Shifted keys empty offset 1 (if keys (Ring.ahead empty offset) ≠ 0#8 then
      (moved keys empty (Ring.ahead empty offset), offset) else (keys, offset + 1)) := by
  split
  · next code =>
      constructor
      · have first :
            moved keys empty (Ring.ahead empty offset) empty = keys (Ring.ahead empty offset) :=
          @moved_ahead keys empty offset 0 (by decide) within gap
        have kept : [keys (Ring.ahead empty offset)].filter (fun code => code ≠ 0#8) =
            [keys (Ring.ahead empty offset)] := by
          simpa using code
        simp only [Nat.add_sub_cancel_left, Ring.contents, first, kept]
      · exact Nat.le_add_right _ _
      · intro distance after before
        dsimp only at after ⊢
        rw [moved_ahead (by omega) within gap, if_neg (by omega)]
        split
        · rfl
        · exact zeros distance (by omega)
      · intro distance after bound
        dsimp only
        rw [moved_ahead bound within gap, if_neg (by omega), if_neg (by omega)]
  · next hole =>
      constructor
      · simp [Ring.contents, hole]
      · exact Nat.le_refl _
      · intro distance _ before
        by_cases here : distance = offset
        · rw [here]
          exact not_not.mp hole
        · exact zeros distance (by omega)
      · exact fun _ _ _ => rfl

theorem Shifted.moved (code : keys (Ring.ahead empty offset) ≠ 0#8) (gap : 0 < offset)
    (within : offset + remaining < 6) {after : KeyBytes × Nat}
    (shifted : Shifted (moved keys empty (Ring.ahead empty offset)) (Ring.next empty) offset
      remaining after) :
    Shifted keys empty offset (remaining + 1) after := by
  have bound := shifted.bound
  have first : after.1 empty = keys (Ring.ahead empty offset) := by
    have last := shifted.others 5 (by omega) (by decide)
    rw [Ring.ahead_next, Ring.ahead_size] at last
    rw [last]
    exact @moved_ahead keys empty offset 0 (by decide) (by omega) gap
  have rest : Ring.contents (SixKeyRing.moved keys empty (Ring.ahead empty offset))
      (Ring.ahead (Ring.next empty) offset)
      remaining = Ring.contents keys (Ring.next (Ring.ahead empty offset)) remaining := by
    rw [Ring.ahead_next, Ring.ahead_succ]
    refine Ring.contents_congr fun distance inside => ?_
    rw [← Ring.ahead_succ, Ring.ahead_ahead, moved_ahead (by omega) (by omega) gap,
      if_neg (by omega), if_neg (by omega)]
  constructor
  · rw [show offset + (remaining + 1) - after.2 = (offset + remaining - after.2) + 1
      by omega, Ring.contents_succ, first,
      shifted.codes, rest, Ring.contents_succ, List.filter_cons, if_pos (by simpa using code)]
  · omega
  · intro distance later before
    obtain ⟨earlier, rfl⟩ := Nat.exists_eq_succ_of_ne_zero (show distance ≠ 0 by omega)
    exact shifted.holes earlier (by omega) (by omega)
  · intro distance later inside
    obtain ⟨earlier, rfl⟩ := Nat.exists_eq_succ_of_ne_zero (show distance ≠ 0 by omega)
    have other := shifted.others earlier (by omega) (by omega)
    rw [Ring.ahead_next] at other
    rw [Nat.succ_eq_add_one, other, moved_ahead inside (by omega) gap, if_neg (by omega),
      if_neg (by omega)]

theorem Shifted.widened (hole : keys (Ring.ahead empty offset) = 0#8) {after : KeyBytes × Nat}
    (shifted : Shifted keys empty (offset + 1) remaining after) :
      Shifted keys empty offset (remaining + 1) after := by
  have sum : offset + 1 + remaining = offset + (remaining + 1) := by omega
  obtain ⟨codes, bound, holes, others⟩ := shifted
  rw [sum] at codes bound holes others
  refine ⟨?_, bound, holes, others⟩
  rw [codes, Ring.ahead_succ, Ring.contents_succ, List.filter_cons, if_neg (by simpa using hole)]

theorem leftShift_shifted (gap : 0 < offset) (within : offset + remaining < 6)
    (enough : remaining < fuel)
    (zeros : ∀ distance, distance < offset → keys (Ring.ahead empty distance) = 0#8)
    (tail : cbTail = Ring.ahead empty (offset + remaining + 1)) :
    Shifted keys empty offset (remaining + 1)
      (leftShift cbTail fuel keys empty (Ring.ahead empty offset) offset) := by
  induction remaining generalizing keys empty offset fuel with
  | zero =>
      obtain ⟨fuel, rfl⟩ := Nat.exists_eq_succ_of_ne_zero (Nat.ne_of_gt enough)
      have last : Ring.next (Ring.ahead empty offset) = cbTail := by
        rw [tail]
        exact (Ring.ahead_succ _ _).symm
      simp only [leftShift, last, if_true]
      exact shifted_last gap within zeros
  | succ remaining ih =>
      obtain ⟨fuel, rfl⟩ := Nat.exists_eq_succ_of_ne_zero (Nat.ne_of_gt (Nat.zero_lt_of_lt enough))
      have later : Ring.next (Ring.ahead empty offset) ≠ cbTail := by
        rw [tail, show offset + (remaining + 1) + 1 = offset + (remaining + 1 + 1)
          by omega, ← Ring.ahead_ahead, ne_eq,
          next_eq_tail_iff (by omega)]
        omega
      simp only [leftShift, later, if_false]
      split
      · next code =>
          refine Shifted.moved code gap (by omega) ?_
          have passed :
              Ring.next (Ring.ahead empty offset) = Ring.ahead (Ring.next empty) offset := by
            rw [Ring.ahead_next, Ring.ahead_succ]
          rw [passed]
          refine ih gap (by omega) (by omega) (fun distance before => ?_) ?_
          · rw [Ring.ahead_next]
            have value := @moved_ahead keys empty offset (distance + 1) (by omega) (by omega) gap
            rw [if_neg (by omega)] at value
            refine value.trans ?_
            split
            · rfl
            · exact zeros (distance + 1) (by omega)
          · rw [tail, Ring.ahead_next]
            congr 1
      · next hole =>
          refine Shifted.widened (not_not.mp hole) ?_
          rw [← Ring.ahead_succ]
          refine ih (by omega) (by omega) (by omega) (fun distance before => ?_) ?_
          · by_cases here : distance = offset
            · rw [here]
              exact not_not.mp hole
            · exact zeros distance (by omega)
          · rw [tail]
            congr 1
            omega

end LeftShift

/-- A window of `length` slots from the head to the tail
holds the keys, and the rest of the ring is empty. -/
structure Holding (ring : SixKeyRing) (held : List Code) (length : Nat) : Prop where
  bound : length ≤ 6
  tail : ring.cbTail = Ring.ahead ring.cbHead length
  outside : ∀ distance, length ≤ distance → distance < 6 →
    ring.keys (Ring.ahead ring.cbHead distance) = 0#8
  codes : (Ring.contents ring.keys ring.cbHead length).filter (fun code => code ≠ 0#8) = held
  nodup : held.Nodup
  count : ring.cbCount = held.length

structure Packed (ring : SixKeyRing) (held : List Code) (length : Nat) :
    Prop extends Holding ring held length where
  last : ∀ before, length = before + 1 → ring.keys (Ring.ahead ring.cbHead before) ≠ 0#8

/-- There is room at the tail, whatever the slot there holds. -/
structure Roomy (ring : SixKeyRing) (held : List Code) (length : Nat) : Prop where
  bound : length < 6
  tail : ring.cbTail = Ring.ahead ring.cbHead length
  outside : ∀ distance, length < distance → distance < 6 →
    ring.keys (Ring.ahead ring.cbHead distance) = 0#8
  codes : (Ring.contents ring.keys ring.cbHead length).filter (fun code => code ≠ 0#8) = held
  nodup : held.Nodup
  count : ring.cbCount = held.length

section Operations

variable {held : List Code} {length : Nat}

theorem reset_packed : reset.Packed [] 0 :=
  { bound := by decide, tail := rfl, outside := fun _ _ _ => rfl, codes := rfl
    nodup := List.nodup_nil, count := rfl
    last := fun _ impossible => absurd impossible (by omega) }

theorem Packed.roomy (packed : ring.Packed held length) (room : length < 6) :
    ring.Roomy held length :=
  { packed with
    bound := room
    outside := fun distance after inside => packed.outside distance (by omega) inside }

theorem Packed.held_ne_nil (packed : ring.Packed held length) (some : length ≠ 0) : held ≠ [] := by
  obtain ⟨before, rfl⟩ := Nat.exists_eq_succ_of_ne_zero some
  have code := packed.last before rfl
  rw [← packed.codes, Nat.succ_eq_add_one, Ring.contents_last, List.filter_append]
  simp [code]

theorem Packed.empty_iff (packed : ring.Packed held length) : ring.cbCount = 0 ↔ length = 0 := by
  rw [packed.count]
  constructor
  · intro none
    by_contra some
    exact packed.held_ne_nil some (List.eq_nil_of_length_eq_zero (by omega))
  · intro equal
    subst equal
    rw [← packed.codes]
    rfl

theorem Packed.windowLength (packed : ring.Packed held length) : ring.windowLength = length := by
  have bound := packed.bound
  have headBound := ring.cbHead.isLt
  have tail := congrArg Fin.val packed.tail
  rw [Ring.ahead_val] at tail
  unfold SixKeyRing.windowLength
  split
  · next none => exact (packed.empty_iff.mp none).symm
  · next some =>
      have nonempty : length ≠ 0 := fun none => some (packed.empty_iff.mpr none)
      split
      · next meet =>
          have same := congrArg Fin.val meet
          omega
      · next apart =>
          have different : ring.cbTail.val ≠ ring.cbHead.val := fun same => apart (Fin.ext same)
          omega

theorem Packed.window (packed : ring.Packed held length) :
    (ring.window.filter fun code => code ≠ 0#8) = held := by
  rw [SixKeyRing.window, packed.windowLength, packed.codes]

theorem Packed.mem_iff (packed : ring.Packed held length) (code : Code) (nonzero : code ≠ 0#8) :
    code ∈ held ↔ code ∈ Ring.contents ring.keys ring.cbHead length := by
  rw [← packed.codes, List.mem_filter]
  simp [nonzero]

theorem Roomy.addToTail (roomy : ring.Roomy held length) (nonzero : code ≠ 0#8)
    (new : code ∉ held) :
    (ring.addToTail code).Packed (held ++ [code]) (length + 1) := by
  have bound := roomy.bound
  have written : Ring.contents (ring.addToTail code).keys ring.cbHead (length + 1) =
      Ring.contents ring.keys ring.cbHead length ++ [code] := by
    rw [SixKeyRing.addToTail, roomy.tail]
    exact Ring.contents_push bound
  refine ⟨⟨?_, ?_, ?_, ?_, ?_, ?_⟩, ?_⟩
  · exact bound
  · rw [Ring.ahead_succ]
    exact congrArg Ring.next roomy.tail
  · intro distance after inside
    have elsewhere : Ring.ahead ring.cbHead distance ≠ ring.cbTail := by
      rw [roomy.tail]
      intro same
      have := Ring.ahead_injective inside bound same
      omega
    exact (Function.update_of_ne elsewhere code ring.keys).trans
      (roomy.outside distance (by omega) inside)
  · have kept : [code].filter (fun code => code ≠ 0#8) = [code] := by simpa using nonzero
    exact (congrArg _ written).trans (by rw [List.filter_append, roomy.codes, kept])
  · rw [List.nodup_append]
    refine ⟨roomy.nodup, List.nodup_singleton _, fun other member added found same => new ?_⟩
    rw [List.mem_singleton] at found
    rw [← found, ← same]
    exact member
  · simp [SixKeyRing.addToTail, roomy.count]
  · intro before same
    have written : (ring.addToTail code).keys ring.cbTail = code := Function.update_self _ _ _
    rw [roomy.tail, Nat.succ.inj same] at written
    exact fun zero => nonzero (written.symm.trans zero)

theorem Packed.makeRoom_none (packed : ring.Packed held 6)
    (noHole : 0#8 ∉ Ring.contents ring.keys ring.cbHead 6) :
    (ring.makeRoom none).Roomy held.tail 5 := by
  have all : Ring.contents ring.keys ring.cbHead 6 = held := by
    rw [← packed.codes, List.filter_eq_self.mpr]
    intro code member
    have nonzero : code ≠ 0#8 := fun zero => noHole (by rw [← zero]; exact member)
    simpa using nonzero
  have oldest :
      held = ring.keys ring.cbHead :: Ring.contents ring.keys (Ring.next ring.cbHead) 5 := by
    rw [← all, Ring.contents_succ]
  have roomyTail : ring.cbTail = Ring.ahead (Ring.next ring.cbHead) 5 := by
    rw [Ring.ahead_next]
    exact packed.tail
  constructor
  · decide
  · exact roomyTail
  · intro distance after inside
    omega
  · rw [oldest, List.tail_cons]
    refine List.filter_eq_self.mpr fun code member => ?_
    have nonzero : code ≠ 0#8 := fun zero => noHole (by
      rw [all, oldest, ← zero]
      exact List.mem_cons_of_mem _ member)
    simpa using nonzero
  · exact packed.nodup.tail
  · have some : held.length = 6 := by rw [← all, Ring.contents_length]
    have count := packed.count
    simp only [makeRoom, List.length_tail, some] at count ⊢
    omega

theorem Packed.makeRoom_some (packed : ring.Packed held 6) {distance : Nat} (inside : distance < 5)
    (hole : ring.keys (Ring.ahead ring.cbHead distance) = 0#8) :
    ∃ length, (ring.makeRoom (some (Ring.ahead ring.cbHead distance))).Roomy held length := by
  have full : Ring.ahead ring.cbHead 6 = ring.cbHead := Ring.ahead_size _
  have tail : ring.cbTail = ring.cbHead := packed.tail.trans full
  generalize emptyIs : Ring.ahead ring.cbHead distance = empty at hole
  have passed : ∀ further, Ring.ahead empty further = Ring.ahead ring.cbHead (distance + further) :=
      fun further => by
    rw [← emptyIs, Ring.ahead_ahead]
  have shifted := @leftShift_shifted ring.keys ring.cbTail empty 1 (4 - distance) 6 (by decide)
    (by omega) (by omega)
    (fun further first => by rw [show further = 0 by omega]; exact hole)
    (by rw [tail, passed, show distance + (1 + (4 - distance) + 1) = 6 by omega, full])
  generalize afterIs :
    leftShift ring.cbTail 6 ring.keys empty (Ring.ahead empty 1) 1 = after at shifted
  obtain ⟨keys, offset⟩ := after
  obtain ⟨codes, bound, holes, others⟩ := shifted
  rw [show 1 + (4 - distance + 1) = 6 - distance by omega] at codes bound holes others
  dsimp only at codes bound holes others
  have gap : 1 ≤ offset := by
    have lengths := congrArg List.length codes
    have kept := List.length_filter_le (fun code => code ≠ 0#8)
      (Ring.contents ring.keys (Ring.ahead empty 1) (4 - distance + 1))
    rw [← lengths, Ring.contents_length, Ring.contents_length] at kept
    omega
  have result :
      ring.makeRoom (some empty) = { ring with keys, cbTail := roSub ring.cbTail offset } := by
    have call : leftShift ring.cbTail 6 ring.keys empty (Ring.next empty) 1 = (keys, offset) :=
      afterIs
    simp only [makeRoom, call]
  rw [result]
  refine ⟨6 - offset, ?_⟩
  constructor
  · omega
  · dsimp only
    rw [tail, roSub_head (by omega)]
  · intro further after inside
    have cleared := holes (further - distance) (by omega) (by omega)
    rw [passed, show distance + (further - distance) = further by omega] at cleared
    exact cleared
  · have before :
        Ring.contents keys ring.cbHead distance = Ring.contents ring.keys ring.cbHead distance := by
      refine Ring.contents_congr fun earlier within => ?_
      have other := others (6 - distance + earlier) (by omega) (by omega)
      rw [passed, show distance + (6 - distance + earlier) = 6 + earlier
        by omega, ← Ring.ahead_ahead, full] at other
      exact other
    have whole := packed.codes
    rw [@Ring.contents_split _ _ _ _ _ distance (by omega), List.filter_append, List.filter_cons,
      emptyIs, hole, if_neg (by simp)] at whole
    dsimp only
    rw [show 6 - offset = distance + (6 - distance - offset)
      by omega, Ring.contents_append, emptyIs, List.filter_append,
      before, codes, List.filter_filter, ← whole, passed]
    simp only [Bool.and_self, show 6 - distance - 1 = 4 - distance + 1 by omega]
  · exact packed.nodup
  · exact packed.count

theorem Packed.tail_eq_head (packed : ring.Packed held length) (nonempty : length ≠ 0) :
    ring.cbTail = ring.cbHead ↔ length = 6 := by
  have bound := packed.bound
  rw [packed.tail]
  constructor
  · intro meet
    by_contra short
    have same : Ring.ahead ring.cbHead length = Ring.ahead ring.cbHead 0 := meet
    exact nonempty (Ring.ahead_injective (by omega) (by decide) same)
  · intro equal
    subst equal
    exact Ring.ahead_size _

theorem Packed.length_held (packed : ring.Packed held length) :
    held.length = length ↔ 0#8 ∉ Ring.contents ring.keys ring.cbHead length := by
  have lengths := List.length_filter_eq_length_iff (p := fun code => code ≠ 0#8)
    (l := Ring.contents ring.keys ring.cbHead length)
  rw [packed.codes, Ring.contents_length] at lengths
  rw [lengths]
  constructor
  · intro codes hole
    simpa using codes 0#8 hole
  · intro noHole code member
    have nonzero : code ≠ 0#8 := fun zero => noHole (by rw [← zero]; exact member)
    simpa using nonzero

theorem Packed.addKeyByte (packed : ring.Packed held length) (nonzero : code ≠ 0#8) :
    ∃ length, (ring.addKeyByte code).Packed (heldAfter held (.addKey code)) length := by
  simp only [SixKeyRing.addKeyByte, heldAfter]
  split
  · next some =>
      obtain ⟨remaining, rfl⟩ := Nat.exists_eq_succ_of_ne_zero (mt packed.empty_iff.mpr some)
      rw [Nat.succ_eq_add_one] at packed
      have bound := packed.bound
      rw [findEmpty_eq (by omega) (by omega) none packed.tail]
      by_cases found : code ∈ held
      · rw [if_pos found, if_pos ((packed.mem_iff code nonzero).mp found)]
        exact ⟨_, packed⟩
      · rw [if_neg found, if_neg (mt (packed.mem_iff code nonzero).mpr found), Option.none_or]
        dsimp only
        by_cases full : remaining + 1 = 6
        · rw [full] at packed ⊢
          rw [if_pos ((packed.tail_eq_head (by decide)).mpr rfl)]
          obtain ⟨none, noHole⟩ | ⟨distance, inside, first, hole, _⟩ :=
            firstEmpty_cases ring.keys ring.cbHead 6
          · rw [none, if_pos (packed.length_held.mpr noHole)]
            have room := packed.makeRoom_none noHole
            exact ⟨_, room.addToTail nonzero fun member => found (List.mem_of_mem_tail member)⟩
          · have notLast : distance ≠ 5 := fun last => packed.last 5 rfl (last ▸ hole)
            have holed : ¬ held.length = 6 := by
              rw [packed.length_held, not_not, Ring.mem_contents]
              exact ⟨distance, inside, hole⟩
            rw [first, if_neg holed]
            obtain ⟨length, room⟩ := packed.makeRoom_some (by omega) hole
            exact ⟨_, room.addToTail nonzero found⟩
        · have short : held.length ≠ 6 := by
            have fewer := List.length_filter_le (fun code => code ≠ 0#8)
              (Ring.contents ring.keys ring.cbHead (remaining + 1))
            rw [packed.codes, Ring.contents_length] at fewer
            omega
          rw [if_neg (mt (packed.tail_eq_head (by omega)).mp full), if_neg short]
          exact ⟨_, (packed.roomy (by omega)).addToTail nonzero found⟩
  · next none =>
      have empty := packed.empty_iff.mp (not_not.mp none)
      subst empty
      obtain rfl : [] = held := packed.codes
      exact ⟨_, (packed.roomy (by decide)).addToTail nonzero (List.not_mem_nil)⟩

/-- What the trimming loop leaves: the same window, without the empty slots at its end. -/
structure Trimmed (ring after : SixKeyRing) (remaining length : Nat) : Prop where
  same : after = { ring with cbTail := Ring.ahead ring.cbHead length }
  shorter : length < remaining
  holes : ∀ distance, length ≤ distance → distance < remaining →
    ring.keys (Ring.ahead ring.cbHead distance) = 0#8
  last : ∀ before, length = before + 1 → ring.keys (Ring.ahead ring.cbHead before) ≠ 0#8

theorem trimTail_trimmed {remaining fuel : Nat} (bound : remaining < 6) (enough : remaining < fuel)
    (tail : ring.cbTail = Ring.ahead ring.cbHead (remaining + 1))
    (hole : ring.keys (Ring.ahead ring.cbHead remaining) = 0#8) :
    ∃ length, Trimmed ring (trimTail fuel ring) (remaining + 1) length := by
  induction remaining generalizing ring fuel with
  | zero =>
      obtain ⟨fuel, rfl⟩ := Nat.exists_eq_succ_of_ne_zero (Nat.ne_of_gt enough)
      have back : roSub ring.cbTail 1 = ring.cbHead := by
        rw [tail, roSub_ahead (by omega) (by decide)]
        rfl
      refine ⟨0, ?_, by omega, fun distance _ before => ?_,
        fun before impossible => absurd impossible (by omega)⟩
      · simp only [trimTail, back, ne_eq, not_true_eq_false, if_false, ite_self]
        rfl
      · rw [show distance = 0 by omega]
        exact hole
  | succ remaining ih =>
      obtain ⟨fuel, rfl⟩ := Nat.exists_eq_succ_of_ne_zero (Nat.ne_of_gt (Nat.zero_lt_of_lt enough))
      have back : roSub ring.cbTail 1 = Ring.ahead ring.cbHead (remaining + 1) := by
        rw [tail, roSub_ahead (by omega) (by decide), Nat.add_sub_cancel]
      have again :
          roSub (Ring.ahead ring.cbHead (remaining + 1)) 1 = Ring.ahead ring.cbHead remaining := by
        rw [roSub_ahead (by omega) (by decide), Nat.add_sub_cancel]
      have apart : Ring.ahead ring.cbHead (remaining + 1) ≠ ring.cbHead := fun meet => by
        have same : Ring.ahead ring.cbHead (remaining + 1) = Ring.ahead ring.cbHead 0 := meet
        have := Ring.ahead_injective bound (by decide) same
        omega
      simp only [trimTail, back, again, ne_eq, apart, not_false_eq_true, if_true]
      split
      · next code =>
          refine ⟨remaining + 1, rfl,
            by omega, fun distance after before => ?_, fun before last => ?_⟩
          · rw [show distance = remaining + 1 by omega]
            exact hole
          · rw [← Nat.succ.inj last]
            exact code
      · next empty =>
          obtain ⟨length, same, shorter, holes, last⟩ :=
            @ih { ring with cbTail := Ring.ahead ring.cbHead (remaining + 1) }
            fuel (by omega) (by omega) rfl (not_not.mp empty)
          refine ⟨length, same, by omega, fun distance after before => ?_, last⟩
          by_cases here : distance = remaining + 1
          · rw [here]
            exact hole
          · exact holes distance after (by omega)

theorem Holding.trimmed {after : SixKeyRing} {remaining : Nat}
    (holding : ring.Holding held remaining)
    (trimmed : Trimmed ring after remaining length) : after.Packed held length := by
  obtain ⟨rfl, shorter, holes, last⟩ := trimmed
  have bound := holding.bound
  refine ⟨⟨by omega, rfl, fun distance after inside => ?_, ?_, holding.nodup, holding.count⟩, last⟩
  · by_cases before : distance < remaining
    · exact holes distance after before
    · exact holding.outside distance (by omega) inside
  · have cleared :
        (Ring.contents ring.keys (Ring.ahead ring.cbHead length) (remaining - length)).filter
        (fun code => code ≠ 0#8) = [] := by
      refine List.filter_eq_nil_iff.mpr fun code member => ?_
      obtain ⟨distance, inside, found⟩ := Ring.mem_contents.mp member
      rw [Ring.ahead_ahead, holes (length + distance) (by omega) (by omega)] at found
      simp [← found]
    have codes := holding.codes
    rw [show remaining = length + (remaining - length)
      by omega, Ring.contents_append, List.filter_append, cleared,
      List.append_nil] at codes
    exact codes

theorem Holding.slots_empty (holding : ring.Holding [] length) (slot : Fin 6) :
    ring.keys slot = 0#8 := by
  obtain ⟨distance, inside, rfl⟩ := Ring.exists_ahead ring.cbHead slot
  by_cases before : distance < length
  · have member :
        ring.keys (Ring.ahead ring.cbHead distance) ∈ Ring.contents ring.keys ring.cbHead length :=
      Ring.mem_contents.mpr ⟨distance, before, rfl⟩
    have dropped := List.filter_eq_nil_iff.mp holding.codes _ member
    simpa using dropped
  · exact holding.outside distance (by omega) inside

theorem filter_ne_middle {before after : List Code} (nodup : (before ++ code :: after).Nodup) :
    (before ++ code :: after).filter (fun other => other ≠ code) = before ++ after := by
  have absent := List.nodup_middle.mp nodup
  rw [List.nodup_cons, List.mem_append, not_or] at absent
  obtain ⟨⟨notBefore, notAfter⟩, _⟩ := absent
  rw [List.filter_append, List.filter_cons, if_neg (by simp)]
  congr 1
  · refine List.filter_eq_self.mpr fun other member => ?_
    have differs : other ≠ code := fun same => notBefore (by rw [← same]; exact member)
    simpa using differs
  · refine List.filter_eq_self.mpr fun other member => ?_
    have differs : other ≠ code := fun same => notAfter (by rw [← same]; exact member)
    simpa using differs

theorem Holding.emptied (holding : ring.Holding held length) {distance : Nat}
    (inside : distance < length)
    (found : ring.keys (Ring.ahead ring.cbHead distance) = code) (nonzero : code ≠ 0#8) :
    Holding { ring with
      keys := Function.update ring.keys (Ring.ahead ring.cbHead distance) 0#8
      cbCount := ring.cbCount - 1 } (held.filter fun other => other ≠ code) length := by
  have bound := holding.bound
  have nodup := holding.nodup
  have count := holding.count
  have whole := holding.codes
  rw [Ring.contents_split inside, found, List.filter_append, List.filter_cons,
    if_pos (by simpa using nonzero)] at whole
  have apart : ∀ other, other < 6 → other ≠ distance →
      Ring.ahead ring.cbHead other ≠ Ring.ahead ring.cbHead distance :=
    fun other otherBound different same =>
      different (Ring.ahead_injective otherBound (by omega) same)
  constructor
  · exact bound
  · exact holding.tail
  · intro other after otherBound
    exact (Function.update_of_ne (apart other otherBound (by omega)) _ _).trans
      (holding.outside other after otherBound)
  · dsimp only
    rw [Ring.contents_split inside, Function.update_self, List.filter_append, List.filter_cons,
      if_neg (by simp),
      Ring.contents_update_outside fun other before => apart other (by omega) (by omega),
      Ring.contents_update_outside fun other before => by
        rw [Ring.ahead_ahead]
        exact apart _ (by omega) (by omega)]
    rw [← whole] at nodup ⊢
    exact (filter_ne_middle nodup).symm
  · exact nodup.filter _
  · dsimp only
    rw [← whole] at nodup count ⊢
    rw [filter_ne_middle nodup, count]
    simp only [List.length_append, List.length_cons]
    omega

theorem Packed.removeAt (packed : ring.Packed held length) {distance : Nat}
    (inside : distance < length)
    (found : ring.keys (Ring.ahead ring.cbHead distance) = code) (nonzero : code ≠ 0#8) :
    ∃ length, (ring.removeAt (Ring.ahead ring.cbHead distance)).Packed
      (held.filter fun other => other ≠ code) length := by
  have emptied := packed.toHolding.emptied inside found nonzero
  have bound := packed.bound
  obtain ⟨remaining, rfl⟩ := Nat.exists_eq_succ_of_ne_zero (show length ≠ 0 by omega)
  rw [Nat.succ_eq_add_one] at *
  generalize without : (held.filter fun other => other ≠ code) = left at emptied ⊢
  unfold SixKeyRing.removeAt
  dsimp only at emptied ⊢
  have hole : Function.update ring.keys (Ring.ahead ring.cbHead distance) 0#8
      (Ring.ahead ring.cbHead distance) = 0#8 :=
    Function.update_self _ _ _
  generalize written : Function.update ring.keys (Ring.ahead ring.cbHead distance) 0#8 = keys
    at emptied hole ⊢
  split
  · next none =>
      obtain rfl : left = [] := by
        have count := emptied.count
        dsimp only at count
        exact List.eq_nil_of_length_eq_zero (by omega)
      have empty := emptied.slots_empty
      dsimp only at empty ⊢
      have around : Holding
          { ring with keys, cbCount := ring.cbCount - 1, cbHead := start, cbTail := start } [] 6 :=
        { bound := by decide, tail := rfl, outside := fun _ _ _ => empty _
          nodup := List.nodup_nil, count := none
          codes := List.filter_eq_nil_iff.mpr fun code member => by
            obtain ⟨distance, _, found⟩ := Ring.mem_contents.mp member
            simp [← found, empty] }
      split
      · obtain ⟨length, trimmed⟩ :=
          @trimTail_trimmed _ 5 6 (by decide) (by decide) around.tail (empty _)
        exact ⟨length, around.trimmed trimmed⟩
      · refine ⟨0, { around with
            bound := by decide
            tail := rfl
            outside := fun _ _ _ => empty _
            codes := rfl
            last := ?_ }⟩
        exact fun before impossible => absurd impossible (by omega)
  · next some =>
      dsimp only
      have tail := packed.tail
      have back : roSub ring.cbTail 1 = Ring.ahead ring.cbHead remaining := by
        rw [tail, roSub_ahead (by omega) (by decide), Nat.add_sub_cancel]
      split
      · next last =>
          have final : distance = remaining :=
            Ring.ahead_injective (by omega) (by omega) (last.trans back)
          rw [final] at hole
          obtain ⟨length, trimmed⟩ :=
            @trimTail_trimmed { ring with keys, cbCount := ring.cbCount - 1 } remaining 6
            (by omega) (by omega) tail hole
          exact ⟨length, emptied.trimmed trimmed⟩
      · next inner =>
          refine ⟨_, { emptied with last := fun before last => ?_ }⟩
          obtain rfl : remaining = before := Nat.succ.inj last
          dsimp only
          rw [← written, Function.update_of_ne fun same => inner (same.symm.trans back.symm)]
          exact packed.last remaining rfl

theorem Packed.delKeyByte (packed : ring.Packed held length)
    (spares : code = 0#8 → 0#8 ∉ ring.window) :
    ∃ length, (ring.delKeyByte code).Packed (held.filter fun other => other ≠ code) length := by
  have unchanged : code ∉ held → held.filter (fun other => other ≠ code) = held := fun absent => by
    refine List.filter_eq_self.mpr fun other member => ?_
    have differs : other ≠ code := fun same => absent (by rw [← same]; exact member)
    simpa using differs
  have held_of_window : code ∉ Ring.contents ring.keys ring.cbHead length → code ∉ held :=
      fun absent member => by
    rw [← packed.codes] at member
    exact absent (List.mem_of_mem_filter member)
  unfold SixKeyRing.delKeyByte
  split
  · next some =>
      obtain ⟨remaining, rfl⟩ := Nat.exists_eq_succ_of_ne_zero (mt packed.empty_iff.mpr some)
      rw [Nat.succ_eq_add_one] at *
      have bound := packed.bound
      obtain ⟨none, absent⟩ | ⟨distance, inside, first, found⟩ :=
        @findCode_cases ring code ring.cbHead remaining 6 (by omega) (by omega) packed.tail
      · rw [none, unchanged (held_of_window absent)]
        exact ⟨_, packed⟩
      · have nonzero : code ≠ 0#8 := fun zero => by
          have absent := spares zero
          rw [SixKeyRing.window, packed.windowLength, Ring.mem_contents] at absent
          exact absent ⟨distance, by omega, found.trans zero⟩
        rw [first]
        exact packed.removeAt (by omega) found nonzero
  · next none =>
      have empty := packed.empty_iff.mp (not_not.mp none)
      subst empty
      rw [unchanged (held_of_window List.not_mem_nil)]
      exact ⟨_, packed⟩

theorem Packed.clearKeys (packed : ring.Packed held length) (empty : ∀ slot, ring.keys slot = 0#8) :
    ring.clearKeys.Packed [] length := by
  obtain rfl : held = [] := by
    rw [← packed.codes]
    refine List.filter_eq_nil_iff.mpr fun code member => ?_
    obtain ⟨distance, _, found⟩ := Ring.mem_contents.mp member
    simp [← found, empty]
  have same : ring.clearKeys = { ring with reserved := 0#8 } := by
    have keys : KeyBytes.empty = ring.keys := funext fun slot => (empty slot).symm
    rw [SixKeyRing.clearKeys, keys]
  rw [same]
  exact ⟨⟨packed.bound, packed.tail, packed.outside, packed.codes, packed.nodup, packed.count⟩,
    packed.last⟩

theorem Holding.around (holding : ring.Holding held length) :
    (Ring.contents ring.keys ring.cbHead 6).filter (fun code => code ≠ 0#8) = held := by
  have bound := holding.bound
  have rest : (Ring.contents ring.keys (Ring.ahead ring.cbHead length) (6 - length)).filter
      (fun code => code ≠ 0#8) = [] := by
    refine List.filter_eq_nil_iff.mpr fun code member => ?_
    obtain ⟨distance, inside, found⟩ := Ring.mem_contents.mp member
    rw [Ring.ahead_ahead, holding.outside (length + distance) (by omega) (by omega)] at found
    simp [← found]
  have split := @Ring.contents_append 6 _ ring.keys ring.cbHead length (6 - length)
  rw [Nat.add_sub_cancel' bound] at split
  rw [split, List.filter_append, holding.codes, rest, List.append_nil]

theorem Holding.countP (holding : ring.Holding held length) :
    (List.finRange 6).countP (fun slot => ring.keys slot ≠ 0#8) = held.length := by
  have around := (Ring.contents_perm ring.keys ring.cbHead).countP_eq fun code => code ≠ 0#8
  rw [List.countP_eq_length_filter, holding.around, List.countP_map] at around
  exact around.symm

theorem Holding.distinct (holding : ring.Holding held length) : ring.keys.Distinct := by
  intro first second same code
  obtain ⟨firstDistance, firstBound, rfl⟩ := Ring.exists_ahead ring.cbHead first
  obtain ⟨secondDistance, secondBound, rfl⟩ := Ring.exists_ahead ring.cbHead second
  have nodup := holding.nodup
  rw [← holding.around, Ring.contents_eq_map, List.filter_map] at nodup
  have filtered : ∀ {distance}, distance < 6 → ring.keys (Ring.ahead ring.cbHead distance) ≠ 0#8 →
      distance ∈ (List.range 6).filter ((fun code => decide (code ≠ 0#8)) ∘ fun distance =>
        ring.keys (Ring.ahead ring.cbHead distance)) := fun bound code =>
    List.mem_filter.mpr ⟨List.mem_range.mpr bound, by simpa using code⟩
  rw [List.inj_on_of_nodup_map nodup (filtered firstBound code)
    (filtered secondBound (same ▸ code)) same]

theorem Holding.inWindow (holding : ring.Holding held length) (slot : Fin 6)
    (code : ring.keys slot ≠ 0#8) :
    ∃ distance, distance < length ∧ slot = Ring.ahead ring.cbHead distance := by
  obtain ⟨distance, inside, rfl⟩ := Ring.exists_ahead ring.cbHead slot
  refine ⟨distance, ?_, rfl⟩
  by_contra outside
  exact code (holding.outside distance (by omega) inside)

end Operations

@[simp] theorem trimTail_keys (fuel : Nat) (ring : SixKeyRing) :
    (trimTail fuel ring).keys = ring.keys := by
  induction fuel generalizing ring with
  | zero => rfl
  | succ fuel ih =>
      unfold trimTail
      dsimp only
      split
      · rfl
      · split
        · exact ih _
        · rfl

@[simp] theorem trimTail_cbCount (fuel : Nat) (ring : SixKeyRing) :
    (trimTail fuel ring).cbCount = ring.cbCount := by
  induction fuel generalizing ring with
  | zero => rfl
  | succ fuel ih =>
      unfold trimTail
      dsimp only
      split
      · rfl
      · split
        · exact ih _
        · rfl

theorem removeAt_keys (ring : SixKeyRing) (i : Fin 6) :
    (ring.removeAt i).keys = Function.update ring.keys i 0#8 := by
  simp only [removeAt]
  split <;> split <;> simp

theorem removeAt_cbCount (ring : SixKeyRing) (i : Fin 6) :
    (ring.removeAt i).cbCount = ring.cbCount - 1 := by
  simp only [removeAt]
  split <;> split <;> simp

/-- In a window with a hole, the code that marks an empty slot is found and counted off. -/
theorem Packed.delKeyByte_hole {held : List Code} {length : Nat} (packed : ring.Packed held length)
    (hole : 0#8 ∈ ring.window) :
    (ring.delKeyByte 0#8).keys = ring.keys ∧ (ring.delKeyByte 0#8).cbCount = ring.cbCount - 1 := by
  rw [SixKeyRing.window, packed.windowLength] at hole
  have nonempty : length ≠ 0 := by
    intro equal
    subst equal
    exact List.not_mem_nil hole
  obtain ⟨remaining, rfl⟩ := Nat.exists_eq_succ_of_ne_zero nonempty
  have bound := packed.bound
  obtain ⟨_, absent⟩ | ⟨distance, _, first, found⟩ :=
    @findCode_cases ring 0#8 ring.cbHead remaining 6 (by omega) (by omega) packed.tail
  · exact absurd hole absent
  · simp only [SixKeyRing.delKeyByte, ne_eq, mt packed.empty_iff.mp nonempty, not_false_eq_true,
      if_true, first]
    refine ⟨?_, removeAt_cbCount _ _⟩
    rw [removeAt_keys, ← found, Function.update_eq_self]

end SixKeyRing

namespace HeldKeys

/-- The invariant: the slots hold the keys, and the window ends with a code. -/
def Kept (keys : HeldKeys) : Prop := ∃ length, keys.ring.Packed keys.held length

variable {keys : HeldKeys}

theorem Kept.represents (kept : keys.Kept) : keys.Represents := by
  obtain ⟨length, packed⟩ := kept
  have holding := packed.toHolding
  have most : keys.held.length ≤ 6 := by
    have fewer := List.length_filter_le (fun code => code ≠ 0#8)
      (Ring.contents keys.ring.keys keys.ring.cbHead 6)
    rw [holding.around, Ring.contents_length] at fewer
    exact fewer
  have count := packed.count
  exact
    { count := by rw [holding.countP, count]
      within := by omega
      inWindow := fun slot code => by
        rw [packed.windowLength]
        exact holding.inWindow slot code
      distinct := holding.distinct
      ordered := packed.window }

theorem Kept.step {call : RingCall} (kept : keys.Kept) (adds : keys.AddsCodes call)
    (spares : keys.SparesCounter call) :
    (keys.step call).Kept := by
  obtain ⟨length, packed⟩ := kept
  cases call with
  | addKey code => exact packed.addKeyByte adds
  | delKey code => exact packed.delKeyByte spares
  | clearKeys => exact ⟨length, packed.clearKeys spares⟩

theorem Kept.spares {call : RingCall} (kept : keys.Kept)
    (represents : (keys.step call).Represents) :
    keys.SparesCounter call := by
  obtain ⟨length, packed⟩ := kept
  have counted := represents.count
  have before := packed.toHolding.countP
  have count := packed.count
  cases call with
  | addKey code => trivial
  | delKey code =>
      intro equal hole
      subst equal
      obtain ⟨same, fewer⟩ := packed.delKeyByte_hole hole
      simp only [HeldKeys.step, same, fewer] at counted
      omega
  | clearKeys =>
      have cleared : keys.ring.cbCount = 0 := counted
      have none : keys.held = [] := List.eq_nil_of_length_eq_zero (by omega)
      rw [none] at packed
      exact packed.toHolding.slots_empty

/-- The ring represents the last six keys that are held in exactly the runs that clear them and
delete the code of an empty slot only while there are none. -/
theorem represents_iff {calls : List RingCall} (adds : Guarded step AddsCodes reset calls) :
    Throughout step Represents reset calls ↔ Guarded step SparesCounter reset calls :=
  throughout_iff_guarded (fun _ => Kept.represents) (fun _ _ => Kept.step)
    (fun _ _ kept _ => kept.spares)
    ⟨0, SixKeyRing.reset_packed⟩ adds

/-- Seven keys, of which the third has been released when the seventh comes. -/
def sevenKeys : List RingCall :=
  [.addKey 4#8, .addKey 5#8, .addKey 6#8, .addKey 7#8, .addKey 8#8, .addKey 9#8, .delKey 6#8,
    .addKey 10#8]

theorem represents_sevenKeys :
    Guarded step AddsCodes reset sevenKeys ∧ Throughout step Represents reset sevenKeys :=
  ⟨by decide, (represents_iff (by decide)).mpr (by decide)⟩

/-- Clearing a held key leaves the counter at one. -/
theorem represents_fails_cleared : ¬ Throughout step Represents reset [.addKey 4#8, .clearKeys] :=
  fun represents =>
  absurd represents.last.count (by decide)

end HeldKeys

end BleKeyboard.Tmk
