import BleKeyboard.Data.Machine
import BleKeyboard.Tmk.Overflow
import Mathlib.Data.List.Pairwise

namespace BleKeyboard.Tmk

open BleKeyboard.Data

section Arrivals

variable {α : Type*} {arrived : List α} {event last : α} {index : Nat}

theorem getElem?_grow (found : arrived[index]? = some event) (last : α) :
    (arrived ++ [last])[index]? = some event := by
  rw [List.getElem?_append_left (List.getElem?_eq_some_iff.mp found).1]
  exact found

theorem getElem?_shrink (found : (arrived ++ [last])[index]? = some event)
    (old : index < arrived.length) :
    arrived[index]? = some event := by
  rw [List.getElem?_append_left old] at found
  exact found

theorem getElem?_last (found : (arrived ++ [last])[index]? = some event) :
    arrived[index]? = some event ∨ index = arrived.length ∧ event = last := by
  have bound := (List.getElem?_eq_some_iff.mp found).1
  rw [List.length_append, List.length_singleton] at bound
  by_cases old : index < arrived.length
  · exact .inl (getElem?_shrink found old)
  · obtain rfl : index = arrived.length := by omega
    rw [List.getElem?_concat_length] at found
    exact .inr ⟨rfl, (Option.some.inj found).symm⟩

end Arrivals

def KeyEvent.IsInput (event : KeyEvent) : Prop := event.isNoEvent = false ∨ event = .tick event.time

instance (event : KeyEvent) : Decidable event.IsInput := inferInstanceAs (Decidable (_ ∨ _))

namespace Handover

/-- The call hands over the release of a key that was pressed before the pending tap began. -/
def EarlyRelease (arrived : List KeyEvent) (handover : Handover) : Prop :=
  handover.pending.event.isNoEvent = false ∧ handover.pending.event.pressed = true ∧
    handover.pending.tap.count = 0 ∧
    handover.record.event.pressed = false ∧
    ∀ k event, handover.pending.arrival ≤ k → k < handover.record.arrival →
    arrived[k]? = some event →
      event.key = handover.record.event.key → event.pressed = false

/-- Every edge that arrived before the one handed over has been handed over already, but for those
that arrived since the pending tap began when the call is an early release. -/
def InTurn (arrived : List KeyEvent) (before : List Handover) (handover : Handover) : Prop :=
  handover.record.arrival < arrived.length ∧
    ∀ k event, k < handover.record.arrival → arrived[k]? = some event → event.isNoEvent = false →
      (∃ earlier ∈ before, earlier.record.event.isNoEvent = false ∧ earlier.record.arrival = k) ∨
        handover.EarlyRelease arrived ∧ handover.pending.arrival ≤ k

end Handover

namespace Engine

def Handed (engine : Engine) (k : Nat) : Prop :=
  ∃ handover ∈ engine.acted, handover.record.event.isNoEvent = false ∧ handover.record.arrival = k

def InOrder (engine : Engine) : Prop :=
  ∀ before handover after, engine.acted = before ++ handover :: after →
    handover.record.event.isNoEvent = false →
    handover.InTurn engine.arrived before

/-- Edges are handed over in order, and the buffer is empty whenever no tap is pending. -/
def Orderly (engine : Engine) : Prop :=
  engine.InOrder ∧ (engine.isTapping = false → engine.waitingBuffer = [])

/-- What is owed to `process_action`, the records of
`waiting` and an undecided tapping key, is in order. -/
structure Arranged (engine : Engine) (waiting : List KeyRecord) : Prop where
  sorted : (waiting.map KeyRecord.arrival).Pairwise (· < ·)
  stamped : ∀ record ∈ waiting, engine.arrived[record.arrival]? = some record.event ∧
    record.event.isNoEvent = false
  fresh : ∀ record ∈ waiting, record.event.pressed = true → record.tap = Tap.zero
  pending : engine.isTapping = true →
    engine.arrived[engine.tappingKey.arrival]? = some engine.tappingKey.event ∧
    ∀ record ∈ waiting, engine.tappingKey.arrival < record.arrival
  kept : ∀ k event, engine.arrived[k]? = some event → event.isNoEvent = false →
    engine.Handed k ∨ (∃ record ∈ waiting, record.arrival = k) ∨ engine.Undecided ∧
    engine.tappingKey.arrival = k
  closed : ∀ k event, engine.arrived[k]? = some event → event.pressed = true →
    (engine.Undecided ∧ engine.tappingKey.arrival < k ∨ ∃ record ∈ waiting, record.arrival < k) →
    ∃ record ∈ waiting, record.arrival = k
  order : engine.InOrder

def SameEdge (first second : KeyRecord) : Prop :=
  first.arrival = second.arrival ∧ first.event = second.event

variable {keymap : Keymap} {engine next : Engine} {record : KeyRecord}
    {waiting pre post : List KeyRecord}

theorem InOrder.append {handover : Handover} (order : engine.InOrder)
    (arrived : next.arrived = engine.arrived) (acted : next.acted = engine.acted ++ [handover])
    (turn : handover.record.event.isNoEvent = false → handover.InTurn engine.arrived engine.acted) :
      next.InOrder := by
  intro before other after split real
  rw [arrived]
  rw [acted] at split
  cases after using List.reverseRecOn with
  | nil =>
      obtain ⟨rfl, same⟩ := List.append_inj' split rfl
      cases same
      exact turn real
  | append_singleton after last =>
      have shorter : engine.acted = before ++ other :: after := by
        have whole : engine.acted ++ [handover] = (before ++ other :: after) ++ [last] := by
          simpa using split
        exact (List.append_inj' whole rfl).1
      exact order before other after shorter real

theorem isTapping_of_undecided (undecided : engine.Undecided) : engine.isTapping = true := by
  have pressed := undecided.1
  simp only [isTappingPressed, Bool.and_eq_true] at pressed
  exact pressed.1

theorem isTapping_of_held (held : engine.TapHeld) : engine.isTapping = true := by
  have pressed := held.1
  simp only [isTappingPressed, Bool.and_eq_true] at pressed
  exact pressed.1

theorem isTapping_of_released (released : engine.isTappingReleased = true) :
    engine.isTapping = true := by
  simp only [isTappingReleased, Bool.and_eq_true] at released
  exact released.1

theorem tappingKey_pressed (undecided : engine.Undecided) :
    engine.tappingKey.event.pressed = true := by
  have pressed := undecided.1
  simp only [isTappingPressed, Bool.and_eq_true] at pressed
  exact pressed.2

theorem tappingKey_real (tapping : engine.isTapping = true) :
    engine.tappingKey.event.isNoEvent = false := by
  simpa [isTapping] using tapping

theorem not_undecided_of_idle (idle : engine.isTapping = false) : ¬ engine.Undecided :=
  fun undecided => by
  rw [isTapping_of_undecided undecided] at idle
  contradiction

theorem not_undecided_of_held (held : engine.TapHeld) : ¬ engine.Undecided := fun undecided => by
  have count := undecided.2
  have positive := held.2
  omega

theorem not_undecided_of_released (released : engine.isTappingReleased = true) :
    ¬ engine.Undecided := fun undecided => by
  have pressed := tappingKey_pressed undecided
  simp [isTappingReleased, pressed] at released

theorem not_released_of_pressed (pressed : engine.isTappingPressed = true) :
    ¬ engine.isTappingReleased = true := by
  intro released
  simp only [isTappingPressed, isTappingReleased, Bool.and_eq_true, Bool.not_eq_true']
    at pressed released
  rw [pressed.2] at released
  cases released.2

theorem Handed.grow {k : Nat} {more : List Handover} (handed : engine.Handed k)
    (acted : next.acted = engine.acted ++ more) : next.Handed k := by
  obtain ⟨handover, member, real, arrival⟩ := handed
  exact ⟨handover, by rw [acted]; exact List.mem_append_left _ member, real, arrival⟩

theorem Handed.last {handover : Handover} (acted : next.acted = engine.acted ++ [handover])
    (real : handover.record.event.isNoEvent = false) : next.Handed handover.record.arrival :=
  ⟨handover, by simp [acted], real, rfl⟩

namespace Arranged

theorem bound (arranged : engine.Arranged waiting) (member : record ∈ waiting) :
    record.arrival < engine.arrived.length := by
  have stamp := (arranged.stamped record member).1
  rw [List.getElem?_eq_some_iff] at stamp
  exact stamp.1

theorem handed_before_tapping (arranged : engine.Arranged waiting)
    (undecided : engine.Undecided) {k : Nat}
    {event : KeyEvent} (before : k < engine.tappingKey.arrival)
    (at' : engine.arrived[k]? = some event) (real : event.isNoEvent = false) : engine.Handed k := by
  obtain ⟨-, behind⟩ := arranged.pending (isTapping_of_undecided undecided)
  obtain handed | ⟨record, member, arrival⟩ | ⟨_, arrival⟩ := arranged.kept k event at' real
  · exact handed
  · have later := behind record member
    omega
  · omega

theorem handed_before_head (arranged : engine.Arranged (record :: post))
    (settled : ¬ engine.Undecided) {k : Nat}
    {event : KeyEvent} (before : k < record.arrival) (at' : engine.arrived[k]? = some event)
    (real : event.isNoEvent = false) : engine.Handed k := by
  obtain handed | ⟨other, member, arrival⟩ | ⟨undecided, _⟩ := arranged.kept k event at' real
  · exact handed
  · have sorted := arranged.sorted
    simp only [List.map_cons, List.pairwise_cons, List.mem_map, forall_exists_index, and_imp,
      forall_apply_eq_imp_iff₂] at sorted
    cases List.mem_cons.mp member with
    | inl same =>
        rw [same] at arrival
        omega
    | inr inside =>
        have later := sorted.1 other inside
        omega
  · exact absurd undecided settled

theorem restamp {other : List KeyRecord} (arranged : engine.Arranged waiting)
    {buffer : List KeyRecord} (same : other.map KeyRecord.stamp = waiting.map KeyRecord.stamp) :
    ({ engine with waitingBuffer := buffer } : Engine).Arranged other := by
  exact
    { sorted := by rw [KeyRecord.arrivals_of_stamps same]; exact arranged.sorted
      stamped := by
        intro record member
        obtain ⟨original, inside, arrival, event, _⟩ := KeyRecord.twin same member
        rw [← arrival, ← event]
        exact arranged.stamped original inside
      fresh := by
        intro record member pressed
        obtain ⟨original, inside, _, _, press⟩ := KeyRecord.twin same member
        obtain rfl := press pressed
        exact arranged.fresh original inside pressed
      pending := by
        intro tapping
        obtain ⟨at', behind⟩ := arranged.pending tapping
        refine ⟨at', ?_⟩
        intro record member
        obtain ⟨original, inside, arrival, _⟩ := KeyRecord.twin same member
        rw [← arrival]
        exact behind original inside
      kept := by
        intro k event at' real
        obtain handed | ⟨record, member, arrival⟩ | undecided := arranged.kept k event at' real
        · exact .inl handed
        · obtain ⟨copy, inside, arrives, _⟩ := KeyRecord.twin same.symm member
          exact .inr (.inl ⟨copy, inside, arrives.trans arrival⟩)
        · exact .inr (.inr undecided)
      closed := by
        intro k event at' pressed earlier
        have found := arranged.closed k event at' pressed (earlier.imp_right (by
          intro given
          rcases given with ⟨record, member, before⟩
          obtain ⟨original, inside, arrival, _⟩ := KeyRecord.twin same member
          exact ⟨original, inside, by rw [arrival]; exact before⟩))
        obtain ⟨record, member, arrival⟩ := found
        obtain ⟨copy, inside, arrives, _⟩ := KeyRecord.twin same.symm member
        exact ⟨copy, inside, arrives.trans arrival⟩
      order := arranged.order }

theorem settle (arranged : engine.Arranged waiting) (undecided : engine.Undecided)
    {handover : Handover}
    (arrived : next.arrived = engine.arrived) (acted : next.acted = engine.acted ++ [handover])
    (own : SameEdge handover.record engine.tappingKey)
    (after : next.isTapping = false ∨ SameEdge next.tappingKey engine.tappingKey) :
      next.Arranged waiting := by
  have tapping := isTapping_of_undecided undecided
  obtain ⟨at', behind⟩ := arranged.pending tapping
  have real : handover.record.event.isNoEvent = false := by
    rw [own.2]
    exact tappingKey_real tapping
  exact
    { sorted := arranged.sorted
      stamped := by
        rw [arrived]
        exact arranged.stamped
      fresh := arranged.fresh
      pending := by
        intro still
        rw [arrived]
        obtain idle | same := after
        · rw [idle] at still
          contradiction
        · rw [same.1, same.2]
          exact ⟨at', behind⟩
      kept := by
        intro k event place edge
        rw [arrived] at place
        obtain handed | member | ⟨_, arrival⟩ := arranged.kept k event place edge
        · exact .inl (handed.grow acted)
        · exact .inr (.inl member)
        · refine .inl ?_
          rw [← arrival, ← own.1]
          exact Handed.last acted real
      closed := by
        intro k event place pressed earlier
        rw [arrived] at place
        refine arranged.closed k event place pressed (earlier.imp_left ?_)
        intro given
        rcases given with ⟨open', before⟩
        obtain idle | same := after
        · exact absurd open' (not_undecided_of_idle idle)
        · rw [same.1] at before
          exact ⟨undecided, before⟩
      order := by
        refine arranged.order.append arrived acted fun _ => ⟨?_, ?_⟩
        · rw [own.1]
          exact (List.getElem?_eq_some_iff.mp at').1
        · intro k event before place edge
          rw [own.1] at before
          exact .inl (arranged.handed_before_tapping undecided before place edge) }

theorem take (arranged : engine.Arranged (record :: post)) (settled : ¬ engine.Undecided)
    {more : List Handover}
    (arrived : next.arrived = engine.arrived) (acted : next.acted = engine.acted ++ more)
    (order : next.InOrder)
    (taken : next.Handed record.arrival ∨ next.Undecided ∧ next.tappingKey.arrival = record.arrival)
    (tapping : next.isTapping = false ∨ SameEdge next.tappingKey record ∨
      engine.isTapping = true ∧ SameEdge next.tappingKey engine.tappingKey ∧ ¬ next.Undecided) :
    next.Arranged post := by
  have sorted := arranged.sorted
  simp only [List.map_cons, List.pairwise_cons, List.mem_map, forall_exists_index, and_imp,
    forall_apply_eq_imp_iff₂] at sorted
  exact
    { sorted := sorted.2
      stamped := by
        rw [arrived]
        exact fun other member => arranged.stamped other (List.mem_cons_of_mem _ member)
      fresh := fun other member => arranged.fresh other (List.mem_cons_of_mem _ member)
      pending := by
        intro still
        rw [arrived]
        obtain idle | same | ⟨before, same, _⟩ := tapping
        · rw [idle] at still
          contradiction
        · rw [same.1, same.2]
          exact ⟨(arranged.stamped record (by simp)).1, sorted.1⟩
        · obtain ⟨at', behind⟩ := arranged.pending before
          rw [same.1, same.2]
          exact ⟨at', fun other member => behind other (List.mem_cons_of_mem _ member)⟩
      kept := by
        intro k event place edge
        rw [arrived] at place
        obtain handed | ⟨other, member, arrival⟩ | ⟨undecided, _⟩ :=
          arranged.kept k event place edge
        · exact .inl (handed.grow acted)
        · cases List.mem_cons.mp member with
          | inl same =>
              rw [← arrival, same]
              exact taken.imp_right .inr
          | inr inside => exact .inr (.inl ⟨other, inside, arrival⟩)
        · exact absurd undecided settled
      closed := by
        intro k event place pressed earlier
        rw [arrived] at place
        have since : record.arrival < k := by
          obtain ⟨open', before⟩ | ⟨other, member, before⟩ := earlier
          · obtain idle | same | ⟨_, _, closed⟩ := tapping
            · exact absurd open' (not_undecided_of_idle idle)
            · rw [same.1] at before
              exact before
            · exact absurd open' closed
          · exact Nat.lt_trans (sorted.1 other member) before
        obtain ⟨other, member, arrival⟩ :=
          arranged.closed k event place pressed (.inr ⟨record, by simp, since⟩)
        cases List.mem_cons.mp member with
        | inl same =>
            rw [same] at arrival
            omega
        | inr inside => exact ⟨other, inside, arrival⟩
      order }

theorem head_inTurn (arranged : engine.Arranged (record :: post)) (settled : ¬ engine.Undecided)
    {handover : Handover} (own : handover.record.arrival = record.arrival) :
      handover.InTurn engine.arrived engine.acted := by
  refine ⟨by rw [own]; exact arranged.bound (by simp), ?_⟩
  intro k event before place edge
  rw [own] at before
  exact .inl (arranged.handed_before_head settled before place edge)

theorem mem_before (arranged : engine.Arranged (pre ++ record :: post)) {other : KeyRecord}
    (member : other ∈ pre ++ record :: post) (earlier : other.arrival < record.arrival) :
      other ∈ pre := by
  have sorted := arranged.sorted
  simp only [List.map_append, List.map_cons, List.pairwise_append, List.pairwise_cons, List.mem_map,
    forall_exists_index, and_imp, forall_apply_eq_imp_iff₂] at sorted
  have place : other ∈ pre ∨ other = record ∨ other ∈ post := by simpa using member
  obtain inside | rfl | inside := place
  · exact inside
  · omega
  · have later := sorted.2.1.1 other inside
    omega

theorem early_quiet (arranged : engine.Arranged (pre ++ record :: post))
    (undecided : engine.Undecided)
    (seen : ∀ other ∈ pre, other ∈ engine.waitingBuffer) (released : record.event.pressed = false)
    (other : ¬ engine.OwnRelease record.event)
    (fresh : engine.waitingBufferTyped record.event = false) {j : Nat}
    {event : KeyEvent} (since : engine.tappingKey.arrival ≤ j) (until' : j < record.arrival)
    (place : engine.arrived[j]? = some event) (key : event.key = record.event.key) :
      event.pressed = false := by
  have tapping := isTapping_of_undecided undecided
  obtain ⟨at', _⟩ := arranged.pending tapping
  cases pressed : event.pressed with
  | false => rfl
  | true =>
      obtain start | later := Nat.eq_or_lt_of_le since
      · rw [← start, at'] at place
        cases place
        exact absurd ⟨by simp [isTappingKey, tapping, key], released⟩ other
      · obtain ⟨waiting, member, arrival⟩ :=
          arranged.closed j event place pressed (.inl ⟨undecided, later⟩)
        have inside := seen waiting (arranged.mem_before member (by omega))
        have stamped := (arranged.stamped waiting member).1
        rw [arrival, place] at stamped
        have typed : engine.waitingBufferTyped record.event = true := by
          simp only [waitingBufferTyped, List.any_eq_true]
          refine ⟨waiting, inside, ?_⟩
          rw [← Option.some.inj stamped]
          simp [key, pressed, released]
        rw [typed] at fresh
        contradiction

theorem early_inTurn (arranged : engine.Arranged (pre ++ record :: post))
    (undecided : engine.Undecided)
    (seen : ∀ other ∈ pre, other ∈ engine.waitingBuffer) (released : record.event.pressed = false)
    (other : ¬ engine.OwnRelease record.event)
    (fresh : engine.waitingBufferTyped record.event = false) :
    Handover.InTurn engine.arrived engine.acted { record, pending := engine.tappingKey } := by
  have tapping := isTapping_of_undecided undecided
  obtain ⟨_, behind⟩ := arranged.pending tapping
  have early : Handover.EarlyRelease engine.arrived { record, pending := engine.tappingKey } :=
    ⟨tappingKey_real tapping, tappingKey_pressed undecided, undecided.2, released,
      fun _ _ since until' place key => arranged.early_quiet undecided seen released other fresh
        since until' place key⟩
  refine ⟨arranged.bound (by simp), ?_⟩
  intro k event earlier place edge
  obtain handed | ⟨waiting, member, arrival⟩ | ⟨_, arrival⟩ := arranged.kept k event place edge
  · exact .inl handed
  · have since := behind waiting member
    exact .inr ⟨early, by dsimp only; omega⟩
  · exact .inr ⟨early, by dsimp only; omega⟩

theorem early (arranged : engine.Arranged (pre ++ record :: post)) (undecided : engine.Undecided)
    (seen : ∀ other ∈ pre, other ∈ engine.waitingBuffer) (released : record.event.pressed = false)
    (other : ¬ engine.OwnRelease record.event)
    (fresh : engine.waitingBufferTyped record.event = false) :
    (engine.processAction keymap record).Arranged (pre ++ post) := by
  have tapping := isTapping_of_undecided undecided
  obtain ⟨at', behind⟩ := arranged.pending tapping
  have stamp := arranged.stamped record (by simp)
  have sublist : (pre ++ post).Sublist (pre ++ record :: post) :=
    (List.Sublist.refl pre).append (List.sublist_cons_self record post)
  have acted : (engine.processAction keymap record).acted =
    engine.acted ++ [{ record, pending := engine.tappingKey }] := rfl
  have apart : ∀ k event, engine.arrived[k]? = some event → event.pressed = true →
      k ≠ record.arrival := by
    intro k event place pressed equal
    subst equal
    rw [stamp.1] at place
    cases place
    rw [released] at pressed
    contradiction
  have rest : ∀ k, k ≠ record.arrival → (∃ waiting ∈ pre ++ record :: post, waiting.arrival = k) →
      ∃ waiting ∈ pre ++ post, waiting.arrival = k := by
    intro k elsewhere given
    rcases given with ⟨waiting, member, arrival⟩
    have place : waiting ∈ pre ∨ waiting = record ∨ waiting ∈ post := by simpa using member
    obtain inside | rfl | inside := place
    · exact ⟨waiting, List.mem_append_left _ inside, arrival⟩
    · exact absurd arrival.symm elsewhere
    · exact ⟨waiting, List.mem_append_right _ inside, arrival⟩
  exact
    { sorted := arranged.sorted.sublist (sublist.map _)
      stamped := fun waiting member => arranged.stamped waiting (sublist.subset member)
      fresh := fun waiting member => arranged.fresh waiting (sublist.subset member)
      pending := fun _ => ⟨at', fun waiting member => behind waiting (sublist.subset member)⟩
      kept := by
        intro k event place edge
        obtain handed | member | undecided := arranged.kept k event place edge
        · exact .inl (handed.grow acted)
        · by_cases same : k = record.arrival
          · rw [same]
            exact .inl (Handed.last acted stamp.2)
          · exact .inr (.inl (rest k same member))
        · exact .inr (.inr undecided)
      closed := by
        intro k event place pressed earlier
        refine rest k (apart k event place pressed)
          (arranged.closed k event place pressed (earlier.imp_right ?_))
        intro given
        rcases given with ⟨waiting, member, arrival⟩
        exact ⟨waiting, sublist.subset member, arrival⟩
      order := arranged.order.append rfl acted fun _ => arranged.early_inTurn undecided seen
        released other fresh }

theorem interrupt (arranged : engine.Arranged waiting) :
    (engine.setTappingKey engine.tappingKey.setInterrupted).Arranged waiting :=
  ⟨arranged.sorted, arranged.stamped, arranged.fresh, arranged.pending, arranged.kept,
    arranged.closed, arranged.order⟩

theorem giveUp (arranged : engine.Arranged waiting) (settled : ¬ engine.Undecided) :
    (engine.setTappingKey KeyRecord.none).Arranged waiting where
  sorted := arranged.sorted
  stamped := arranged.stamped
  fresh := arranged.fresh
  pending tapping := by simp at tapping
  kept k event place edge := by
    obtain handed | member | ⟨undecided, _⟩ := arranged.kept k event place edge
    · exact .inl handed
    · exact .inr (.inl member)
    · exact absurd undecided settled
  closed k event place pressed earlier := by
    obtain ⟨undecided, _⟩ | member := earlier
    · exact absurd undecided (not_undecided_of_idle isTapping_none)
    · exact arranged.closed k event place pressed (.inr member)
  order := arranged.order

theorem handTick (arranged : engine.Arranged waiting) (tick : record.event.isNoEvent = true) :
    (engine.processAction keymap record).Arranged waiting where
  sorted := arranged.sorted
  stamped := arranged.stamped
  fresh := arranged.fresh
  pending := arranged.pending
  kept k event place edge :=
    (arranged.kept k event place edge).imp_left (fun handed => handed.grow rfl)
  closed := arranged.closed
  order := arranged.order.append rfl rfl fun real => by
    rw [tick] at real
    contradiction

theorem handHead (arranged : engine.Arranged (record :: post)) (settled : ¬ engine.Undecided)
    (handed : KeyRecord) (own : SameEdge handed record) (arrived : next.arrived = engine.arrived)
    (acted : ∃ pending, next.acted = engine.acted ++ [{ record := handed, pending }])
    (tapping : next.isTapping = false ∨ SameEdge next.tappingKey record ∨
      engine.isTapping = true ∧ SameEdge next.tappingKey engine.tappingKey ∧ ¬ next.Undecided) :
    next.Arranged post := by
  obtain ⟨pending, acted⟩ := acted
  have real : handed.event.isNoEvent = false := by
    rw [own.2]
    exact (arranged.stamped record (by simp)).2
  refine arranged.take settled arrived acted ?_ (.inl ?_) tapping
  · exact arranged.order.append arrived acted fun _ => arranged.head_inTurn settled own.1
  · rw [← own.1]
    exact Handed.last acted real

theorem undecided_of_press (real : record.event.isNoEvent = false)
    (pressed : record.event.pressed = true)
    (fresh : record.tap = Tap.zero) : (engine.setTappingKey record).Undecided :=
  ⟨by simp [isTappingPressed, isTapping, real, pressed], by simp [fresh, Tap.zero]⟩

theorem setTappingKey (arranged : engine.Arranged (record :: post)) (settled : ¬ engine.Undecided)
    (pressed : record.event.pressed = true) : (engine.setTappingKey record).Arranged post := by
  have undecided : (engine.setTappingKey record).Undecided :=
    undecided_of_press (arranged.stamped record (by simp)).2 pressed
      (arranged.fresh record (by simp) pressed)
  exact arranged.take settled rfl (List.append_nil _).symm arranged.order (.inr ⟨undecided, rfl⟩)
    (.inr (.inl ⟨rfl, rfl⟩))

theorem startTapping (arranged : engine.Arranged (record :: post)) (settled : ¬ engine.Undecided)
    (pressed : record.event.pressed = true) :
      (engine.startTapping keymap record).Arranged post := by
  have fresh := arranged.fresh record (by simp) pressed
  have made := arranged.setTappingKey settled pressed
  have undecided : (engine.setTappingKey record).Undecided :=
    undecided_of_press (arranged.stamped record (by simp)).2 pressed fresh
  have started := startTapping_started keymap engine record
  generalize engine.startTapping keymap record = after at started
  cases started with
  | settled done =>
      obtain tapped | released := done
      · exact absurd (by simp [fresh, Tap.zero]) tapped
      · rw [pressed] at released
        contradiction
  | pending => exact made
  | tapped =>
      exact made.settle undecided rfl rfl ⟨rfl, rfl⟩ (.inr (by simp [SameEdge, KeyRecord.setCount]))

theorem releaseLastTap (arranged : engine.Arranged (record :: post)) (held : engine.TapHeld)
    (keymap : Keymap) (time : BitVec 16) :
    (engine.releaseLastTap keymap time).Arranged (record :: post) := by
  obtain ⟨at', behind⟩ := arranged.pending (isTapping_of_held held)
  unfold Engine.releaseLastTap
  split
  · exact
      { arranged with
        kept := fun k event place edge => (arranged.kept k event place edge).imp_left
          (fun handed => handed.grow rfl)
        order := by
          refine arranged.order.append rfl rfl fun _ => ⟨(List.getElem?_eq_some_iff.mp at').1, ?_⟩
          intro k event before place edge
          have earlier := behind record (by simp)
          exact .inl (arranged.handed_before_head (not_undecided_of_held held)
            (Nat.lt_trans before earlier) place edge) }
  · exact arranged

/-- One call of `process_tapping` on a waiting record: the
oldest one, or any while a tap is undecided. -/
theorem call (arranged : engine.Arranged (pre ++ record :: post)) (keymap : Keymap)
    (turn : pre = [] ∨ engine.Undecided) (seen : ∀ other ∈ pre, other ∈ engine.waitingBuffer) :
    (engine.processTapping keymap record).engine.Arranged
      (if (engine.processTapping keymap record).handled then pre ++ post
        else pre ++ record :: post) := by
  have first : ¬ engine.Undecided → pre = [] := fun settled => turn.resolve_right settled
  have outcome := processTapping_outcome keymap engine record
  generalize engine.processTapping keymap record = processed at outcome
  cases outcome with
  | firstTap undecided =>
      exact arranged.settle undecided rfl rfl
        ⟨rfl, rfl⟩ (.inr (by simp [SameEdge, Engine.firstTap, KeyRecord.setCount]))
  | retained | wait => exact arranged
  | early undecided within other real released fresh =>
      exact arranged.early undecided seen released other fresh
  | interrupt => exact arranged.interrupt
  | timeout undecided => exact arranged.settle undecided rfl rfl ⟨rfl, rfl⟩ (.inl rfl)
  | tapRelease held own =>
      have settled := not_undecided_of_held held
      obtain rfl := first settled
      refine arranged.handHead settled { record with tap := engine.tappingKey.tap }
        ⟨rfl, rfl⟩ rfl ⟨_, rfl⟩ ?_
      split
      · exact .inr (.inl ⟨rfl, rfl⟩)
      · exact .inl rfl
  | restart held pressed =>
      have settled := not_undecided_of_held held
      obtain rfl := first settled
      have released := arranged.releaseLastTap held keymap record.event.time
      refine released.startTapping ?_ pressed
      unfold Engine.releaseLastTap
      split <;> exact settled
  | typing held =>
      have settled := not_undecided_of_held held
      obtain rfl := first settled
      exact arranged.handHead settled record ⟨rfl, rfl⟩ rfl
        ⟨_, rfl⟩ (.inr (.inr ⟨isTapping_of_held held, ⟨rfl, rfl⟩, settled⟩))
  | sequential released =>
      have settled := not_undecided_of_released released
      obtain rfl := first settled
      exact arranged.handHead settled (engine.sequential record) ⟨rfl, rfl⟩ rfl
        ⟨_, rfl⟩ (.inr (.inl ⟨rfl, rfl⟩))
  | again released within pressed =>
      have settled := not_undecided_of_released released
      obtain rfl := first settled
      exact arranged.setTappingKey settled pressed
  | interfere released within pressed =>
      have settled := not_undecided_of_released released
      obtain rfl := first settled
      exact arranged.startTapping settled pressed
  | spend released =>
      have settled := not_undecided_of_released released
      obtain rfl := first settled
      exact arranged.handHead settled record ⟨rfl, rfl⟩ rfl ⟨_, rfl⟩
        (.inr (.inr ⟨isTapping_of_released released, ⟨rfl, rfl⟩,
          not_undecided_of_released released⟩))
  | after released =>
      have settled := not_undecided_of_released released
      obtain rfl := first settled
      exact arranged.handHead settled record ⟨rfl, rfl⟩ rfl ⟨_, rfl⟩
        (.inr (.inr ⟨isTapping_of_released released, ⟨rfl, rfl⟩, settled⟩))
  | expire released => exact arranged.giveUp (not_undecided_of_released released)
  | start idle pressed =>
      have settled := not_undecided_of_idle idle
      obtain rfl := first settled
      exact arranged.startTapping settled pressed
  | direct idle =>
      have settled := not_undecided_of_idle idle
      obtain rfl := first settled
      exact arranged.handHead settled record ⟨rfl, rfl⟩ rfl ⟨_, rfl⟩ (.inl idle)

theorem tick (arranged : engine.Arranged waiting) (keymap : Keymap)
    (tick : record.event = .tick record.event.time) :
    (engine.processTapping keymap record).engine.Arranged waiting ∧
      (engine.processTapping keymap record).record.event.isNoEvent = true := by
  have noEvent : record.event.isNoEvent = true := by
    rw [tick]
    exact KeyEvent.isNoEvent_tick _
  have released : record.event.pressed = false := by
    rw [tick]
    rfl
  have key : record.event.key = KeyEvent.tickKey := by
    rw [tick]
    rfl
  have foreign : engine.isTappingKey record.event.key = false := by
    cases tapping : engine.isTapping with
    | false => simp [isTappingKey, tapping]
    | true =>
        have real := tappingKey_real tapping
        simp only [KeyEvent.isNoEvent, Bool.or_eq_false_iff, decide_eq_false_iff_not] at real
        simp [isTappingKey, key, real.2]
  have outcome := processTapping_outcome keymap engine record
  generalize engine.processTapping keymap record = processed at outcome
  cases outcome with
  | firstTap undecided within own | tapRelease held own =>
      have absurdity := own.1
      rw [foreign] at absurdity
      contradiction
  | retained undecided within other real | early undecided within other real =>
      rw [noEvent] at real
      contradiction
  | wait => exact ⟨arranged, noEvent⟩
  | timeout undecided => exact ⟨arranged.settle undecided rfl rfl ⟨rfl, rfl⟩ (.inl rfl), noEvent⟩
  | typing | after | direct =>
      exact ⟨arranged.handTick noEvent, by simpa [handDirectly] using noEvent⟩
  | expire settled => exact ⟨arranged.giveUp (not_undecided_of_released settled), noEvent⟩
  | interrupt _ _ pressed | restart _ pressed | sequential _ _ pressed | again _ _ pressed
  | interfere _ _ pressed
  | spend _ _ pressed | start _ pressed =>
      rw [released] at pressed
      contradiction

end Arranged

theorem InOrder.note (order : engine.InOrder) (event : KeyEvent) : (engine.note event).InOrder := by
  intro before handover after split real
  obtain ⟨bound, turn⟩ := order before handover after split real
  have old : ∀ k event', k < handover.record.arrival →
      (engine.arrived ++ [event])[k]? = some event' →
      engine.arrived[k]? = some event' := fun _ _ earlier place => getElem?_shrink place (by omega)
  refine ⟨by simp only [note_arrived, List.length_append]; omega, ?_⟩
  intro k event' earlier place edge
  obtain handed | ⟨⟨pending, pressed, count, released, quiet⟩, since⟩ :=
    turn k event' earlier (old k event' earlier place) edge
  · exact .inl handed
  · exact .inr ⟨⟨pending, pressed, count, released, fun j event'' from' until' place' =>
      quiet j event'' from' until' (old j event'' until' place')⟩, since⟩

theorem Arranged.note (arranged : engine.Arranged waiting) {event : KeyEvent}
    (input : event.IsInput) :
    (engine.note event).Arranged
      (if event.isNoEvent then waiting else waiting ++ [engine.recordOf event]) := by
  have newest : (engine.arrived ++ [event])[engine.arrived.length]? = some event := by simp
  have member :
      ∀ record, (record ∈ if event.isNoEvent then waiting else waiting ++ [engine.recordOf event]) ↔
      record ∈ waiting ∨ event.isNoEvent = false ∧ record = engine.recordOf event := by
    intro record
    cases event.isNoEvent <;> simp
  exact
    { sorted := by
        cases event.isNoEvent with
        | true => exact arranged.sorted
        | false =>
            simp only [Bool.false_eq_true, if_false, List.map_append, List.map_cons, List.map_nil,
              List.pairwise_append, List.pairwise_singleton, List.mem_singleton, forall_eq,
              true_and, List.mem_map, forall_exists_index, and_imp, forall_apply_eq_imp_iff₂]
            exact ⟨arranged.sorted, fun record inside => arranged.bound inside⟩
      stamped := by
        intro record inside
        obtain old' | ⟨real, rfl⟩ := (member record).mp inside
        · exact ⟨getElem?_grow (arranged.stamped record old').1 event,
            (arranged.stamped record old').2⟩
        · exact ⟨newest, real⟩
      fresh := by
        intro record inside pressed
        obtain old' | ⟨_, rfl⟩ := (member record).mp inside
        · exact arranged.fresh record old' pressed
        · rfl
      pending := by
        intro tapping
        obtain ⟨at', behind⟩ := arranged.pending tapping
        refine ⟨getElem?_grow at' event, ?_⟩
        intro record inside
        obtain old' | ⟨_, rfl⟩ := (member record).mp inside
        · exact behind record old'
        · exact (List.getElem?_eq_some_iff.mp at').1
      kept := by
        intro k event' place edge
        obtain place | ⟨rfl, rfl⟩ := getElem?_last place
        · obtain handed | ⟨record, inside, arrival⟩ | undecided := arranged.kept k event' place edge
          · exact .inl handed
          · exact .inr (.inl ⟨record, (member record).mpr (.inl inside), arrival⟩)
          · exact .inr (.inr undecided)
        · exact .inr (.inl ⟨engine.recordOf event', (member _).mpr (.inr ⟨edge, rfl⟩), rfl⟩)
      closed := by
        intro k event' place pressed earlier
        obtain place | ⟨rfl, rfl⟩ := getElem?_last place
        · have bound := (List.getElem?_eq_some_iff.mp place).1
          have found := arranged.closed k event' place pressed (earlier.imp_right (by
            intro given
            rcases given with ⟨record, inside, before⟩
            obtain old' | ⟨_, rfl⟩ := (member record).mp inside
            · exact ⟨record, old', before⟩
            · simp only [recordOf] at before
              omega))
          obtain ⟨record, inside, arrival⟩ := found
          exact ⟨record, (member record).mpr (.inl inside), arrival⟩
        · obtain real | tick := input
          · exact ⟨engine.recordOf event', (member _).mpr (.inr ⟨real, rfl⟩), rfl⟩
          · rw [tick] at pressed
            contradiction
      order := arranged.order.note event }

/-- Between events a record waits only behind a tap that is
undecided, or behind the tap that is held down. -/
structure Waits (engine : Engine) : Prop where
  arranged : engine.Arranged engine.waitingBuffer
  cause : engine.waitingBuffer = [] ∨ engine.Undecided ∨ engine.TapHeld

/-- A record taken out of the waiting buffer does not run
out the term of the tap that is pending. -/
def InTerm (engine : Engine) (record : KeyRecord) : Prop :=
  engine.isTapping = true → engine.TapHeld ∨ engine.withinTappingTerm record.event = true

instance (engine : Engine) (record : KeyRecord) : Decidable (engine.InTerm record) :=
  inferInstanceAs (Decidable (_ → _))

/-- No edge arrives while records wait behind a tap that is held down. -/
def NoneBehindTap (engine : Engine) (event : KeyEvent) : Prop :=
  event.isNoEvent = false → engine.TapHeld → engine.waitingBuffer = []

instance (engine : Engine) (event : KeyEvent) : Decidable (engine.NoneBehindTap event) :=
  inferInstanceAs (Decidable (_ → _ → _))

theorem Waits.arrive {event : KeyEvent} (waits : engine.Waits) (input : event.IsInput)
    (calm : ¬ engine.Overflows keymap event) (behind : engine.NoneBehindTap event) :
    ((engine.note event).arrive keymap (engine.recordOf event)).Arranged
      ((engine.note event).arrive keymap (engine.recordOf event)).waitingBuffer := by
  have noted := waits.arranged.note input
  have stamps := @processTapping_stamps keymap (engine.note event) (engine.recordOf event)
  rw [note_waitingBuffer] at stamps
  cases real : event.isNoEvent with
  | true =>
      rw [real, if_pos rfl] at noted
      obtain ⟨next, noEvent⟩ := @Arranged.tick _ (engine.recordOf event) _ noted keymap
        (input.resolve_left (by simp [real]))
      obtain ⟨_, after⟩ | ⟨_, edge, _⟩ := arrive_cases calm
      · rw [after]
        exact next.restamp stamps
      · rw [noEvent] at edge
        contradiction
  | false =>
      rw [real, if_neg (by simp)] at noted
      have turn : engine.waitingBuffer = [] ∨ (engine.note event).Undecided := by
        obtain empty | undecided | held := waits.cause
        · exact .inl empty
        · exact .inr undecided
        · exact .inl (behind real held)
      have next := noted.call keymap turn (fun other member => member)
      obtain ⟨done, after⟩ | ⟨stays, _, after⟩ := arrive_cases calm
      · rw [after]
        cases handled :
          ((engine.note event).processTapping keymap (engine.recordOf event)).handled with
        | true =>
            rw [handled, if_pos rfl, List.append_nil] at next
            exact next.restamp stamps
        | false =>
            have vanished := done.resolve_left (by simp [handled])
            have stamp := congrArg KeyRecord.event (processTapping_stamp handled)
            simp only [KeyRecord.stamp_event] at stamp
            rw [stamp] at vanished
            exact absurd vanished (by simp [recordOf, real])
      · rw [stays, if_neg (by simp)] at next
        rw [after]
        refine next.restamp ?_
        simp only [List.map_append, stamps, List.map_cons, List.map_nil, processTapping_stamp stays]

theorem Arranged.drainStep {rest : List KeyRecord} (arranged : engine.Arranged engine.waitingBuffer)
    (buffer : engine.waitingBuffer = record :: rest) :
    (engine.drainStep keymap record).2.Arranged
      (engine.drainStep keymap record).2.waitingBuffer := by
  have stamps := @processTapping_stamps keymap engine record
  rw [buffer] at arranged stamps
  have next := @Arranged.call _ record [] rest arranged keymap (.inl rfl) (by simp)
  have tail : (engine.processTapping keymap record).engine.waitingBuffer.tail.map KeyRecord.stamp =
      rest.map KeyRecord.stamp := by
    rw [List.map_tail, stamps]
    rfl
  unfold Engine.drainStep
  dsimp only
  cases handled : (engine.processTapping keymap record).handled with
  | true =>
      rw [handled, if_pos rfl] at next
      exact next.restamp tail
  | false =>
      rw [handled, if_neg (by simp)] at next
      refine next.restamp ?_
      simp only [Bool.false_eq_true, if_false, List.map_cons, List.nil_append, tail,
        processTapping_stamp handled]

/-- The loop stops on a record only while the tap is
undecided or held down, as long as no term runs out. -/
theorem stopped_cause (keymap : Keymap) (inTerm : engine.InTerm record)
    (stops : (engine.drainStep keymap record).1 = false) :
    (engine.drainStep keymap record).2.Undecided ∨ (engine.drainStep keymap record).2.TapHeld := by
  have outcome := processTapping_outcome keymap engine record
  unfold Engine.drainStep at stops ⊢
  dsimp only at stops ⊢
  generalize engine.processTapping keymap record = processed at outcome stops ⊢
  cases outcome with
  | firstTap undecided =>
      have pressed : ((engine.firstTap keymap).isTappingPressed) = true := by
        have before := undecided.1
        simp only [isTappingPressed, isTapping] at before ⊢
        simpa [firstTap, KeyRecord.setCount] using before
      cases Nat.eq_zero_or_pos (engine.firstTap keymap).tappingKey.tap.count with
      | inl cancelled => exact .inl ⟨pressed, cancelled⟩
      | inr tapped => exact .inr ⟨pressed, tapped⟩
  | retained undecided | wait undecided => exact .inl undecided
  | interrupt undecided => exact .inl undecided
  | timeout undecided expired =>
      obtain held | within := inTerm (isTapping_of_undecided undecided)
      · exact absurd undecided (not_undecided_of_held held)
      · rw [expired] at within
        contradiction
  | expire released expired =>
      obtain held | within := inTerm (isTapping_of_released released)
      · exact absurd released (not_released_of_pressed held.1)
      · rw [expired] at within
        contradiction
  | _ => cases stops

/-- A record that runs out the term of the pending tap
leaves the buffer standing with no tap pending. -/
theorem stopped_idle (keymap : Keymap) (outOfTerm : ¬ engine.InTerm record) :
    (engine.drainStep keymap record).1 = false ∧
    (engine.drainStep keymap record).2.isTapping = false ∧
      (engine.drainStep keymap record).2.waitingBuffer ≠ [] := by
  simp only [InTerm, not_forall, not_or, Bool.not_eq_true] at outOfTerm
  obtain ⟨tapping, open', expired⟩ := outOfTerm
  have outcome := processTapping_outcome keymap engine record
  unfold Engine.drainStep
  dsimp only
  generalize engine.processTapping keymap record = processed at outcome ⊢
  cases outcome with
  | timeout | expire => exact ⟨rfl, rfl, by simp⟩
  | firstTap _ within | retained _ within | early _ within | interrupt _ within | wait _ within
  | sequential _ within
  | again _ within | interfere _ within | spend _ within | after _ within =>
      rw [expired] at within
      contradiction
  | tapRelease held | restart held | typing held => exact absurd held open'
  | start idle | direct idle =>
      rw [idle] at tapping
      contradiction

theorem drain_outOfTerm (fuel : Nat) (engine : Engine)
    (outOfTerm : ¬ DrainMeets keymap InTerm fuel engine) :
    (engine.drain keymap fuel).isTapping = false ∧
    (engine.drain keymap fuel).waitingBuffer ≠ [] := by
  induction fuel generalizing engine with
  | zero => exact absurd trivial outOfTerm
  | succ fuel ih =>
      cases found : engine.waitingBuffer with
      | nil => exact absurd (by simp [DrainMeets, found]) outOfTerm
      | cons record rest =>
          simp only [DrainMeets, found, not_and, not_forall] at outOfTerm
          simp only [drain, found]
          by_cases inTerm : engine.InTerm record
          · obtain ⟨handled, later⟩ := outOfTerm inTerm
            rw [if_pos handled]
            exact ih _ later
          · obtain ⟨stops, idle, standing⟩ := stopped_idle keymap inTerm
            rw [if_neg (by simp [stops])]
            exact ⟨idle, standing⟩

variable (keymap) in
/-- What a step may be: an edge or a tick, no overflow, and no edge
while records wait behind a tap that is held down. -/
def Permitted (engine : Engine) (event : KeyEvent) : Prop :=
  event.IsInput ∧ ¬ engine.Overflows keymap event ∧ engine.NoneBehindTap event

variable (keymap) in
/-- The draining loop runs out no term. -/
def DrainsInTerm (engine : Engine) (event : KeyEvent) : Prop :=
  ExecMeets keymap (fun _ _ => True) InTerm engine event

instance (engine : Engine) (event : KeyEvent) : Decidable (engine.Permitted keymap event) :=
  inferInstanceAs (Decidable (_ ∧ _))

instance (engine : Engine) (event : KeyEvent) : Decidable (engine.DrainsInTerm keymap event) :=
  inferInstanceAs (Decidable (ExecMeets keymap _ _ engine event))

theorem Waits.actionExec {event : KeyEvent} (waits : engine.Waits)
    (permitted : engine.Permitted keymap event)
    (inTerm : engine.DrainsInTerm keymap event) : (engine.actionExec keymap event).Waits := by
  obtain ⟨input, calm, behind⟩ := permitted
  have arrives := waits.arrive input calm behind
  have step : ∀ (engine : Engine) record rest, engine.Arranged engine.waitingBuffer →
      engine.waitingBuffer = record :: rest →
      engine.InTerm record → (engine.drainStep keymap record).2.Arranged
        (engine.drainStep keymap record).2.waitingBuffer :=
    fun engine record rest arranged buffer _ => arranged.drainStep buffer
  refine ⟨actionExec_invariant (fun _ => arrives) step inTerm, ?_⟩
  obtain empty | ⟨before, record, rest, _, buffer, term, stopped⟩ :=
    actionExec_stops (fun _ => arrives) step inTerm
  · exact .inl empty
  · have cause := stopped_cause keymap term (by rw [stopped])
    rw [stopped] at cause
    exact .inr cause

theorem Waits.orderly (waits : engine.Waits) : engine.Orderly := by
  refine ⟨waits.arranged.order, ?_⟩
  intro idle
  obtain empty | undecided | held := waits.cause
  · exact empty
  · exact absurd undecided (not_undecided_of_idle idle)
  · rw [isTapping_of_held held] at idle
    contradiction

theorem waits_reset : reset.Waits where
  arranged :=
    { sorted := by simp [reset]
      stamped := by simp [reset]
      fresh := by simp [reset]
      pending := fun tapping => by
        have idle : reset.isTapping = false := rfl
        rw [idle] at tapping
        contradiction
      kept := by simp [reset]
      closed := by simp [reset]
      order := by
        intro before handover after split
        simp [reset] at split }
  cause := .inl rfl

/-- In a run without overflow in which no edge arrives while records wait behind a held tap, edges
are processed in order and no record waits without a pending tap, exactly if the draining loop never
runs out the term of a tap. -/
theorem orderly_iff_drainsInTerm (keymap : Keymap) (events : List KeyEvent)
    (permitted : Guarded (actionExec keymap) (Permitted keymap) reset events) :
    Throughout (actionExec keymap) Orderly reset events ↔
      Guarded (actionExec keymap) (DrainsInTerm keymap) reset events := by
  have preserved : ∀ (engine : Engine) event, engine.Waits → engine.Permitted keymap event →
      engine.DrainsInTerm keymap event →
      (engine.actionExec keymap event).Waits :=
        fun _ _ waits allowed inTerm => waits.actionExec allowed inTerm
  have necessary : ∀ (engine : Engine) event, engine.Waits → engine.Permitted keymap event →
      (engine.actionExec keymap event).Orderly → engine.DrainsInTerm keymap event := by
    intro engine event _ _ orderly
    by_contra outOfTerm
    have standing := drain_outOfTerm _ _ (fun meets => outOfTerm ⟨trivial, meets⟩)
    exact standing.2 (orderly.2 standing.1)
  exact throughout_iff_guarded (fun _ waits => waits.orderly) preserved necessary
    waits_reset permitted

/-- A letter is typed into a mod-tap key, which is released after its term. -/
theorem orderly_iff_drainsInTerm_rolled :
    Throughout (actionExec .sample) Orderly reset
      [.edge 0 true 1, .edge 3 true 51, .tick 101, .edge 3 false 151, .edge 0 false 251,
        .tick 251] :=
  (orderly_iff_drainsInTerm .sample
    [.edge 0 true 1, .edge 3 true 51, .tick 101, .edge 3 false 151, .edge 0 false 251, .tick 251]
    (by decide)).mpr (by decide)

/-- Two mod-tap keys pressed within 10 ms and a letter 240 ms later: the letter is left in the
buffer with no tap pending. -/
theorem orderly_fails_on_stall :
    ¬ ∀ (keymap : Keymap) (events : List KeyEvent),
      Guarded (actionExec keymap)
        (fun engine event => event.IsInput ∧ ¬ engine.Overflows keymap event) reset events →
      events.Pairwise (fun earlier later => earlier.time ≤ later.time) →
        Throughout (actionExec keymap) Orderly reset events := by
  intro always
  have orderly :=
    always .sample [.edge 0 true 1, .edge 1 true 11, .edge 3 true 251] (by decide) (by decide)
  exact absurd (orderly.2.2.2.2 (by decide)) (by decide)

end Engine

end BleKeyboard.Tmk
