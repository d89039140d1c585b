import BleKeyboard.Tmk.Undecided

namespace BleKeyboard.Tmk

open BleKeyboard.Data

namespace Engine

variable {clock : Nat → Nat} {key : KeyPos} {keymap : Keymap} {engine : Engine} {event : KeyEvent}
    {record : KeyRecord}
  {rest : List KeyRecord}

def line (engine : Engine) : List KeyRecord := engine.waitingBuffer.map KeyRecord.stamp

/-- The buffer is in order of arrival and of time, and the presses of the key in it are followed. -/
structure Distinguished (clock : Nat → Nat) (key : KeyPos) (engine : Engine) : Prop where
  queues : engine.Queues
  timed : Timed clock engine.waitingBuffer
  follows : Follows clock key engine engine.line engine.arrived.length

def newest (engine : Engine) (event : KeyEvent) : List KeyRecord :=
  if event.isNoEvent then [] else [engine.recordOf event]

theorem mem_newest : record ∈ engine.newest event ↔ event.isNoEvent = false ∧
    record = engine.recordOf event := by
  unfold newest
  cases real : event.isNoEvent <;> simp

end Engine

section Arrival

variable {clock : Nat → Nat} {key : KeyPos} {keymap : Keymap} {engine : Engine} {event : KeyEvent}
    {record : KeyRecord}
  {line : List KeyRecord} {arrival : Nat}

theorem KeyEvent.IsInput.real (input : event.IsInput)
    (relevant : event.pressed = true ∨ event.isEdgeOf key = true) :
    event.isNoEvent = false := by
  obtain real | tick := input
  · exact real
  · obtain pressed | edge := relevant
    · rw [tick] at pressed
      exact Bool.noConfusion pressed
    · exact (KeyEvent.isEdgeOf_iff.mp edge).1

theorem Behind.grow (behind : Behind key engine.arrived line arrival) (input : event.IsInput) :
    Behind key (engine.arrived ++ [event]) (line ++ engine.newest event) arrival := by
  intro later other after found relevant
  obtain old | ⟨rfl, rfl⟩ := getElem?_last found
  · obtain ⟨third, member, here⟩ := behind later other after old relevant
    exact ⟨third, List.mem_append_left _ member, here⟩
  · exact ⟨engine.recordOf other,
      List.mem_append_right _ (Engine.mem_newest.mpr ⟨input.real relevant, rfl⟩), rfl⟩

theorem KeyRecord.Right.grow {arrived : List KeyEvent} (right : record.Right clock key arrived)
    (steady : Monotone clock) (event : KeyEvent) : record.Right clock key (arrived ++ [event]) where
  stamped press := getElem?_grow (right.stamped press) event
  tap press asTap few := (right.tap press asTap few).grow event
  hold press asHold few := (right.hold press asHold few).grow steady event

theorem Pending.note (pending : Pending clock key engine line engine.arrived.length)
    (input : event.IsInput)
    (measured : Engine.MeasuredFrom clock engine.tappingKey event.time engine.arrived.length) :
    Pending clock key (engine.note event) (line ++ engine.newest event) engine.arrived.length where
  stamped := getElem?_grow pending.stamped event
  younger record member := by
    cases List.mem_append.mp member with
    | inl old => exact pending.younger record old
    | inr new =>
        obtain ⟨_, rfl⟩ := Engine.mem_newest.mp new
        exact ⟨(List.getElem?_eq_some_iff.mp pending.stamped).1, measured⟩
  open' ending bound taps := pending.open' ending bound (taps.shrink bound)
  interrupted yes := by
    obtain ⟨later, other, after, found, pressed⟩ := pending.interrupted yes
    exact ⟨later, other, after, getElem?_grow found event, pressed⟩
  behind calm := (pending.behind calm).grow input

theorem Follows.note (follows : Follows clock key engine line engine.arrived.length)
    (steady : Monotone clock) (timely : engine.Timely keymap clock event) :
    Follows clock key (engine.note event) (line ++ engine.newest event) engine.arrived.length where
  stamped record member := by
    cases List.mem_append.mp member with
    | inl old => exact getElem?_grow (follows.stamped record old) event
    | inr new =>
        obtain ⟨_, rfl⟩ := Engine.mem_newest.mp new
        exact List.getElem?_concat_length
  real record member := by
    cases List.mem_append.mp member with
    | inl old => exact follows.real record old
    | inr new =>
        obtain ⟨real, rfl⟩ := Engine.mem_newest.mp new
        exact real
  fresh record member pressed := by
    cases List.mem_append.mp member with
    | inl old => exact follows.fresh record old pressed
    | inr new =>
        obtain ⟨_, rfl⟩ := Engine.mem_newest.mp new
        rfl
  behind record member press := by
    cases List.mem_append.mp member with
    | inl old => exact (follows.behind record old press).grow timely.1
    | inr new =>
        obtain ⟨_, rfl⟩ := Engine.mem_newest.mp new
        intro later other after found _
        have last : engine.arrived.length < later := after
        obtain old | ⟨same, _⟩ := getElem?_last found
        · have bound := (List.getElem?_eq_some_iff.mp old).1
          omega
        · omega
  pending undecided mine := (follows.pending undecided mine).note timely.1 (timely.2.2.2 undecided)
  right call member := (follows.right call member).grow steady event
  handed arrival other found press := by
    obtain old | ⟨rfl, rfl⟩ := getElem?_last found
    · obtain taken | ⟨record, member, here⟩ := follows.handed arrival other old press
      · exact .inl taken
      · exact .inr ⟨record, List.mem_append_left _ member, here⟩
    · have real := (KeyEvent.isEdgeOf_iff.mp (KeyEvent.isPressOf_iff.mp press).1).1
      exact .inr ⟨engine.recordOf other,
        List.mem_append_right _ (Engine.mem_newest.mpr ⟨real, rfl⟩), rfl⟩

theorem Follows.setWaitingBuffer {buffer : List KeyRecord} {now : Nat}
    (follows : Follows clock key engine line now) :
    Follows clock key { engine with waitingBuffer := buffer } line now := by
  obtain ⟨stamped, real, fresh, behind, pending, right, handed⟩ := follows
  refine ⟨stamped, real, fresh, behind, fun undecided mine => ?_, right, handed⟩
  obtain ⟨own, younger, open', interrupted, waiting⟩ := pending undecided mine
  exact ⟨own, younger, open', interrupted, waiting⟩

end Arrival

namespace Engine

variable {clock : Nat → Nat} {key : KeyPos} {keymap : Keymap} {engine : Engine} {event : KeyEvent}
    {record : KeyRecord}
  {rest : List KeyRecord}

theorem recordOf_stamp : (engine.recordOf event).stamp = engine.recordOf event := by
  unfold KeyRecord.stamp recordOf
  split <;> rfl

theorem call_arriving (distinguished : engine.Distinguished clock key)
    (timely : engine.Timely keymap clock event)
    (order : (engine.note event).KeepsOrder key (engine.recordOf event))
    (ends : (engine.note event).EndsUninterrupted key (engine.recordOf event)) :
    Processing keymap clock key (engine.note event) (engine.recordOf event)
      (engine.line ++ engine.newest event) engine.line
      engine.arrived.length := by
  have alone : ¬ (engine.note event).Undecided → event.isPressOf key = true →
      (engine.note event).waitingBuffer = [] :=
    fun settled press => (order settled).1 press
  constructor
  · exact List.getElem?_concat_length
  · intro real
    rw [recordOf_stamp]
    exact List.mem_append_right _ (mem_newest.mpr ⟨real, rfl⟩)
  · exact fun waiting member => List.mem_append_left _ (List.mem_map_of_mem member)
  · exact fun other member => List.mem_append_left _ member
  · intro other member
    cases List.mem_append.mp member with
    | inl old =>
        obtain ⟨waiting, inside, same⟩ := List.mem_map.mp old
        exact .inr ⟨old, waiting, inside, same⟩
    | inr new =>
        obtain ⟨_, rfl⟩ := mem_newest.mp new
        exact .inl rfl
  · intro ending after before
    have bound : ending < (engine.arrived ++ [event]).length := before
    rw [List.length_append, List.length_singleton] at bound
    have last : (engine.recordOf event).arrival = engine.arrived.length := rfl
    omega
  · intro undecided mine
    exact ⟨(List.getElem?_eq_some_iff.mp (distinguished.follows.pending undecided mine).stamped).1,
      timely.2.2.2 undecided⟩
  · intro settled press other member
    have empty : engine.waitingBuffer = [] := alone settled press
    simp [line, empty] at member
  · intro settled relevant other member press
    cases List.mem_append.mp member with
    | inl old =>
        obtain ⟨waiting, inside, rfl⟩ := List.mem_map.mp old
        rw [KeyRecord.stamp_event, (order settled).2 relevant waiting inside] at press
        contradiction
    | inr new =>
        obtain ⟨_, rfl⟩ := mem_newest.mp new
        exact Nat.le_refl _
  · intro undecided mine calm own within other member pressed
    cases List.mem_append.mp member with
    | inl old =>
        obtain ⟨waiting, inside, rfl⟩ := List.mem_map.mp old
        rw [KeyRecord.stamp_event, ends undecided mine calm own within waiting inside] at pressed
        contradiction
    | inr new =>
        obtain ⟨_, rfl⟩ := mem_newest.mp new
        exact Nat.le_refl _
  · intro press given assumed
    rcases given with ⟨_, _, starts⟩
    rcases assumed with ⟨ending, member, _⟩
    have settled : ¬ (engine.note event).Undecided := by
      obtain idle | held | released := starts
      · exact not_undecided_of_idle idle
      · exact not_undecided_of_held held
      · exact not_undecided_of_released released.1
    rw [alone settled press] at member
    contradiction
  · intro press again ending member
    rw [alone (not_undecided_of_released again.1) press] at member
    contradiction

theorem call_oldest (distinguished : engine.Distinguished clock key)
    (buffer : engine.waitingBuffer = record :: rest)
    (scans : engine.ScansAlone keymap key record) (again : engine.NothingToScan key record) :
    Processing keymap clock key engine record engine.line (rest.map KeyRecord.stamp)
      engine.arrived.length := by
  have member : record ∈ engine.waitingBuffer := by simp [buffer]
  have onLine : record.stamp ∈ engine.line := List.mem_map_of_mem member
  have lineIs : engine.line = record.stamp :: rest.map KeyRecord.stamp := by simp [line, buffer]
  have sorted := distinguished.queues.sorted
  have timed := distinguished.timed
  unfold Timed at timed
  rw [buffer] at timed sorted
  have later : ∀ other ∈ rest, record.arrival < other.arrival := fun other inside =>
    (List.pairwise_cons.mp sorted).1 _ (List.mem_map_of_mem inside)
  have oldest : ∀ other ∈ engine.line, record.arrival ≤ other.arrival := by
    intro other inside
    rw [lineIs] at inside
    cases List.mem_cons.mp inside with
    | inl same =>
        rw [same, KeyRecord.stamp_arrival]
    | inr behind =>
        obtain ⟨waiting, inRest, rfl⟩ := List.mem_map.mp behind
        rw [KeyRecord.stamp_arrival]
        exact Nat.le_of_lt (later waiting inRest)
  constructor
  · exact (distinguished.queues.stamped record member).1
  · exact fun _ => onLine
  · exact fun waiting inside => List.mem_map_of_mem inside
  · intro other inside
    rw [lineIs]
    exact List.mem_cons_of_mem _ inside
  · intro other inside
    rw [lineIs] at inside
    cases List.mem_cons.mp inside with
    | inl same =>
        rw [same, KeyRecord.stamp_arrival]
        exact .inl rfl
    | inr behind =>
        obtain ⟨waiting, inRest, same⟩ := List.mem_map.mp behind
        exact .inr ⟨behind, waiting, by simp [buffer, inRest], same⟩
  · intro ending after before
    omega
  · intro undecided mine
    have younger := (distinguished.follows.pending undecided mine).younger record.stamp onLine
    rw [KeyRecord.stamp_arrival, KeyRecord.stamp_event] at younger
    exact younger
  · intro _ _ other inside
    obtain ⟨waiting, inRest, rfl⟩ := List.mem_map.mp inside
    rw [KeyRecord.stamp_arrival, KeyRecord.stamp_event]
    exact ⟨later waiting inRest, (List.pairwise_cons.mp timed).1 waiting inRest⟩
  · exact fun _ _ other inside _ => oldest other inside
  · exact fun _ _ _ _ _ other inside _ => oldest other inside
  · exact scans
  · exact again

namespace Distinguished

theorem reset : Engine.reset.Distinguished clock key where
  queues := queues_reset
  timed := List.Pairwise.nil
  follows :=
    { stamped := by simp [line, Engine.reset]
      real := by simp [line, Engine.reset]
      fresh := by simp [line, Engine.reset]
      behind := by simp [line, Engine.reset]
      pending := fun undecided => absurd undecided (not_undecided_of_idle rfl)
      right := by simp [Engine.reset]
      handed := by simp [Engine.reset] }

variable {right : Bool} {mods : BitVec 4} {code : Code}
    (action : keymap.actionForKey 0 key = .actModsTap right mods code)
  (isKey : code.isKey = true)
include action isKey

theorem arrive (distinguished : engine.Distinguished clock key) (steady : Monotone clock)
    (timely : engine.Timely keymap clock event)
    (order : (engine.note event).KeepsOrder key (engine.recordOf event))
    (ends : (engine.note event).EndsUninterrupted key (engine.recordOf event)) :
    ((engine.note event).arrive keymap (engine.recordOf event)).Distinguished clock key where
  queues := distinguished.queues.arrive keymap event
  timed := by
    obtain same | ⟨_, pushed⟩ | dropped := arrive_stamps keymap engine event
    · exact distinguished.timed.restamp same
    · exact (@Timed.push _ _ (engine.recordOf event) distinguished.timed timely.2.2.1).restamp
        pushed
    · rw [dropped]
      exact List.Pairwise.nil
  follows := by
    have noted := distinguished.follows.note steady timely
    have next :=
      noted.call action isKey steady (call_arriving distinguished timely order ends) timely.1
    have stamps := @processTapping_stamps keymap (engine.note event) (engine.recordOf event)
    have arrived := @processTapping_arrived keymap (engine.note event) (engine.recordOf event)
    rw [← arrived] at next
    rw [note_waitingBuffer] at stamps
    obtain ⟨done, vanished⟩ | ⟨waits, real, enqueued⟩ := arrive_cases timely.2.1
    · rw [vanished, line, stamps]
      cases handled :
        ((engine.note event).processTapping keymap (engine.recordOf event)).handled with
      | true =>
          rw [handled] at next
          exact next
      | false =>
          have noEvent := done.resolve_left (by simp [handled])
          rw [processTapping_event handled] at noEvent
          have none : engine.newest event = [] := if_pos noEvent
          rw [handled, none, List.append_nil] at next
          exact next
    · have same : ((engine.note event).processTapping keymap (engine.recordOf event)).record.stamp =
          engine.recordOf event :=
        (processTapping_stamp waits).trans recordOf_stamp
      rw [processTapping_event waits] at real
      have isReal : event.isNoEvent = false := real
      have one : engine.newest event = [engine.recordOf event] := if_neg (by simp [isReal])
      rw [waits, one] at next
      rw [enqueued, line]
      dsimp only
      rw [List.map_append, stamps, List.map_singleton, same]
      exact next.setWaitingBuffer

theorem drainStep (distinguished : engine.Distinguished clock key) (steady : Monotone clock)
    (buffer : engine.waitingBuffer = record :: rest) (scans : engine.ScansAlone keymap key record)
    (again : engine.NothingToScan key record) :
      (engine.drainStep keymap record).2.Distinguished clock key where
  queues := distinguished.queues.drainStep buffer
  timed := distinguished.timed.drainStep buffer
  follows := by
    have member : record ∈ engine.waitingBuffer := by simp [buffer]
    have next :=
      distinguished.follows.call action isKey steady (call_oldest distinguished buffer scans again)
      (.inl (Queued.real distinguished.queues member))
    have stamps := @processTapping_stamps keymap engine record
    have arrived := @processTapping_arrived keymap engine record
    rw [← arrived] at next
    rw [buffer, List.map_cons] at stamps
    have tail : (engine.processTapping keymap record).engine.waitingBuffer.tail.map
        KeyRecord.stamp = rest.map KeyRecord.stamp := by
      rw [List.map_tail, stamps, List.tail_cons]
    simp only [Engine.drainStep, line]
    cases handled : (engine.processTapping keymap record).handled with
    | true =>
        rw [handled] at next
        simp only [if_true, tail]
        exact next.setWaitingBuffer
    | false =>
        rw [handled, line, buffer, List.map_cons] at next
        simp only [Bool.false_eq_true, if_false, List.map_cons, tail, processTapping_stamp handled]
        exact next.setWaitingBuffer

theorem actionExec (distinguished : engine.Distinguished clock key) (steady : Monotone clock)
    (timely : engine.Timely keymap clock event)
    (distinguishes : engine.Distinguishes keymap key event) :
    (engine.actionExec keymap event).Distinguished clock key :=
  actionExec_invariant
    (fun arriving => distinguished.arrive action isKey steady timely arriving.1 arriving.2)
    (fun _ _ _ distinguished buffer meets => distinguished.drainStep action isKey steady buffer
      meets.1 meets.2) distinguishes

omit isKey in
theorem processAction_press (isKey : code.isKey = true) (press : record.event.isPressOf key = true)
    {core : Core} (awake : core.jumped = false) :
    (record.AsTap → keymap.processAction record core = core.tapCode code) ∧
      (¬ record.AsTap →
      keymap.processAction record core = core.registerMods (Action.modsByte right mods)) := by
  obtain ⟨edge, pressed⟩ := KeyEvent.isPressOf_iff.mp press
  have processed := Keymap.ModTaps.processAction_own keymap awake edge
  rw [action, Core.act_modTap isKey, pressed] at processed
  rw [processed]
  constructor
  · intro given
    rcases given with ⟨tapped, calm⟩
    simp [Core.actModsTapKey, tapped, calm, Core.tapCode]
  · intro hold
    simp only [Core.actModsTapKey, if_true]
    split
    · next tapped =>
        split
        · rfl
        · next calm => exact absurd ⟨tapped, by simpa using calm⟩ hold
    · rfl

theorem decides (distinguished : engine.Distinguished clock key) :
    engine.Decides keymap clock key (Action.modsByte right mods) code where
  arrivals call member press := (distinguished.follows.right call member).stamped press
  taps call member press few taps core awake := by
    refine (processAction_press action isKey press awake).1 ?_
    by_contra hold
    exact ((distinguished.follows.right call member).hold press hold few).open' taps
  holds call member press few notTaps core awake := by
    refine (processAction_press action isKey press awake).2 fun tap => ?_
    exact notTaps ((distinguished.follows.right call member).tap press tap few)
  handed arrival event found press := by
    obtain (handed | pending) | ⟨record, member, here⟩ :=
      distinguished.follows.handed arrival event found press
    · exact .inl handed
    · exact .inr (.inl pending)
    · obtain ⟨waiting, inside, rfl⟩ := List.mem_map.mp member
      rw [KeyRecord.stamp_arrival] at here
      have placed := (distinguished.queues.stamped waiting inside).1
      rw [here, found] at placed
      exact .inr (.inr ⟨waiting, inside, (Option.some.inj placed).symm, here⟩)

end Distinguished

/-- In a run of edges and ticks without overflow whose steps meet the condition, every press of a
mod-tap key that does not continue a tap is taken for a tap exactly if its release comes within the
term and nothing is pressed in between. -/
theorem decides_throughout (keymap : Keymap) (key : KeyPos) {right : Bool} {mods : BitVec 4}
    {code : Code}
    (action : keymap.actionForKey 0 key = .actModsTap right mods code) (isKey : code.isKey = true)
    (clock : Nat → Nat) (steady : Monotone clock) (events : List KeyEvent)
    (timely : Guarded (actionExec keymap) (Timely keymap clock) reset events)
    (distinguishes : Guarded (actionExec keymap) (Distinguishes keymap key) reset events) :
    Throughout (actionExec keymap) (Decides keymap clock key (Action.modsByte right mods) code)
      reset events := by
  have preserved : ∀ (engine : Engine) event, engine.Distinguished clock key →
      (engine.Timely keymap clock event ∧ engine.Distinguishes keymap key event) →
      (engine.actionExec keymap event).Distinguished clock key :=
    fun _ _ distinguished ⟨timely, distinguishes⟩ => distinguished.actionExec action isKey steady
      timely distinguishes
  exact throughout_of_guarded (fun _ distinguished => distinguished.decides action isKey) preserved
    Distinguished.reset
    (Guarded.and.mpr ⟨timely, distinguishes⟩)

/-- The shift key tapped while the control key is undecided. -/
theorem decides_throughout_buffered :
    Throughout (actionExec .sample)
      (Decides .sample (fun arrival => 30 * arrival + 1) ⟨0, 0⟩ 0x02 0x04) reset
      [.edge 1 true 1, .edge 0 true 31, .edge 0 false 61, .edge 1 false 91, .tick 121, .tick 151,
        .tick 181, .tick 211] :=
  @decides_throughout .sample ⟨0, 0⟩ false 0x2 0x04 (by decide) (by decide)
    (fun arrival => 30 * arrival + 1)
    (fun _ _ le => by dsimp only; omega)
    [.edge 1 true 1, .edge 0 true 31, .edge 0 false 61, .edge 1 false 91, .tick 121, .tick 151,
      .tick 181, .tick 211]
    (by decide +kernel) (by decide +kernel)

/-- The same with a letter pressed before the release: the
scan does not look at it, and registers the code. -/
theorem decides_fails_rolled :
    ¬ ∀ (keymap : Keymap) (key : KeyPos) (right : Bool) (mods : BitVec 4) (code : Code),
      keymap.actionForKey 0 key = .actModsTap right mods code → code.isKey = true →
      ∀ clock : Nat → Nat, Monotone clock →
      ∀ events : List KeyEvent, Guarded (actionExec keymap) (Timely keymap clock) reset events →
      Throughout (actionExec keymap) (Decides keymap clock key (Action.modsByte right mods) code)
        reset events := by
  intro always
  have steady : Monotone (fun arrival : Nat => 30 * arrival + 1) := fun _ _ le => by
    dsimp only
    omega
  let events : List KeyEvent := [.edge 1 true 1, .edge 0 true 31, .edge 3 true 61, .edge 0 false 91,
    .edge 1 false 121,
    .tick 151, .tick 181, .tick 211]
  have decides :=
    (always .sample ⟨0, 0⟩ false 0x2 0x04 (by decide) (by decide) (fun arrival => 30 * arrival + 1)
    steady events (by decide +kernel)).last
  have handed : (run (actionExec .sample) reset events).acted.any (fun call =>
      decide (call.record =
        { event := .edge 0 true 31, tap := { interrupted := false, count := 1 }, arrival := 1 })) =
        true := by
    decide +kernel
  obtain ⟨call, member, same⟩ := List.any_eq_true.mp handed
  have record := of_decide_eq_true same
  have notTaps : ¬ Taps (fun arrival => 30 * arrival + 1)
      ⟨0, 0⟩ (run (actionExec .sample) reset events).arrived 1 := by
    intro given
    rcases given with ⟨ending, taps⟩
    have letter : (run (actionExec .sample) reset events).arrived[2]? = some (.edge 3 true 61) := by
      decide +kernel
    have first := taps.before steady (by decide) letter (.inl rfl)
    have after := taps.later
    omega
  have press : call.record.event.isPressOf ⟨0, 0⟩ = true := by
    rw [record]
    decide
  have held :=
    decides.holds call member press (by rw [record]) (by rw [record]; exact notTaps) Core.reset rfl
  rw [record] at held
  exact absurd (congrArg Core.realMods held) (by decide +kernel)

end Engine

end BleKeyboard.Tmk
