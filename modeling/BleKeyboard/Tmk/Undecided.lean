import BleKeyboard.Tmk.Taps

namespace BleKeyboard.Tmk

open BleKeyboard.Protocol (timerDiff16)

namespace KeyRecord

def AsTap (record : KeyRecord) : Prop := 0 < record.tap.count ∧ record.tap.interrupted = false

/-- If the record is a press of the key, it was taken for what it is. -/
structure Right (clock : Nat → Nat) (key : KeyPos) (arrived : List KeyEvent)
    (record : KeyRecord) : Prop where
  stamped : record.event.isPressOf key = true → arrived[record.arrival]? = some record.event
  tap : record.event.isPressOf key = true → record.AsTap → record.tap.count ≤ 1 →
    Taps clock key arrived record.arrival
  hold : record.event.isPressOf key = true → ¬ record.AsTap → record.tap.count ≤ 1 →
    Settled clock key arrived record.arrival

end KeyRecord

/-- Every press that arrived later, and every edge of the key, is on the line. -/
def Behind (key : KeyPos) (arrived : List KeyEvent) (line : List KeyRecord)
    (arrival : Nat) : Prop :=
  ∀ later event, arrival < later → arrived[later]? = some event →
    event.pressed = true ∨ event.isEdgeOf key = true →
    ∃ other ∈ line, other.arrival = later

/-- The undecided press of the key: no event before number `now` makes it a tap, and unless it is
interrupted what could has not been passed over. -/
structure Pending (clock : Nat → Nat) (key : KeyPos) (engine : Engine) (line : List KeyRecord)
    (now : Nat) : Prop where
  stamped : engine.arrived[engine.tappingKey.arrival]? = some engine.tappingKey.event
  younger : ∀ record ∈ line, engine.tappingKey.arrival < record.arrival ∧
    Engine.MeasuredFrom clock engine.tappingKey record.event.time record.arrival
  open' : ∀ ending < now, ¬ TapsAt clock key engine.arrived engine.tappingKey.arrival ending
  interrupted : engine.tappingKey.tap.interrupted = true → ∃ later event,
    engine.tappingKey.arrival < later ∧
    engine.arrived[later]? = some event ∧ event.pressed = true
  behind : engine.tappingKey.tap.interrupted = false →
    Behind key engine.arrived line engine.tappingKey.arrival

def Engine.TakenUp (engine : Engine) (event : KeyEvent) (arrival : Nat) : Prop :=
  (∃ call ∈ engine.acted, call.record.event = event ∧ call.record.arrival = arrival) ∨
    engine.Undecided ∧ engine.tappingKey.event = event ∧ engine.tappingKey.arrival = arrival

/-- The records on the line are still to be processed; the
presses of the key among them have nothing overtaken. -/
structure Follows (clock : Nat → Nat) (key : KeyPos) (engine : Engine) (line : List KeyRecord)
    (now : Nat) : Prop where
  stamped : ∀ record ∈ line, engine.arrived[record.arrival]? = some record.event
  real : ∀ record ∈ line, record.event.isNoEvent = false
  fresh : ∀ record ∈ line, record.event.pressed = true → record.tap = Tap.zero
  behind : ∀ record ∈ line, record.event.isPressOf key = true →
    Behind key engine.arrived line record.arrival
  pending : engine.Undecided → engine.tappingKey.event.key = key → Pending clock key engine line now
  right : ∀ call ∈ engine.acted, call.record.Right clock key engine.arrived
  handed : ∀ arrival event, engine.arrived[arrival]? = some event → event.isPressOf key = true →
    engine.TakenUp event arrival ∨ ∃ record ∈ line, record.arrival = arrival

section Moves

variable {clock : Nat → Nat} {key : KeyPos} {engine next : Engine} {line left : List KeyRecord}
    {now after : Nat}
  {record : KeyRecord}

/-- The rule for one call of `process_tapping`. -/
theorem Follows.move (follows : Follows clock key engine line now)
    (arrived : next.arrived = engine.arrived)
    (sub : ∀ other ∈ left, other ∈ line)
    (behind : ∀ other ∈ left, other.event.isPressOf key = true →
      Behind key engine.arrived left other.arrival)
    (pending : next.Undecided → next.tappingKey.event.key = key → Pending clock key next left after)
    (right : ∀ call ∈ next.acted, call ∈ engine.acted ∨ call.record.Right clock key engine.arrived)
    (grown : ∀ call ∈ engine.acted, call ∈ next.acted)
    (taken : ∀ other ∈ line, other.event.isPressOf key = true →
      other ∈ left ∨ next.TakenUp other.event other.arrival)
    (decided : engine.Undecided → engine.tappingKey.event.isPressOf key = true →
      next.TakenUp engine.tappingKey.event engine.tappingKey.arrival) :
    Follows clock key next left after where
  stamped other member := by
    rw [arrived]
    exact follows.stamped other (sub other member)
  real other member := follows.real other (sub other member)
  fresh other member := follows.fresh other (sub other member)
  behind := by
    rw [arrived]
    exact behind
  pending := pending
  right call member := by
    rw [arrived]
    exact (right call member).elim (follows.right call) id
  handed arrival event found press := by
    rw [arrived] at found
    obtain (⟨call, member, called⟩ | ⟨undecided, same, here⟩) | ⟨other, member, here⟩ :=
      follows.handed arrival event found press
    · exact .inl (.inl ⟨call, grown call member, called⟩)
    · rw [← here, ← same]
      exact .inl (decided undecided (same ▸ press))
    · have own : other.event = event := by
        have stamped := follows.stamped other member
        rw [here, found] at stamped
        exact (Option.some.inj stamped).symm
      obtain stays | handed := taken other member (own ▸ press)
      · exact .inr ⟨other, stays, here⟩
      · rw [← own, ← here]
        exact .inl handed

/-- What is known of a call of `process_tapping`: the record comes from the line, or is a tick; the
rest of the line stays when it is handled. -/
structure Processing (keymap : Keymap) (clock : Nat → Nat) (key : KeyPos) (engine : Engine)
    (record : KeyRecord) (line rest : List KeyRecord) (now : Nat) : Prop where
  stamped : engine.arrived[record.arrival]? = some record.event
  own : record.event.isNoEvent = false → record.stamp ∈ line
  waits : ∀ waiting ∈ engine.waitingBuffer, waiting.stamp ∈ line
  remain : ∀ other ∈ rest, other ∈ line
  others : ∀ other ∈ line, other.arrival = record.arrival ∨
    other ∈ rest ∧ ∃ waiting ∈ engine.waitingBuffer, waiting.stamp = other
  newest : ∀ ending, now ≤ ending → ending < engine.arrived.length → ending = record.arrival
  measured : engine.Undecided → engine.tappingKey.event.key = key →
    engine.tappingKey.arrival < record.arrival ∧
    Engine.MeasuredFrom clock engine.tappingKey record.event.time record.arrival
  younger : ¬ engine.Undecided → record.event.isPressOf key = true → ∀ other ∈ rest,
    record.arrival < other.arrival ∧ Engine.MeasuredFrom clock record other.event.time other.arrival
  order : ¬ engine.Undecided → record.event.pressed = true ∨ record.event.isEdgeOf key = true →
    ∀ other ∈ line, other.event.isPressOf key = true → record.arrival ≤ other.arrival
  alone : engine.Undecided → engine.tappingKey.event.key = key →
    engine.tappingKey.tap.interrupted = false →
    engine.OwnRelease record.event → engine.withinTappingTerm record.event = true →
    ∀ other ∈ line, other.event.pressed = true → record.arrival ≤ other.arrival
  scans : engine.ScansAlone keymap key record
  again : engine.NothingToScan key record

variable {keymap : Keymap} {rest : List KeyRecord}

theorem KeyEvent.isPressOf_iff {event : KeyEvent} :
    event.isPressOf key = true ↔ event.isEdgeOf key = true ∧ event.pressed = true := by
  simp [KeyEvent.isPressOf]

theorem KeyEvent.not_isPressOf {event : KeyEvent} (released : event.pressed = false) :
    event.isPressOf key = false := by
  simp [KeyEvent.isPressOf, released]

theorem KeyRecord.right_of_other {arrived : List KeyEvent}
    (other : record.event.isPressOf key = false) :
    record.Right clock key arrived := by
  constructor <;> intro own <;> rw [other] at own <;> contradiction

theorem right_of_append {arrived : List KeyEvent} {call : Handover}
    (acted : next.acted = engine.acted ++ [call]) (right : call.record.Right clock key arrived) :
    ∀ other ∈ next.acted, other ∈ engine.acted ∨ other.record.Right clock key arrived := by
  intro other member
  rw [acted] at member
  cases List.mem_append.mp member with
  | inl old => exact .inl old
  | inr new =>
      rw [List.mem_singleton.mp new]
      exact .inr right

theorem grown_of_append {call : Handover} (acted : next.acted = engine.acted ++ [call]) :
    ∀ other ∈ engine.acted, other ∈ next.acted := by
  intro other member
  rw [acted]
  exact List.mem_append_left _ member

theorem Engine.takenUp_of_append {call : Handover} (acted : next.acted = engine.acted ++ [call]) :
    next.TakenUp call.record.event call.record.arrival :=
  .inl ⟨call, by rw [acted]; exact List.mem_append_right _ (List.mem_singleton_self _), rfl, rfl⟩

theorem Follows.stay (follows : Follows clock key engine line now)
    (arrived : next.arrived = engine.arrived)
    (pending : next.Undecided → next.tappingKey.event.key = key → Pending clock key next line after)
    (right : ∀ call ∈ next.acted, call ∈ engine.acted ∨ call.record.Right clock key engine.arrived)
    (grown : ∀ call ∈ engine.acted, call ∈ next.acted)
    (decided : engine.Undecided → engine.tappingKey.event.isPressOf key = true →
      next.TakenUp engine.tappingKey.event engine.tappingKey.arrival) :
    Follows clock key next line after :=
  follows.move arrived (fun _ member => member) follows.behind pending right grown
    (fun _ member _ => .inl member) decided

theorem Follows.leave (follows : Follows clock key engine line now)
    (call : Processing keymap clock key engine record line rest now)
    (arrived : next.arrived = engine.arrived)
    (free : record.event.pressed = true ∨ record.event.isEdgeOf key = true →
      ∀ other ∈ line, other.event.isPressOf key = true → record.arrival ≤ other.arrival)
    (pending : next.Undecided → next.tappingKey.event.key = key → Pending clock key next rest after)
    (right : ∀ call ∈ next.acted, call ∈ engine.acted ∨ call.record.Right clock key engine.arrived)
    (grown : ∀ call ∈ engine.acted, call ∈ next.acted)
    (own : record.event.isPressOf key = true → next.TakenUp record.event record.arrival)
    (decided : engine.Undecided → engine.tappingKey.event.isPressOf key = true →
      next.TakenUp engine.tappingKey.event engine.tappingKey.arrival) :
    Follows clock key next rest after := by
  refine follows.move arrived call.remain (fun other member press => ?_) pending right grown
    (fun other member press => ?_) decided
  · intro later event after found relevant
    obtain ⟨third, inLine, here⟩ :=
      follows.behind other (call.remain other member) press later event after found relevant
    obtain same | ⟨inRest, _⟩ := call.others third inLine
    · have here' : record.arrival = later := same.symm.trans here
      have event' : event = record.event := by
        have stamped := call.stamped
        rw [here', found] at stamped
        exact Option.some.inj stamped
      rw [event'] at relevant
      have notLater := free relevant other (call.remain other member) press
      omega
    · exact ⟨third, inRest, here⟩
  · obtain same | ⟨inRest, _⟩ := call.others other member
    · have event : other.event = record.event := by
        have stamped := call.stamped
        rw [← same, follows.stamped other member] at stamped
        exact Option.some.inj stamped
      rw [event] at press
      rw [event, same]
      exact .inr (own press)
    · exact .inl inRest

theorem Pending.renew (pending : Pending clock key engine line now)
    (arrived : next.arrived = engine.arrived)
    (event : next.tappingKey.event = engine.tappingKey.event)
    (arrival : next.tappingKey.arrival = engine.tappingKey.arrival)
    (sub : ∀ other ∈ left, other ∈ line)
    (newest : ∀ ending, now ≤ ending → ending < engine.arrived.length → ending = record.arrival)
    (open' : ¬ TapsAt clock key engine.arrived engine.tappingKey.arrival record.arrival)
    (interrupted : next.tappingKey.tap.interrupted = true → ∃ later event,
      engine.tappingKey.arrival < later ∧
      engine.arrived[later]? = some event ∧ event.pressed = true)
    (behind : next.tappingKey.tap.interrupted = false →
      Behind key engine.arrived left engine.tappingKey.arrival) :
    Pending clock key next left engine.arrived.length where
  stamped := by
    rw [arrived, arrival, event]
    exact pending.stamped
  younger other member := by
    unfold Engine.MeasuredFrom
    rw [arrival, event]
    exact pending.younger other (sub other member)
  open' ending bound taps := by
    rw [arrived, arrival] at taps
    by_cases old : ending < now
    · exact pending.open' ending old taps
    · obtain rfl := newest ending (Nat.le_of_not_lt old) bound
      exact open' taps
  interrupted := by
    rw [arrived, arrival]
    exact interrupted
  behind := by
    rw [arrived, arrival]
    exact behind

theorem Processing.not_tapsAt (call : Processing keymap clock key engine record line rest now)
    {arrival : Nat} (other : record.event.isReleaseOf key = false) :
      ¬ TapsAt clock key engine.arrived arrival record.arrival := by
  intro taps
  obtain ⟨event, found, own⟩ := taps.release
  rw [call.stamped] at found
  obtain rfl := Option.some.inj found
  rw [other] at own
  contradiction

theorem isTapKey_of_press {right : Bool} {mods : BitVec 4} {code : Code}
    (action : keymap.actionForKey 0 key = .actModsTap right mods code) {event : KeyEvent}
    (press : event.isPressOf key = true) : keymap.isTapKey event = true := by
  obtain ⟨real, rfl⟩ := KeyEvent.isEdgeOf_iff.mp (KeyEvent.isPressOf_iff.mp press).1
  have found := (keymap.actionOf_eq real).trans action
  simp [Keymap.isTapKey, real, found, Action.isTap]

theorem cancelsTap_of_press {right : Bool} {mods : BitVec 4} {code : Code}
    (action : keymap.actionForKey 0 key = .actModsTap right mods code) (isKey : code.isKey = true)
    (press : record.event.isPressOf key = true) :
    keymap.cancelsTap record = (decide (0 < record.tap.count) && record.tap.interrupted) := by
  obtain ⟨edge, pressed⟩ := KeyEvent.isPressOf_iff.mp press
  obtain ⟨real, rfl⟩ := KeyEvent.isEdgeOf_iff.mp edge
  obtain ⟨notOneshot, notToggle⟩ := Code.isKey_not_modsTap isKey
  have found := (keymap.actionOf_eq real).trans action
  simp [Keymap.cancelsTap, real, pressed, found, notOneshot, notToggle]

namespace Pending

variable (pending : Pending clock key engine line now)
    (call : Processing keymap clock key engine record line rest now)
include pending call

theorem not_taps
    (notNow : ¬ TapsAt clock key engine.arrived engine.tappingKey.arrival record.arrival) :
    ¬ Taps clock key engine.arrived engine.tappingKey.arrival := by
  intro given
  rcases given with ⟨ending, taps⟩
  by_cases old : ending < now
  · exact pending.open' ending old taps
  · obtain rfl := call.newest ending (Nat.le_of_not_lt old) taps.bound
    exact notNow taps

theorem interrupted_not_tapsAt (steady : Monotone clock)
    (interrupted : engine.tappingKey.tap.interrupted = true) :
    ¬ TapsAt clock key engine.arrived engine.tappingKey.arrival record.arrival := by
  intro taps
  by_cases old : record.arrival < now
  · exact pending.open' record.arrival old taps
  · obtain ⟨later, event, after, found, pressed⟩ := pending.interrupted interrupted
    have before := taps.before steady after found (.inl pressed)
    have bound := (List.getElem?_eq_some_iff.mp found).1
    have same := call.newest later (by omega) bound
    omega

theorem settled_of_interrupted (steady : Monotone clock)
    (interrupted : engine.tappingKey.tap.interrupted = true) :
    Settled clock key engine.arrived engine.tappingKey.arrival where
  open' := pending.not_taps call (pending.interrupted_not_tapsAt call steady interrupted)
  closed := by
    obtain ⟨later, event, after, found, pressed⟩ := pending.interrupted interrupted
    exact ⟨later, event, after, found, .inl pressed⟩

theorem settled_of_expired (undecided : engine.Undecided) (mine : engine.tappingKey.event.key = key)
    (expired : engine.withinTappingTerm record.event = false) :
    Settled clock key engine.arrived engine.tappingKey.arrival := by
  obtain ⟨after, measured⟩ := call.measured undecided mine
  have long : tappingTerm ≤ clock record.arrival - clock engine.tappingKey.arrival := by
    simp only [Engine.withinTappingTerm, decide_eq_false_iff_not, Nat.not_lt] at expired
    rw [← measured]
    exact expired
  refine ⟨pending.not_taps call fun taps => ?_, record.arrival, record.event, after,
    call.stamped, .inr long⟩
  have within := taps.within
  omega

theorem tapsAt_release (undecided : engine.Undecided) (mine : engine.tappingKey.event.key = key)
    (within : engine.withinTappingTerm record.event = true) (own : engine.OwnRelease record.event)
    (calm : engine.tappingKey.tap.interrupted = false)
    (release : record.event.isReleaseOf key = true)
    (stamped : ∀ other ∈ line, engine.arrived[other.arrival]? = some other.event) :
    TapsAt clock key engine.arrived engine.tappingKey.arrival record.arrival where
  later := (call.measured undecided mine).1
  release := ⟨record.event, call.stamped, release⟩
  within := by
    rw [← (call.measured undecided mine).2]
    simpa [Engine.withinTappingTerm] using within
  alone := by
    intro between event after before found
    by_contra lifted
    have pressed : event.pressed = true := by simpa using lifted
    obtain ⟨other, member, here⟩ := pending.behind calm between event after found (.inl pressed)
    have same : other.event = event := by
      have placed := stamped other member
      rw [here, found] at placed
      exact (Option.some.inj placed).symm
    have notBefore := call.alone undecided mine calm own within other member (same ▸ pressed)
    omega

end Pending

theorem Engine.press_of_undecided (undecided : engine.Undecided)
    (mine : engine.tappingKey.event.key = key) :
    engine.tappingKey.event.isPressOf key = true :=
  KeyEvent.isPressOf_iff.mpr ⟨KeyEvent.isEdgeOf_iff.mpr
    ⟨Engine.tappingKey_real (Engine.isTapping_of_undecided undecided), mine⟩,
      Engine.tappingKey_pressed undecided⟩

theorem Engine.mine_of_press (press : engine.tappingKey.event.isPressOf key = true) :
    engine.tappingKey.event.key = key :=
  (KeyEvent.isEdgeOf_iff.mp (KeyEvent.isPressOf_iff.mp press).1).2

theorem Engine.ownRelease_iff {event : KeyEvent} (undecided : engine.Undecided)
    (mine : engine.tappingKey.event.key = key)
    (input : event.IsInput) : engine.OwnRelease event ↔ event.isReleaseOf key = true := by
  have tapping := Engine.isTapping_of_undecided undecided
  simp only [Engine.OwnRelease, Engine.isTappingKey_iff tapping, KeyEvent.isReleaseOf,
    Bool.and_eq_true, Bool.not_eq_true']
  constructor
  · intro given
    rcases given with ⟨same, released⟩
    exact ⟨KeyEvent.isEdgeOf_tappingKey input tapping same.symm mine, released⟩
  · intro given
    rcases given with ⟨edge, released⟩
    exact ⟨mine.trans (KeyEvent.isEdgeOf_iff.mp edge).2.symm, released⟩

section Undecided

variable {right : Bool} {mods : BitVec 4} {code : Code}
    (action : keymap.actionForKey 0 key = .actModsTap right mods code)
  (isKey : code.isKey = true)

theorem Follows.idle (follows : Follows clock key engine line now)
    (call : Processing keymap clock key engine record line rest now) (input : record.event.IsInput)
    (undecided : engine.Undecided) (other : ¬ engine.OwnRelease record.event) :
      Follows clock key engine line engine.arrived.length := by
  refine follows.stay rfl (fun _ mine => ?_) (fun _ member => .inl member) (fun _ member => member)
    fun _ _ => .inr ⟨undecided, rfl, rfl⟩
  have pending := follows.pending undecided mine
  have notRelease : record.event.isReleaseOf key = false := by
    simpa using mt (Engine.ownRelease_iff undecided mine input).mpr other
  exact pending.renew rfl rfl rfl (fun _ member => member) call.newest (call.not_tapsAt notRelease)
    pending.interrupted
    pending.behind

theorem Follows.interrupt (follows : Follows clock key engine line now)
    (call : Processing keymap clock key engine record line rest now) (undecided : engine.Undecided)
    (pressed : record.event.pressed = true) :
    Follows clock key (engine.setTappingKey engine.tappingKey.setInterrupted) line
      engine.arrived.length := by
  refine follows.stay rfl (fun _ mine => ?_) (fun _ member => .inl member) (fun _ member => member)
    fun _ _ => .inr ⟨undecided, rfl, rfl⟩
  have pending := follows.pending undecided mine
  have notRelease : record.event.isReleaseOf key = false := by simp [KeyEvent.isReleaseOf, pressed]
  exact pending.renew rfl rfl rfl (fun _ member => member) call.newest (call.not_tapsAt notRelease)
    (fun _ => ⟨record.arrival, record.event, (call.measured undecided mine).1,
      call.stamped, pressed⟩)
    fun calm => absurd calm (by simp [KeyRecord.setInterrupted])

theorem Follows.early (follows : Follows clock key engine line now)
    (call : Processing keymap clock key engine record line rest now) (input : record.event.IsInput)
    (undecided : engine.Undecided)
    (other : ¬ engine.OwnRelease record.event) (released : record.event.pressed = false)
    (fresh : engine.waitingBufferTyped record.event = false) :
    Follows clock key (engine.processAction keymap record) rest engine.arrived.length := by
  have notPress : record.event.isPressOf key = false := KeyEvent.not_isPressOf released
  refine follows.leave call rfl (fun relevant third inLine press => ?_) (fun _ mine => ?_)
    (right_of_append rfl (KeyRecord.right_of_other notPress)) (grown_of_append rfl)
    (fun press => absurd press (by simp [notPress])) fun _ _ => .inr ⟨undecided, rfl, rfl⟩
  · -- A press of the key that waits would make `waiting_buffer_typed` hold the release back.
    have edge : record.event.isEdgeOf key = true := relevant.resolve_left (by simp [released])
    obtain same | ⟨_, waiting, member, rfl⟩ := call.others third inLine
    · exact Nat.le_of_eq same.symm
    · rw [KeyRecord.stamp_event] at press
      obtain ⟨waitingEdge, down⟩ := KeyEvent.isPressOf_iff.mp press
      have typed : engine.waitingBufferTyped record.event = true := by
        simp only [Engine.waitingBufferTyped, List.any_eq_true]
        refine ⟨waiting, member, ?_⟩
        simp [(KeyEvent.isEdgeOf_iff.mp edge).2, (KeyEvent.isEdgeOf_iff.mp waitingEdge).2,
          released, down]
      rw [typed] at fresh
      contradiction
  · have pending := follows.pending undecided mine
    have notRelease : record.event.isReleaseOf key = false := by
      simpa using mt (Engine.ownRelease_iff undecided mine input).mpr other
    refine pending.renew rfl rfl rfl call.remain call.newest (call.not_tapsAt notRelease)
      pending.interrupted fun calm => ?_
    intro later event after found relevant
    obtain ⟨third, inLine, here⟩ := pending.behind calm later event after found relevant
    obtain same | ⟨inRest, _⟩ := call.others third inLine
    · have placed := call.stamped
      rw [← same, here, found] at placed
      obtain rfl := Option.some.inj placed
      simp [KeyEvent.isReleaseOf, released] at notRelease
      simp [released, notRelease] at relevant
    · exact ⟨third, inRest, here⟩

theorem Follows.timeout (follows : Follows clock key engine line now)
    (call : Processing keymap clock key engine record line rest now) (undecided : engine.Undecided)
    (expired : engine.withinTappingTerm record.event = false) :
    Follows clock key ((engine.processTappingKey keymap).setTappingKey KeyRecord.none) line
      engine.arrived.length := by
  have idle : ¬ ((engine.processTappingKey keymap).setTappingKey KeyRecord.none).Undecided :=
    Engine.not_undecided_of_idle rfl
  refine follows.stay rfl (fun open' => absurd open' idle) (right_of_append rfl ?_)
    (grown_of_append rfl)
    fun _ _ => @Engine.takenUp_of_append engine
      _ { record := engine.tappingKey, pending := engine.tappingKey } rfl
  dsimp only
  constructor
  · exact fun press => (follows.pending undecided (Engine.mine_of_press press)).stamped
  · intro press tapped
    exact absurd tapped.1 (by rw [undecided.2]; exact Nat.lt_irrefl 0)
  · intro press _ _
    have mine := Engine.mine_of_press press
    exact (follows.pending undecided mine).settled_of_expired call undecided mine expired

include action isKey

theorem Follows.firstTap (steady : Monotone clock) (follows : Follows clock key engine line now)
    (call : Processing keymap clock key engine record line rest now) (input : record.event.IsInput)
    (undecided : engine.Undecided)
    (within : engine.withinTappingTerm record.event = true) (own : engine.OwnRelease record.event) :
    Follows clock key (engine.firstTap keymap) line engine.arrived.length := by
  have event : (engine.tappingKey.setCount 1).event = engine.tappingKey.event := rfl
  by_cases mine : engine.tappingKey.event.key = key
  · have pending := follows.pending undecided mine
    have press := Engine.press_of_undecided undecided mine
    have release := (Engine.ownRelease_iff undecided mine input).mp own
    have cancels := @cancelsTap_of_press key (engine.tappingKey.setCount 1) keymap right mods code
      action isKey press
    have one : decide (0 < (engine.tappingKey.setCount 1).tap.count) = true := rfl
    rw [one, Bool.true_and] at cancels
    cases interrupted : engine.tappingKey.tap.interrupted with
    | true =>
        obtain ⟨same, still, _⟩ := Engine.firstTap_cancelled undecided (cancels.trans interrupted)
        have settled := pending.settled_of_interrupted call steady interrupted
        refine follows.stay rfl (fun _ _ => ?_) (right_of_append rfl ?_) (grown_of_append rfl)
          fun _ _ => .inr ⟨still, by rw [same], by rw [same]⟩
        · refine pending.renew rfl (by rw [same]) (by rw [same])
            (fun _ member => member) call.newest
            (pending.interrupted_not_tapsAt call steady interrupted)
              (fun _ => pending.interrupted interrupted) fun calm => ?_
          rw [same, interrupted] at calm
          contradiction
        · refine ⟨fun _ => pending.stamped, fun _ tapped => ?_, fun _ _ _ => settled⟩
          have calm : engine.tappingKey.tap.interrupted = false := tapped.2
          rw [interrupted] at calm
          contradiction
    | false =>
        have kept : (engine.firstTap keymap).tappingKey = engine.tappingKey.setCount 1 :=
          Keymap.processedRecord_uninterrupted interrupted
        have decided : ¬ (engine.firstTap keymap).Undecided := fun open' => by
          have count := open'.2
          rw [kept] at count
          exact absurd count (by simp [KeyRecord.setCount])
        have taps :=
          pending.tapsAt_release call undecided mine within own interrupted release follows.stamped
        refine follows.stay rfl (fun open' => absurd open' decided) (right_of_append rfl ?_)
          (grown_of_append rfl)
          fun _ _ => @Engine.takenUp_of_append engine (engine.firstTap keymap) _ rfl
        refine ⟨fun _ => pending.stamped, fun _ _ _ => ⟨record.arrival, taps⟩, fun _ notTap => ?_⟩
        exact absurd ⟨Nat.one_pos, interrupted⟩ notTap
  · have other : (engine.tappingKey.setCount 1).event.isPressOf key = false := by
      have notEdge : engine.tappingKey.event.isEdgeOf key = false := KeyEvent.isEdgeOf_other mine
      simp [KeyEvent.isPressOf, event, notEdge]
    refine follows.stay rfl (fun _ own' => ?_)
      (right_of_append rfl (KeyRecord.right_of_other other)) (grown_of_append rfl)
      fun _ press => absurd (Engine.mine_of_press press) mine
    simp only [Engine.firstTap, Engine.processTappingKey_tappingKey,
      Engine.setTappingKey_tappingKey, Keymap.processedRecord_event, event] at own'
    exact absurd own' mine

end Undecided

section Starts

theorem Follows.fresh_press (follows : Follows clock key engine line now)
    (call : Processing keymap clock key engine record line rest now)
    (real : record.event.isNoEvent = false)
    (pressed : record.event.pressed = true) : record.tap = Tap.zero := by
  have fresh := follows.fresh record.stamp (call.own real) (by simpa using pressed)
  rw [KeyRecord.stamp_press pressed] at fresh
  exact fresh

theorem Follows.behind_rest (follows : Follows clock key engine line now)
    (call : Processing keymap clock key engine record line rest now)
    (press : record.event.isPressOf key = true) :
    ∀ later event, record.arrival < later → engine.arrived[later]? = some event →
      event.pressed = true ∨ event.isEdgeOf key = true →
      ∃ other ∈ rest, other.arrival = later ∧ other.event = event ∧
      ∃ waiting ∈ engine.waitingBuffer, waiting.stamp = other := by
  intro later event after found relevant
  obtain ⟨edge, pressed⟩ := KeyEvent.isPressOf_iff.mp press
  have behind :=
    follows.behind record.stamp (call.own (KeyEvent.isEdgeOf_iff.mp edge).1) (by simpa using press)
  rw [KeyRecord.stamp_arrival] at behind
  obtain ⟨other, member, here⟩ := behind later event after found relevant
  obtain same | ⟨inRest, waits⟩ := call.others other member
  · omega
  · have placed := follows.stamped other member
    rw [here, found] at placed
    exact ⟨other, inRest, here, (Option.some.inj placed).symm, waits⟩

theorem Follows.ending_of_tapsAt (follows : Follows clock key engine line now)
    (call : Processing keymap clock key engine record line rest now) (settled : ¬ engine.Undecided)
    (press : record.event.isPressOf key = true) {ending : Nat}
    (taps : TapsAt clock key engine.arrived record.arrival ending) :
    ∃ waiting ∈ engine.waitingBuffer, waiting.arrival = ending ∧
    engine.EndsAlone record waiting := by
  obtain ⟨event, found, release⟩ := taps.release
  simp only [KeyEvent.isReleaseOf, Bool.and_eq_true, Bool.not_eq_true'] at release
  obtain ⟨edge, released⟩ := release
  obtain ⟨other, member, here, own, waiting, inBuffer, rfl⟩ :=
    follows.behind_rest call press ending event taps.later found (.inr edge)
  obtain ⟨real, same⟩ := KeyEvent.isEdgeOf_iff.mp (KeyEvent.isPressOf_iff.mp press).1
  rw [KeyRecord.stamp_event] at own
  rw [KeyRecord.stamp_arrival] at here
  refine ⟨waiting, inBuffer, here, ?_, fun third inside after before => ?_⟩
  · have tapping : (engine.setTappingKey record).isTapping = true := by
      simp [Engine.isTapping, real]
    have within := taps.within
    have measured := (call.younger settled press _ member).2
    rw [KeyRecord.stamp_event, KeyRecord.stamp_arrival, here] at measured
    simp only [Engine.endsTap, Engine.isTappingKey_iff tapping, Engine.setTappingKey_tappingKey,
      Bool.and_eq_true, Bool.not_eq_true', Engine.withinTappingTerm]
    have short : (timerDiff16 waiting.event.time record.event.time).toNat < tappingTerm :=
      lt_of_eq_of_lt measured within
    refine ⟨⟨?_, by rw [own]; exact released⟩, decide_eq_true short⟩
    rw [own, (KeyEvent.isEdgeOf_iff.mp edge).2, same]
  · have placed := follows.stamped third.stamp (call.waits third inside)
    rw [KeyRecord.stamp_event, KeyRecord.stamp_arrival] at placed
    exact taps.alone third.arrival third.event after (by omega) placed

theorem Follows.pending_of_press (follows : Follows clock key engine line now)
    (call : Processing keymap clock key engine record line rest now) (settled : ¬ engine.Undecided)
    (press : record.event.isPressOf key = true)
    (nothing : ∀ ending ∈ engine.waitingBuffer, ¬ engine.EndsAlone record ending)
    (same : next.tappingKey = record) (arrived : next.arrived = engine.arrived) :
    Pending clock key next rest engine.arrived.length := by
  obtain ⟨edge, pressed⟩ := KeyEvent.isPressOf_iff.mp press
  have fresh := follows.fresh_press call (KeyEvent.isEdgeOf_iff.mp edge).1 pressed
  refine ⟨by rw [same, arrived]; exact call.stamped, fun other member => ?_,
    fun ending _ taps => ?_, fun interrupted => ?_,
    fun _ later event after found relevant => ?_⟩
  · rw [same]
    exact call.younger settled press other member
  · rw [same, arrived] at taps
    obtain ⟨waiting, member, _, alone⟩ := follows.ending_of_tapsAt call settled press taps
    exact nothing waiting member alone
  · rw [same, fresh] at interrupted
    exact absurd interrupted (by simp [Tap.zero])
  · rw [same] at after
    rw [arrived] at found
    obtain ⟨other, member, here, _⟩ :=
      follows.behind_rest call press later event after found relevant
    exact ⟨other, member, here⟩

theorem Follows.tapsAt_of_endsAlone (follows : Follows clock key engine line now)
    (call : Processing keymap clock key engine record line rest now) (settled : ¬ engine.Undecided)
    (press : record.event.isPressOf key = true) {ending : KeyRecord}
    (member : ending ∈ engine.waitingBuffer) (alone : engine.EndsAlone record ending) :
      TapsAt clock key engine.arrived record.arrival ending.arrival := by
  obtain ⟨ends, between⟩ := alone
  obtain ⟨edge, pressed⟩ := KeyEvent.isPressOf_iff.mp press
  obtain ⟨_, sameKey, released⟩ := Track.endsTap_iff ends
  have inLine := call.waits ending member
  have placed := follows.stamped ending.stamp inLine
  have real := follows.real ending.stamp inLine
  rw [KeyRecord.stamp_event] at placed real
  rw [KeyRecord.stamp_arrival] at placed
  have inRest : ending.stamp ∈ rest := by
    obtain same | ⟨inRest, _⟩ := call.others ending.stamp inLine
    · rw [KeyRecord.stamp_arrival] at same
      rw [same, call.stamped] at placed
      rw [← Option.some.inj placed, pressed] at released
      contradiction
    · exact inRest
  obtain ⟨later, measured⟩ := call.younger settled press _ inRest
  rw [KeyRecord.stamp_arrival] at later measured
  rw [KeyRecord.stamp_event] at measured
  refine ⟨later, ⟨ending.event, placed, ?_⟩, ?_, fun index event after before found => ?_⟩
  · have own : ending.event.isEdgeOf key = true :=
      KeyEvent.isEdgeOf_iff.mpr ⟨real, sameKey.trans (KeyEvent.isEdgeOf_iff.mp edge).2⟩
    simp [KeyEvent.isReleaseOf, own, released]
  · simp only [Engine.endsTap, Engine.withinTappingTerm, Engine.setTappingKey_tappingKey,
      Bool.and_eq_true] at ends
    exact lt_of_eq_of_lt measured.symm (of_decide_eq_true ends.2)
  · by_contra lifted
    have down : event.pressed = true := by simpa using lifted
    obtain ⟨other, _, here, own, waiting, inBuffer, rfl⟩ :=
      follows.behind_rest call press index event after found (.inl down)
    rw [KeyRecord.stamp_event] at own
    rw [KeyRecord.stamp_arrival] at here
    have up := between waiting inBuffer (by omega) (by omega)
    rw [own, down] at up
    contradiction

theorem Follows.startTapping (follows : Follows clock key engine line now)
    (call : Processing keymap clock key engine record line rest now) (settled : ¬ engine.Undecided)
    (pressed : record.event.pressed = true) (starts : engine.Starts keymap record) :
    Follows clock key (engine.startTapping keymap record) rest engine.arrived.length := by
  have free := call.order settled
  have started := Engine.startTapping_started keymap engine record
  generalize engine.startTapping keymap record = after at started
  cases press : record.event.isPressOf key with
  | false =>
      have other : ∀ tappingKey : KeyRecord, tappingKey.event = record.event →
          record.event.isNoEvent = false →
          tappingKey.event.key ≠ key := by
        intro tappingKey same real mine
        have edge : record.event.isEdgeOf key = true :=
          KeyEvent.isEdgeOf_iff.mpr ⟨real, same ▸ mine⟩
        simp [KeyEvent.isPressOf, edge, pressed] at press
      have own : record.event.isPressOf key = true → ∀ next : Engine,
          next.TakenUp record.event record.arrival :=
        fun yes => absurd yes (by simp [press])
      cases started with
      | settled | pending =>
          refine follows.leave call rfl free (fun undecided mine => ?_)
            (fun _ member => .inl member)
            (fun _ member => member) (fun yes => own yes _)
              fun undecided => absurd undecided settled
          exact absurd mine
            (other record rfl (Engine.tappingKey_real (Engine.isTapping_of_undecided undecided)))
      | tapped before ending following =>
          have notPress : (record.setCount 1).event.isPressOf key = false := press
          refine follows.leave call rfl free (fun undecided mine => ?_)
            (right_of_append rfl (KeyRecord.right_of_other notPress)) (grown_of_append rfl)
              (fun yes => own yes _)
            fun undecided => absurd undecided settled
          have real := Engine.tappingKey_real (Engine.isTapping_of_undecided undecided)
          simp only [Engine.processTappingKey_tappingKey, Keymap.processedRecord_event] at mine real
          exact absurd mine (other (record.setCount 1) rfl real)
  | true =>
      have fresh := follows.fresh_press call
        (KeyEvent.isEdgeOf_iff.mp (KeyEvent.isPressOf_iff.mp press).1).1 pressed
      cases started with
      | settled done =>
          obtain tapped | released := done
          · exact absurd (by rw [fresh]; rfl) tapped
          · rw [pressed] at released
            contradiction
      | pending _ _ none =>
          have pending :
              Pending clock key (engine.setTappingKey record) rest engine.arrived.length := by
            refine follows.pending_of_press call settled press
              (fun ending member alone => ?_) rfl rfl
            have ends := alone.1
            rw [none ending member] at ends
            contradiction
          have undecided : (engine.setTappingKey record).Undecided :=
            Engine.Arranged.undecided_of_press
              (KeyEvent.isEdgeOf_iff.mp (KeyEvent.isPressOf_iff.mp press).1).1 pressed fresh
          exact follows.leave call rfl free (fun _ _ => pending) (fun _ member => .inl member)
            (fun _ member => member)
            (fun _ => .inr ⟨undecided, rfl, rfl⟩) fun undecided => absurd undecided settled
      | tapped before ending following _ _ split ends =>
          have calm : (record.setCount 1).tap.interrupted = false := by
            have zero : record.tap.interrupted = false := by
              rw [fresh]
              rfl
            exact zero
          obtain ⟨first, member, alone⟩ := call.scans press starts ⟨ending, by simp [split], ends⟩
          have taps := follows.tapsAt_of_endsAlone call settled press member alone
          have decided : keymap.processedRecord (record.setCount 1) = record.setCount 1 :=
            Keymap.processedRecord_uninterrupted calm
          refine follows.leave call rfl free (fun undecided _ => ?_) (right_of_append rfl ?_)
            (grown_of_append rfl)
            (fun _ => ?_) fun undecided => absurd undecided settled
          · have count := undecided.2
            rw [Engine.processTappingKey_tappingKey, decided] at count
            exact absurd count (by simp [KeyRecord.setCount])
          · exact ⟨fun _ => call.stamped, fun _ _ _ => ⟨first.arrival, taps⟩,
              fun _ notTap => absurd ⟨Nat.one_pos, calm⟩ notTap⟩
          · exact @Engine.takenUp_of_append engine
              _ { record := record.setCount 1, pending := record.setCount 1 } rfl

theorem Follows.hand {handed pending : KeyRecord} (follows : Follows clock key engine line now)
    (call : Processing keymap clock key engine record line rest now) (settled : ¬ engine.Undecided)
    (still : ¬ next.Undecided) (arrived : next.arrived = engine.arrived)
    (acted : next.acted = engine.acted ++ [{ record := handed, pending }])
    (event : handed.event = record.event) (arrival : handed.arrival = record.arrival)
    (many : record.event.isPressOf key = true → 1 < handed.tap.count) :
    Follows clock key next rest engine.arrived.length := by
  refine follows.leave call arrived (call.order settled) (fun undecided => absurd undecided still)
    (right_of_append acted ?_)
    (grown_of_append acted) (fun _ => ?_) fun undecided => absurd undecided settled
  · dsimp only
    constructor
    · intro _
      rw [event, arrival]
      exact call.stamped
    · intro press _ few
      exact absurd (many (event ▸ press)) (Nat.not_lt_of_le few)
    · intro press _ few
      exact absurd (many (event ▸ press)) (Nat.not_lt_of_le few)
  · rw [← event, ← arrival]
    exact Engine.takenUp_of_append acted

theorem Follows.again (follows : Follows clock key engine line now)
    (call : Processing keymap clock key engine record line rest now)
    (pressed : record.event.pressed = true) (startsAgain : engine.StartsAgain record) :
    Follows clock key (engine.setTappingKey record) rest engine.arrived.length := by
  have settled := Engine.not_undecided_of_released startsAgain.1
  refine follows.leave call rfl (call.order settled) (fun undecided mine => ?_)
    (fun _ member => .inl member)
    (fun _ member => member) (fun press => ?_) fun undecided => absurd undecided settled
  · have real := Engine.tappingKey_real (Engine.isTapping_of_undecided undecided)
    have press : record.event.isPressOf key = true :=
      KeyEvent.isPressOf_iff.mpr ⟨KeyEvent.isEdgeOf_iff.mpr ⟨real, mine⟩, pressed⟩
    exact follows.pending_of_press call settled press (call.again press startsAgain) rfl rfl
  · have real := (KeyEvent.isEdgeOf_iff.mp (KeyEvent.isPressOf_iff.mp press).1).1
    exact .inr ⟨Engine.Arranged.undecided_of_press real pressed
      (follows.fresh_press call real pressed), rfl, rfl⟩

theorem Follows.releaseLastTap {time : BitVec 16} (follows : Follows clock key engine line now)
    (settled : ¬ engine.Undecided) :
    Follows clock key (engine.releaseLastTap keymap time) line now := by
  unfold Engine.releaseLastTap
  split
  · have released : (engine.syntheticRelease time).event.pressed = false := rfl
    exact follows.stay rfl (fun undecided => absurd undecided settled)
      (right_of_append rfl (KeyRecord.right_of_other (KeyEvent.not_isPressOf released)))
        (grown_of_append rfl)
      fun undecided => absurd undecided settled
  · exact follows

theorem Processing.releaseLastTap {time : BitVec 16}
    (call : Processing keymap clock key engine record line rest now) :
    Processing keymap clock key (engine.releaseLastTap keymap time) record line rest now := by
  unfold Engine.releaseLastTap
  split
  · obtain ⟨stamped, own, waits, remain, others, newest, measured, younger, order, alone, scans,
      again⟩ := call
    exact ⟨stamped, own, waits, remain, others, newest, measured, younger, order, alone,
      scans, again⟩
  · exact call

end Starts

theorem Follows.call {right : Bool} {mods : BitVec 4} {code : Code}
    (action : keymap.actionForKey 0 key = .actModsTap right mods code) (isKey : code.isKey = true)
    (steady : Monotone clock) (follows : Follows clock key engine line now)
    (call : Processing keymap clock key engine record line rest now)
    (input : record.event.IsInput) :
    Follows clock key (engine.processTapping keymap record).engine
      (if (engine.processTapping keymap record).handled then rest else line)
        engine.arrived.length := by
  have plainPress : (record.event.pressed = true → keymap.isTapKey record.event = false) →
      ∀ count : Nat, record.event.isPressOf key = true → 1 < count := by
    intro plain count press
    have tap := isTapKey_of_press action press
    rw [plain (KeyEvent.isPressOf_iff.mp press).2] at tap
    contradiction
  have noPress : record.event.pressed = false → ∀ count : Nat, record.event.isPressOf key = true →
      1 < count := by
    intro released count press
    rw [KeyEvent.not_isPressOf released] at press
    contradiction
  have outcome := Engine.processTapping_outcome keymap engine record
  generalize engine.processTapping keymap record = processed at outcome
  cases outcome with
  | firstTap undecided within own =>
      exact follows.firstTap action isKey steady call input undecided within own
  | retained undecided _ other => exact follows.idle call input undecided other
  | early undecided _ other _ released fresh =>
      exact follows.early call input undecided other released fresh
  | interrupt undecided _ pressed => exact follows.interrupt call undecided pressed
  | wait undecided _ other => exact follows.idle call input undecided other
  | timeout undecided expired => exact follows.timeout call undecided expired
  | tapRelease held own =>
      refine follows.hand call (Engine.not_undecided_of_held held) ?_ rfl rfl rfl rfl
        (noPress own.2 _)
      intro undecided
      have pressed := Engine.tappingKey_pressed undecided
      rw [Engine.setTappingKey_tappingKey] at pressed
      split at pressed
      · rw [own.2] at pressed
        contradiction
      · exact absurd pressed (by decide)
  | restart held pressed tap =>
      have settled := Engine.not_undecided_of_held held
      have same :
          (engine.releaseLastTap keymap record.event.time).tappingKey = engine.tappingKey := by
        unfold Engine.releaseLastTap
        split <;> rfl
      have still : (engine.releaseLastTap keymap record.event.time).TapHeld := by
        simp only [Engine.TapHeld, Engine.isTappingPressed, Engine.isTapping, same]
        exact held
      have next :=
        (@Follows.releaseLastTap _ _ _ _ _ keymap record.event.time follows settled).startTapping
        call.releaseLastTap (mt (Engine.undecided_congr same).mp settled) pressed ⟨pressed, tap,
          .inr (.inl still)⟩
      rw [Engine.releaseLastTap_arrived] at next
      exact next
  | typing held _ plain =>
      have settled := Engine.not_undecided_of_held held
      exact follows.hand call settled settled rfl rfl rfl rfl (plainPress plain _)
  | sequential released _ pressed _ _ tapped =>
      have many : 1 < (engine.sequential record).tap.count := by
        simp only [Engine.sequential]
        split <;> omega
      refine follows.hand call (Engine.not_undecided_of_released released) (fun undecided => ?_) rfl
        rfl rfl rfl fun _ => many
      have count : (engine.sequential record).tap.count = 0 := undecided.2
      omega
  | again released within pressed own spent =>
      exact follows.again call pressed ⟨released, within, own, spent⟩
  | interfere released within pressed other tap =>
      exact follows.startTapping call (Engine.not_undecided_of_released released) pressed
        ⟨pressed, tap, .inr (.inr ⟨released, within, other⟩)⟩
  | spend released _ _ _ plain =>
      have settled := Engine.not_undecided_of_released released
      exact follows.hand call settled settled rfl rfl rfl rfl (plainPress (fun _ => plain) _)
  | after released _ lifted =>
      have settled := Engine.not_undecided_of_released released
      exact follows.hand call settled settled rfl rfl rfl rfl (noPress lifted _)
  | expire released =>
      refine follows.stay rfl (fun undecided => absurd undecided (Engine.not_undecided_of_idle rfl))
        (fun _ member => .inl member)
        (fun _ member => member) fun undecided => absurd undecided
          (Engine.not_undecided_of_released released)
  | start idle pressed tap =>
      exact follows.startTapping call (Engine.not_undecided_of_idle idle) pressed
        ⟨pressed, tap, .inl idle⟩
  | direct idle plain =>
      have settled := Engine.not_undecided_of_idle idle
      exact follows.hand call settled settled rfl rfl rfl rfl (plainPress plain _)

end Moves

end BleKeyboard.Tmk
