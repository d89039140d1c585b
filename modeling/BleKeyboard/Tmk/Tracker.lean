import BleKeyboard.Tmk.Queue

namespace BleKeyboard.Tmk

def Alternates : Bool → List Bool → Prop
  | _, [] => True
  | next, pressed :: rest => pressed = next ∧ Alternates (!next) rest

def following (next : Bool) (flags : List Bool) : Bool := flags.foldl (fun due _ => !due) next

instance Alternates.decidable : ∀ next flags, Decidable (Alternates next flags)
  | _, [] => .isTrue trivial
  | next, pressed :: rest =>
      have := Alternates.decidable (!next) rest
      inferInstanceAs (Decidable (pressed = next ∧ Alternates (!next) rest))

theorem following_append {next : Bool} {first second : List Bool} :
    following next (first ++ second) = following (following next first) second :=
  List.foldl_append

theorem alternates_append {next : Bool} {first second : List Bool} :
    Alternates next (first ++ second) ↔
    Alternates next first ∧ Alternates (following next first) second := by
  induction first generalizing next with
  | nil => simp [Alternates, following]
  | cons pressed rest ih =>
      simp only [List.cons_append, Alternates, ih, and_assoc]
      rfl

theorem alternates_last {next first second : Bool} {flags : List Bool}
    (alternates : Alternates next (flags ++ [first, second])) : second = !first := by
  obtain ⟨_, here, there, _⟩ := alternates_append.mp alternates
  rw [here, there]

def KeyEvent.isEdgeOf (key : KeyPos) (event : KeyEvent) : Bool :=
  !event.isNoEvent && event.key = key

def edgesOf (key : KeyPos) (events : List KeyEvent) : List KeyEvent :=
  events.filter (KeyEvent.isEdgeOf key)

def recordsOf (key : KeyPos) (records : List KeyRecord) : List KeyRecord :=
  records.filter fun record => record.event.isEdgeOf key

/-- Where a key stands with `process_action`: up, pressed but not handed over (and interrupted or
not), or down as a tap or as a hold. -/
inductive Phase where
  | free
  | pending (interrupted : Bool)
  | tapped
  | held
deriving DecidableEq

def Phase.expects : Phase → Bool
  | .free => true
  | .pending _ => true
  | .tapped => false
  | .held => false

/-- What is said of a key in each phase, and that the calls of `process_action`
keep to it.  The edges seen so far do not include one that is pending.  A lenient
tracker puts up with cancelled taps and synthetic releases. -/
structure Tracker (keymap : Keymap) (key : KeyPos) (lenient : Bool) where
  At : Phase → Observed → List KeyEvent → Prop
  frame : ∀ {phase observed seen} record pending, record.event.isEdgeOf key = false →
    At phase observed seen →
    At phase (observed.hand keymap record pending) seen
  start : ∀ {observed seen}, (keymap.actionForKey 0 key).isTap = true → At .free observed seen →
    At (.pending false) observed seen
  interrupt : ∀ {observed seen interrupted}, At (.pending interrupted) observed seen →
    At (.pending true) observed seen
  press : ∀ {observed seen} record pending, record.event.isEdgeOf key = true →
    record.event.pressed = true →
    record.tap.count = 0 → keymap.isTapKey record.event = false → At .free observed seen →
    At .held (observed.hand keymap record pending) (seen ++ [record.event])
  hold : ∀ {observed seen interrupted} record pending, record.event.isEdgeOf key = true →
    record.event.pressed = true →
    record.tap.count = 0 → At (.pending interrupted) observed seen →
    At .held (observed.hand keymap record pending) (seen ++ [record.event])
  tap : ∀ {observed seen} record pending, record.event.isEdgeOf key = true →
    record.event.pressed = true →
    0 < record.tap.count → keymap.cancelsTap record = false →
    At (.pending record.tap.interrupted) observed seen →
    At .tapped (observed.hand keymap record pending) (seen ++ [record.event])
  cancel : ∀ {observed seen} record pending, lenient = true → record.event.isEdgeOf key = true →
    keymap.cancelsTap record = true → At (.pending true) observed seen →
    At (.pending true) (observed.hand keymap record pending) seen
  tapRelease : ∀ {observed seen} record pending, record.event.isEdgeOf key = true →
    record.event.pressed = false →
    0 < record.tap.count → At .tapped observed seen →
    At .free (observed.hand keymap record pending) (seen ++ [record.event])
  holdRelease : ∀ {observed seen} record pending, record.event.isEdgeOf key = true →
    record.event.pressed = false →
    record.tap.count = 0 → At .held observed seen →
    At .free (observed.hand keymap record pending) (seen ++ [record.event])
  synthetic : ∀ {observed seen} record pending, lenient = true → record.event.isEdgeOf key = true →
    record.event.pressed = false → 0 < record.tap.count → At .tapped observed seen →
    At .held (observed.hand keymap record pending) seen

def KeyRecord.Fresh (record : KeyRecord) : Prop :=
  record.tap.count = 0 ∧ (record.event.pressed = true → record.tap = Tap.zero)

namespace Engine

def Presses (engine : Engine) (key : KeyPos) : Prop :=
  engine.isTappingPressed = true ∧ engine.tappingKey.event.key = key

/-- The scan for the release of a new tapping key, if it
finds one, finds the oldest release of that key. -/
def ScansFirst (engine : Engine) (record : KeyRecord) : Prop :=
  ∀ oldest ∈ engine.waitingBuffer.find? (fun other => other.event.key = record.event.key &&
    !other.event.pressed),
    ∀ other ∈ engine.waitingBuffer, (engine.setTappingKey record).endsTap other = true →
      (engine.setTappingKey record).endsTap oldest = true

def Starts (keymap : Keymap) (engine : Engine) (record : KeyRecord) : Prop :=
  record.event.pressed = true ∧ keymap.isTapKey record.event = true ∧
    (engine.isTapping = false ∨ engine.TapHeld ∨ engine.isTappingReleased = true ∧
      engine.withinTappingTerm record.event = true ∧ engine.isTappingKey record.event.key = false)

/-- No first tap is cancelled because another key was pressed meanwhile. -/
def KeepsTap (keymap : Keymap) (engine : Engine) (record : KeyRecord) : Prop :=
  engine.Undecided → engine.withinTappingTerm record.event = true → engine.OwnRelease record.event →
    keymap.cancelsTap (engine.tappingKey.setCount 1) = false

/-- No release is made up for a sequential tap that is held while another tap key is pressed. -/
def NoneMadeUp (keymap : Keymap) (engine : Engine) (record : KeyRecord) : Prop :=
  engine.TapHeld → record.event.pressed = true → keymap.isTapKey record.event = true →
    engine.tappingKey.tap.count ≤ 1

/-- The call keeps the records of every key in step. -/
def Tame (keymap : Keymap) (lenient : Bool) (engine : Engine) (record : KeyRecord) : Prop :=
  (lenient = false → engine.KeepsTap keymap record ∧ engine.NoneMadeUp keymap record) ∧
    (engine.Starts keymap record → engine.ScansFirst record)

/-- The record does not overtake another of its key: none waits,
or a tap is pending that the record does not decide. -/
def NotOvertaking (keymap : Keymap) (lenient : Bool) (engine : Engine)
    (record : KeyRecord) : Prop :=
  (∀ waiting ∈ engine.waitingBuffer, waiting.event.key ≠ record.event.key) ∨
    engine.Undecided ∧
    (engine.OwnRelease record.event → engine.withinTappingTerm record.event = true →
      lenient = true ∧ keymap.cancelsTap (engine.tappingKey.setCount 1) = true)

instance (keymap : Keymap) (lenient : Bool) (engine : Engine) (record : KeyRecord) :
    Decidable (engine.Tame keymap lenient record) := by
  unfold Tame KeepsTap NoneMadeUp Starts ScansFirst
  infer_instance

instance (keymap : Keymap) (lenient : Bool) (engine : Engine) (record : KeyRecord) :
    Decidable (engine.NotOvertaking keymap lenient record) := inferInstanceAs (Decidable (_ ∨ _))

def undecidedEdge (engine : Engine) (key : KeyPos) : List KeyEvent :=
  if engine.Undecided ∧ engine.tappingKey.event.key = key then [engine.tappingKey.event] else []

end Engine

/-- How the phase of a key shows in the tapping key and in the records that are owed. -/
inductive Standing (key : KeyPos) (engine : Engine) : Phase → List KeyRecord → Prop
  | free {owed : List KeyRecord} (apart : ¬ engine.Presses key)
      (fresh : ∀ record ∈ owed, record.Fresh) :
      Standing key engine .free owed
  | held {owed : List KeyRecord} (apart : ¬ engine.Presses key)
      (fresh : ∀ record ∈ owed, record.Fresh) :
      Standing key engine .held owed
  | pending {owed : List KeyRecord} (undecided : engine.Undecided)
      (own : engine.tappingKey.event.key = key) (fresh : ∀ record ∈ owed, record.Fresh) :
        Standing key engine (.pending engine.tappingKey.tap.interrupted) owed
  | down {owed : List KeyRecord} (held : engine.TapHeld) (own : engine.tappingKey.event.key = key)
      (many : 1 < engine.tappingKey.tap.count) (fresh : ∀ record ∈ owed, record.Fresh) :
        Standing key engine .tapped owed
  | marked {record : KeyRecord} {rest : List KeyRecord}
      (settled : engine.Presses key → engine.tappingKey.tap.count = 1)
      (tapped : record.tap.count ≠ 0)
      (fresh : ∀ record ∈ rest, record.Fresh) : Standing key engine .tapped (record :: rest)

def Processed.left (processed : Processed) : List KeyRecord :=
  if processed.handled then []
  else [processed.record]

/-- The tracker is at the phase, and the edges of the key are those
seen, the pending one and those of the records owed. -/
structure Track {keymap : Keymap} {key : KeyPos} {lenient : Bool}
    (tracker : Tracker keymap key lenient) (engine : Engine)
    (owed : List KeyRecord) (phase : Phase) (seen : List KeyEvent) : Prop where
  now : tracker.At phase engine.observed seen
  arrived :
    edgesOf key engine.arrived = seen ++ (engine.undecidedEdge key ++ owed.map KeyRecord.event)
  alternates : Alternates true ((edgesOf key engine.arrived).map KeyEvent.pressed)
  due : following true (seen.map KeyEvent.pressed) = phase.expects
  edges : ∀ record ∈ owed, record.event.isEdgeOf key = true
  standing : Standing key engine phase owed
  tap : engine.isTapping = true → engine.tappingKey.event.key = key →
    (keymap.actionForKey 0 key).isTap = true

section Engines

variable {engine next : Engine} {key : KeyPos}

namespace Engine

theorem undecidedEdge_apart (apart : ¬ engine.Presses key) : engine.undecidedEdge key = [] :=
  if_neg fun own => apart ⟨own.1.1, own.2⟩

theorem undecidedEdge_settled (settled : ¬ engine.Undecided) : engine.undecidedEdge key = [] :=
  if_neg fun own => settled own.1

theorem undecidedEdge_own (undecided : engine.Undecided) (own : engine.tappingKey.event.key = key) :
    engine.undecidedEdge key = [engine.tappingKey.event] :=
  if_pos ⟨undecided, own⟩

theorem undecided_congr (same : next.tappingKey = engine.tappingKey) :
    next.Undecided ↔ engine.Undecided := by
  simp only [Undecided, isTappingPressed, isTapping, same]

theorem firstTap_cancelled {keymap : Keymap} (undecided : engine.Undecided)
    (cancels : keymap.cancelsTap (engine.tappingKey.setCount 1) = true) :
    (engine.firstTap keymap).tappingKey = engine.tappingKey ∧ (engine.firstTap keymap).Undecided ∧
      engine.tappingKey.tap.interrupted = true := by
  have restored : engine.tappingKey.setCount 0 = engine.tappingKey := undecided.2 ▸ rfl
  have same : (engine.firstTap keymap).tappingKey = engine.tappingKey := by
    simp only [firstTap, processTappingKey_tappingKey, setTappingKey_tappingKey,
      Keymap.processedRecord, cancels, if_true]
    exact restored
  refine ⟨same, (undecided_congr same).mpr undecided, ?_⟩
  simp only [Keymap.cancelsTap, KeyRecord.setCount, Bool.and_eq_true] at cancels
  exact cancels.1.2

theorem not_presses_of_released (released : engine.isTappingReleased = true) :
    ¬ engine.Presses key := fun presses =>
  not_released_of_pressed presses.1 released

theorem not_presses_of_idle (idle : engine.isTapping = false) : ¬ engine.Presses key := by
  intro given
  rcases given with ⟨pressed, _⟩
  simp [isTappingPressed, idle] at pressed

end Engine

namespace KeyEvent

variable {event : KeyEvent}

theorem isEdgeOf_iff : event.isEdgeOf key = true ↔ event.isNoEvent = false ∧ event.key = key := by
  simp [isEdgeOf]

theorem isEdgeOf_other (other : event.key ≠ key) : event.isEdgeOf key = false := by
  simp [isEdgeOf, other]

theorem isEdgeOf_tappingKey (input : event.IsInput) (tapping : engine.isTapping = true)
    (same : event.key = engine.tappingKey.event.key) (own : engine.tappingKey.event.key = key) :
    event.isEdgeOf key = true := by
  obtain real | tick := input
  · exact isEdgeOf_iff.mpr ⟨real, same.trans own⟩
  · have real := Engine.tappingKey_real tapping
    have noEvent : engine.tappingKey.event.isNoEvent = true := by
      rw [tick] at same
      simp [isNoEvent, ← same, KeyEvent.tick]
    rw [noEvent] at real
    contradiction

end KeyEvent

variable {record : KeyRecord} {records rest : List KeyRecord}

theorem recordsOf_cons_own (own : record.event.isEdgeOf key = true) :
    recordsOf key (record :: records) = record :: recordsOf key records := by
  simp [recordsOf, own]

theorem recordsOf_cons_other (other : record.event.isEdgeOf key = false) :
    recordsOf key (record :: records) = recordsOf key records := by
  simp [recordsOf, other]

theorem recordsOf_append :
    recordsOf key (records ++ rest) = recordsOf key records ++ recordsOf key rest :=
  List.filter_append _ _

theorem recordsOf_concat (alone : record.event.isEdgeOf key = true → recordsOf key records = []) :
    recordsOf key (records ++ [record]) = recordsOf key (record :: records) := by
  rw [recordsOf_append]
  cases own : record.event.isEdgeOf key with
  | false =>
      rw [recordsOf_cons_other own, recordsOf_cons_other own]
      exact List.append_nil _
  | true =>
      rw [recordsOf_cons_own own, recordsOf_cons_own own, alone own]
      rfl

theorem recordsOf_edge (member : record ∈ recordsOf key records) :
    record.event.isEdgeOf key = true :=
  (List.mem_filter.mp member).2

namespace Standing

variable {phase : Phase} {owed : List KeyRecord}

theorem apart (standing : Standing key engine phase owed) (before : ¬ engine.Presses key)
    (after : ¬ next.Presses key) :
    Standing key next phase owed := by
  cases standing with
  | free _ fresh => exact .free after fresh
  | held _ fresh => exact .held after fresh
  | pending undecided own => exact absurd ⟨undecided.1, own⟩ before
  | down held own => exact absurd ⟨held.1, own⟩ before
  | marked _ tapped fresh => exact .marked (fun presses => absurd presses after) tapped fresh

theorem congr (standing : Standing key engine phase owed)
    (same : next.tappingKey = engine.tappingKey) :
    Standing key next phase owed := by
  have presses : next.Presses key ↔ engine.Presses key := by
    simp only [Engine.Presses, Engine.isTappingPressed, Engine.isTapping, same]
  have heldIff : next.TapHeld ↔ engine.TapHeld := by
    simp only [Engine.TapHeld, Engine.isTappingPressed, Engine.isTapping, same]
  cases standing with
  | free apart fresh => exact .free (mt presses.mp apart) fresh
  | held apart fresh => exact .held (mt presses.mp apart) fresh
  | pending undecided own fresh =>
      rw [← same] at own ⊢
      exact .pending ((Engine.undecided_congr same).mpr undecided) own fresh
  | down held own many fresh =>
      rw [← same] at own many
      exact .down (heldIff.mpr held) own many fresh
  | marked settled tapped fresh =>
      rw [← same] at settled
      exact .marked (fun own => settled (presses.mp own)) tapped fresh

theorem phase_of_undecided (standing : Standing key engine phase owed)
    (undecided : engine.Undecided) (own : engine.tappingKey.event.key = key) :
    phase = .pending engine.tappingKey.tap.interrupted ∧ ∀ record ∈ owed, record.Fresh := by
  cases standing with
  | free apart | held apart => exact absurd ⟨undecided.1, own⟩ apart
  | pending _ _ fresh => exact ⟨rfl, fresh⟩
  | down held => exact absurd undecided (Engine.not_undecided_of_held held)
  | marked settled =>
      have once := settled ⟨undecided.1, own⟩
      have zero := undecided.2
      omega

theorem phase_of_held (standing : Standing key engine phase owed) (held : engine.TapHeld)
    (own : engine.tappingKey.event.key = key) : phase = .tapped := by
  cases standing with
  | free apart | held apart => exact absurd ⟨held.1, own⟩ apart
  | pending undecided => exact absurd undecided (Engine.not_undecided_of_held held)
  | down | marked => rfl

end Standing

end Engines

namespace Track

variable {keymap : Keymap} {key : KeyPos} {lenient : Bool} {tracker : Tracker keymap key lenient}
  {engine next : Engine} {record : KeyRecord} {owed rest : List KeyRecord} {phase : Phase}
  {seen : List KeyEvent}

theorem flags (track : Track tracker engine owed phase seen) :
    Alternates phase.expects
      ((engine.undecidedEdge key ++ owed.map KeyRecord.event).map KeyEvent.pressed) := by
  have alternates := track.alternates
  rw [track.arrived, List.map_append, alternates_append, track.due] at alternates
  exact alternates.2

theorem head_pressed (track : Track tracker engine (record :: rest) phase seen)
    (apart : ¬ engine.Presses key) :
    record.event.pressed = phase.expects := by
  have flags := track.flags
  rw [Engine.undecidedEdge_apart apart] at flags
  exact flags.1

theorem head_released (track : Track tracker engine (record :: rest) phase seen)
    (undecided : engine.Undecided)
    (own : engine.tappingKey.event.key = key) : record.event.pressed = false := by
  have flags := track.flags
  rw [Engine.undecidedEdge_own undecided own,
    (track.standing.phase_of_undecided undecided own).1] at flags
  exact flags.2.1

theorem shift (track : Track tracker engine owed phase seen) {after : Phase}
    (now : tracker.At after next.observed seen)
    (arrived : next.arrived = engine.arrived) (before : engine.undecidedEdge key = [])
    (settled : next.undecidedEdge key = [])
    (turn : after.expects = phase.expects) (standing : Standing key next after owed)
    (tap : next.isTapping = true → next.tappingKey.event.key = key →
      (keymap.actionForKey 0 key).isTap = true) :
    Track tracker next owed after seen where
  now := now
  arrived := by
    rw [arrived, track.arrived, before, settled]
  alternates := by
    rw [arrived]
    exact track.alternates
  due := track.due.trans turn.symm
  edges := track.edges
  standing := standing
  tap := tap

theorem frame (track : Track tracker engine owed phase seen)
    (now : tracker.At phase next.observed seen)
    (arrived : next.arrived = engine.arrived) (before : ¬ engine.Presses key)
    (after : ¬ next.Presses key) (tap : next.isTapping = true → next.tappingKey.event.key = key →
      (keymap.actionForKey 0 key).isTap = true) :
    Track tracker next owed phase seen :=
  track.shift now arrived (Engine.undecidedEdge_apart before) (Engine.undecidedEdge_apart after) rfl
    (track.standing.apart before after) tap

theorem bystand (track : Track tracker engine owed phase seen)
    (now : tracker.At phase next.observed seen)
    (arrived : next.arrived = engine.arrived) (same : next.tappingKey = engine.tappingKey) :
    Track tracker next owed phase seen where
  now := now
  arrived := by
    have undecided : next.undecidedEdge key = engine.undecidedEdge key := by
      simp only [Engine.undecidedEdge, Engine.undecided_congr same, same]
    rw [arrived, undecided]
    exact track.arrived
  alternates := by
    rw [arrived]
    exact track.alternates
  due := track.due
  edges := track.edges
  standing := track.standing.congr same
  tap := by
    simp only [Engine.isTapping, same]
    exact track.tap

theorem take (track : Track tracker engine (record :: rest) phase seen) {after : Phase}
    (now : tracker.At after next.observed (seen ++ [record.event]))
    (arrived : next.arrived = engine.arrived) (before : engine.undecidedEdge key = [])
    (settled : ¬ (next.Undecided ∧ next.tappingKey.event.key = key))
    (turn : after.expects = !phase.expects) (standing : Standing key next after rest)
    (tap : next.isTapping = true → next.tappingKey.event.key = key →
      (keymap.actionForKey 0 key).isTap = true) :
    Track tracker next rest after (seen ++ [record.event]) where
  now := now
  arrived := by
    rw [arrived, track.arrived, before]
    simp [Engine.undecidedEdge, settled]
  alternates := by
    rw [arrived]
    exact track.alternates
  due := by
    rw [List.map_append, following_append, track.due]
    exact turn.symm
  edges := fun other member => track.edges other (List.mem_cons_of_mem _ member)
  standing := standing
  tap := tap

theorem settle (track : Track tracker engine owed phase seen) (undecided : engine.Undecided)
    (own : engine.tappingKey.event.key = key) {after : Phase} {left : List KeyRecord}
    (now : tracker.At after next.observed (seen ++ [engine.tappingKey.event]))
    (arrived : next.arrived = engine.arrived)
    (settled : ¬ next.Undecided) (down : after.expects = false)
    (standing : Standing key next after left)
    (same : left.map KeyRecord.event = owed.map KeyRecord.event)
    (edges : ∀ record ∈ left, record.event.isEdgeOf key = true)
    (tap : next.isTapping = true → next.tappingKey.event.key = key →
      (keymap.actionForKey 0 key).isTap = true) :
    Track tracker next left after (seen ++ [engine.tappingKey.event]) where
  now := now
  arrived := by
    rw [arrived, track.arrived, Engine.undecidedEdge_own undecided own,
      Engine.undecidedEdge_settled settled, same]
    simp
  alternates := by
    rw [arrived]
    exact track.alternates
  due := by
    rw [List.map_append, following_append, track.due,
      (track.standing.phase_of_undecided undecided own).1, down]
    rfl
  edges := edges
  standing := standing
  tap := tap

theorem handDirectly (track : Track tracker engine (record :: rest) phase seen)
    {pending : KeyRecord} (observed : next.observed = engine.observed.hand keymap record pending)
    (arrived : next.arrived = engine.arrived)
    (before : ¬ engine.Presses key) (after : ¬ next.Presses key)
    (plain : record.event.pressed = true → keymap.isTapKey record.event = false)
    (tap : next.isTapping = true → next.tappingKey.event.key = key →
      (keymap.actionForKey 0 key).isTap = true) :
    ∃ phase seen, Track tracker next rest phase seen := by
  have edge := track.edges record (by simp)
  have pressed := track.head_pressed before
  have open' : ¬ (next.Undecided ∧ next.tappingKey.event.key = key) :=
    fun own => after ⟨own.1.1, own.2⟩
  have edgeless := Engine.undecidedEdge_apart before
  cases standing : track.standing with
  | free _ fresh =>
      have now := tracker.press record pending edge pressed (fresh record (by simp)).1
        (plain pressed) track.now
      rw [← observed] at now
      exact ⟨_, _, track.take now arrived edgeless open' rfl
        (.held after fun other member => fresh other (List.mem_cons_of_mem _ member)) tap⟩
  | held _ fresh =>
      have now :=
        tracker.holdRelease record pending edge pressed (fresh record (by simp)).1 track.now
      rw [← observed] at now
      exact ⟨_, _, track.take now arrived edgeless open' rfl
        (.free after fun other member => fresh other (List.mem_cons_of_mem _ member)) tap⟩
  | pending undecided own => exact absurd ⟨undecided.1, own⟩ before
  | down held own => exact absurd ⟨held.1, own⟩ before
  | marked _ tapped fresh =>
      have now :=
        tracker.tapRelease record pending edge pressed (Nat.pos_of_ne_zero tapped) track.now
      rw [← observed] at now
      exact ⟨_, _, track.take now arrived edgeless open' rfl (.free after fresh) tap⟩

theorem fresh_of_expects (track : Track tracker engine owed phase seen)
    (apart : ¬ engine.Presses key)
    (due : phase.expects = true) : phase = .free ∧ ∀ record ∈ owed, record.Fresh := by
  cases track.standing with
  | free _ fresh => exact ⟨rfl, fresh⟩
  | pending undecided own => exact absurd ⟨undecided.1, own⟩ apart
  | held | down | marked => cases due

theorem line_split {head before after : List KeyRecord} {ending : KeyRecord}
    (place : head = [] ∨ head = [record])
    (pressed : record.event.pressed = true) (released : ending.event.pressed = false)
    (line : head ++ rest = before ++ ending :: after) :
    ∃ between, before = head ++ between ∧ rest = between ++ ending :: after := by
  obtain rfl | rfl := place
  · exact ⟨before, rfl, line⟩
  · cases before with
    | nil =>
        simp only [List.cons_append, List.nil_append, List.cons.injEq] at line
        rw [← line.1, pressed] at released
        contradiction
    | cons first between =>
        simp only [List.cons_append, List.nil_append, List.cons.injEq] at line
        exact ⟨between, by simp [line.1], line.2⟩

theorem endsTap_iff {ending : KeyRecord}
    (ends : (engine.setTappingKey record).endsTap ending = true) :
    record.event.isNoEvent = false ∧ ending.event.key = record.event.key ∧
    ending.event.pressed = false := by
  simp only [Engine.endsTap, Engine.isTappingKey, Engine.isTapping, Engine.setTappingKey_tappingKey,
    Bool.and_eq_true, Bool.not_eq_true'] at ends
  exact ⟨ends.1.1.1, (of_decide_eq_true ends.1.1.2).symm, ends.1.2⟩

theorem no_earlier_release {before after : List KeyRecord} {ending : KeyRecord}
    (scans : engine.ScansFirst record) (split : engine.waitingBuffer = before ++ ending :: after)
    (ends : (engine.setTappingKey record).endsTap ending = true)
    (earlier : ∀ other ∈ before, (engine.setTappingKey record).endsTap other = false) :
    ∀ other ∈ before, other.event.key = record.event.key → other.event.pressed = true := by
  intro other member same
  by_contra lifted
  have released : other.event.pressed = false := by simpa using lifted
  let sought : KeyRecord → Bool :=
    fun waiting => waiting.event.key = record.event.key && !waiting.event.pressed
  have inside : (before.find? sought).isSome = true := by
    rw [List.find?_isSome]
    exact ⟨other, member, by simp [sought, same, released]⟩
  obtain ⟨oldest, first⟩ := Option.isSome_iff_exists.mp inside
  have whole : engine.waitingBuffer.find? sought = some oldest := by
    rw [split, List.find?_append, first]
    rfl
  have own := scans oldest whole ending (by simp [split]) ends
  rw [earlier oldest (List.mem_of_find?_eq_some first)] at own
  contradiction

theorem become (track : Track tracker engine (record :: rest) phase seen)
    (apart : ¬ engine.Presses key)
    (pressed : record.event.pressed = true) (isTap : (keymap.actionForKey 0 key).isTap = true) :
    tracker.At (.pending false) engine.observed seen ∧ (engine.setTappingKey record).Undecided ∧
      record.tap = Tap.zero ∧ (∀ other ∈ rest, other.Fresh) ∧
      Track tracker (engine.setTappingKey record) rest (.pending false) seen := by
  obtain ⟨real, own⟩ := KeyEvent.isEdgeOf_iff.mp (track.edges record (by simp))
  obtain ⟨rfl, fresh⟩ :=
    track.fresh_of_expects apart (pressed.symm.trans (track.head_pressed apart)).symm
  have zero := (fresh record (by simp)).2 pressed
  have calm : record.tap.interrupted = false := by
    rw [zero]
    rfl
  have restFresh : ∀ other ∈ rest, other.Fresh :=
    fun other member => fresh other (List.mem_cons_of_mem _ member)
  have undecided : (engine.setTappingKey record).Undecided :=
    Engine.Arranged.undecided_of_press real pressed zero
  have begun := tracker.start isTap track.now
  refine ⟨begun, undecided, zero, restFresh, ?_⟩
  exact
    { now := begun
      arrived := by
        have edge : (engine.setTappingKey record).undecidedEdge key = [record.event] :=
          Engine.undecidedEdge_own undecided own
        have arrived := track.arrived
        rw [Engine.undecidedEdge_apart apart] at arrived
        rw [edge]
        exact arrived
      alternates := track.alternates
      due := track.due
      edges := fun other member => track.edges other (List.mem_cons_of_mem _ member)
      standing := calm ▸ .pending undecided own restFresh
      tap := fun _ _ => isTap }

theorem startTapping {head : List KeyRecord}
    (track : Track tracker engine (recordsOf key (record :: rest)) phase seen)
    (line : engine.waitingBuffer = head ++ rest) (place : head = [] ∨ head = [record])
    (real : ∀ other ∈ rest, other.event.isNoEvent = false) (apart : ¬ engine.Presses key)
    (pressed : record.event.pressed = true) (tapKey : keymap.isTapKey record.event = true)
    (scans : engine.ScansFirst record) :
    ∃ phase seen rest', (engine.startTapping keymap record).waitingBuffer = head ++ rest' ∧
      Track tracker (engine.startTapping keymap record) (recordsOf key rest') phase seen := by
  obtain ⟨isReal, isTap⟩ := Keymap.isTapKey_iff.mp tapKey
  have started := Engine.startTapping_started keymap engine record
  generalize engine.startTapping keymap record = after at started
  cases own : record.event.isEdgeOf key with
  | false =>
      rw [recordsOf_cons_other own] at track
      have otherKey : record.event.key ≠ key := by simpa [KeyEvent.isEdgeOf, isReal] using own
      cases started with
      | settled | pending =>
          exact ⟨phase, seen, rest, line,
            track.frame track.now rfl apart (fun presses => otherKey presses.2)
            fun _ same => absurd same otherKey⟩
      | tapped before ending following undecided down split ends =>
          obtain ⟨_, sameKey, released⟩ := endsTap_iff ends
          obtain ⟨between, rfl, rfl⟩ := line_split place pressed released (line.symm.trans split)
          have endingOther : ending.event.isEdgeOf key = false :=
            KeyEvent.isEdgeOf_other (sameKey ▸ otherKey)
          have unmarked : recordsOf key (between ++ ending.setCount 1 :: following) =
              recordsOf key (between ++ ending :: following) := by
            have markedOther : (ending.setCount 1).event.isEdgeOf key = false := endingOther
            rw [recordsOf_append, recordsOf_append, recordsOf_cons_other endingOther,
              recordsOf_cons_other markedOther]
          refine ⟨phase, seen, between ++ ending.setCount 1 :: following, by simp, ?_⟩
          rw [unmarked]
          refine track.frame (tracker.frame (record.setCount 1) (record.setCount 1) own track.now)
            rfl apart ?_ ?_
          · intro given
            rcases given with ⟨_, same⟩
            exact otherKey (by simpa [KeyRecord.setCount] using same)
          · intro _ same
            exact absurd (by simpa [KeyRecord.setCount] using same) otherKey
  | true =>
      rw [recordsOf_cons_own own] at track
      obtain ⟨_, rfl⟩ := KeyEvent.isEdgeOf_iff.mp own
      obtain ⟨begun, undecided, zero, restFresh, begins⟩ := track.become apart pressed isTap
      have calm : record.tap.interrupted = false := by
        rw [zero]
        rfl
      cases started with
      | settled done =>
          obtain tapped | released := done
          · exact absurd (by rw [zero]; rfl) tapped
          · rw [pressed] at released
            contradiction
      | pending => exact ⟨_, _, rest, line, begins⟩
      | tapped before ending following _ _ split ends earlier =>
          obtain ⟨_, sameKey, released⟩ := endsTap_iff ends
          have early := no_earlier_release scans split ends earlier
          obtain ⟨between, rfl, rfl⟩ := line_split place pressed released (line.symm.trans split)
          have endingOwn : ending.event.isEdgeOf record.event.key = true :=
            KeyEvent.isEdgeOf_iff.mpr ⟨real ending (by simp), sameKey⟩
          have markedOwn : (ending.setCount 1).event.isEdgeOf record.event.key = true := endingOwn
          have first : recordsOf record.event.key between = [] := by
            cases found : recordsOf record.event.key between with
            | nil => rfl
            | cons other more =>
                have inside : other ∈ recordsOf record.event.key between := by simp [found]
                rw [recordsOf_append, found] at begins
                have lifted := begins.head_released undecided rfl
                have down := early other (List.mem_append_right _ (List.mem_filter.mp inside).1)
                  (KeyEvent.isEdgeOf_iff.mp (recordsOf_edge inside)).2
                rw [lifted] at down
                contradiction
          have unchanged : keymap.processedRecord (record.setCount 1) = record.setCount 1 :=
            Keymap.processedRecord_uninterrupted calm
          have spared : keymap.cancelsTap (record.setCount 1) = false := by
            simp [Keymap.cancelsTap, KeyRecord.setCount, calm]
          rw [recordsOf_append, first, List.nil_append, recordsOf_cons_own endingOwn]
            at begins restFresh
          have tapped :=
            tracker.tap (record.setCount 1) (record.setCount 1) own pressed Nat.one_pos spared
            (calm ▸ begun)
          refine ⟨.tapped, seen ++ [record.event], between ++ ending.setCount 1 :: following,
            by simp, ?_⟩
          rw [recordsOf_append, first, List.nil_append, recordsOf_cons_own markedOwn]
          refine begins.settle undecided rfl tapped rfl ?_ rfl ?_ rfl ?_ fun _ _ => isTap
          · intro open'
            have count := open'.2
            rw [Engine.processTappingKey_tappingKey, unchanged] at count
            exact absurd count (by simp [KeyRecord.setCount])
          · refine .marked (fun _ => ?_) (by simp [KeyRecord.setCount]) fun other member =>
              restFresh other (List.mem_cons_of_mem _ member)
            rw [Engine.processTappingKey_tappingKey, unchanged]
            rfl
          · intro other member
            cases List.mem_cons.mp member with
            | inl same => rw [same]; exact markedOwn
            | inr inside => exact recordsOf_edge inside

theorem held_released (track : Track tracker engine (record :: rest) phase seen)
    (held : engine.TapHeld)
    (own : engine.tappingKey.event.key = key) : record.event.pressed = false := by
  have flags := track.flags
  rw [Engine.undecidedEdge_settled (Engine.not_undecided_of_held held),
    track.standing.phase_of_held held own] at flags
  exact flags.1

theorem process (track : Track tracker engine (recordsOf key (record :: rest)) phase seen)
    (apart : record.event.isEdgeOf key = true → ¬ engine.Presses key)
    (plain : record.event.pressed = true → keymap.isTapKey record.event = false) :
    ∃ phase seen,
      Track tracker (engine.processAction keymap record) (recordsOf key rest) phase seen := by
  cases own : record.event.isEdgeOf key with
  | false =>
      rw [recordsOf_cons_other own] at track
      exact ⟨phase, seen,
        track.bystand (tracker.frame record engine.tappingKey own track.now) rfl rfl⟩
  | true =>
      rw [recordsOf_cons_own own] at track
      exact track.handDirectly rfl rfl (apart own) (apart own) plain track.tap

theorem cancel (track : Track tracker engine owed phase seen) (undecided : engine.Undecided)
    (own : engine.tappingKey.event.key = key) (allowed : lenient = true)
    (cancels : keymap.cancelsTap (engine.tappingKey.setCount 1) = true) {left : List KeyRecord}
    (same : left.map KeyRecord.event = owed.map KeyRecord.event)
    (edges : ∀ record ∈ left, record.event.isEdgeOf key = true)
    (fresh : ∀ record ∈ left, record.Fresh) :
    Track tracker (engine.firstTap keymap) left (.pending true) seen := by
  obtain ⟨kept, still, interrupted⟩ := Engine.firstTap_cancelled undecided cancels
  have tapping := Engine.isTapping_of_undecided undecided
  have edge : (engine.tappingKey.setCount 1).event.isEdgeOf key = true :=
    KeyEvent.isEdgeOf_iff.mpr ⟨Engine.tappingKey_real tapping, own⟩
  obtain ⟨rfl, _⟩ := track.standing.phase_of_undecided undecided own
  rw [interrupted] at track
  have ownStill : (engine.firstTap keymap).tappingKey.event.key = key := by
    rw [kept]
    exact own
  have standing : Standing key (engine.firstTap keymap)
      (.pending (engine.firstTap keymap).tappingKey.tap.interrupted) left :=
    .pending still ownStill fresh
  rw [kept, interrupted] at standing
  exact
    { now := tracker.cancel (engine.tappingKey.setCount 1) (engine.tappingKey.setCount 1)
        allowed edge cancels track.now
      arrived := by
        have arrived := track.arrived
        rw [Engine.undecidedEdge_own undecided own] at arrived
        rw [Engine.undecidedEdge_own still ownStill, kept, same]
        exact arrived
      alternates := track.alternates
      due := track.due
      edges
      standing
      tap := fun _ _ => track.tap tapping own }

theorem firstTap (track : Track tracker engine (recordsOf key (record :: rest)) phase seen)
    (undecided : engine.Undecided) (within : engine.withinTappingTerm record.event = true)
    (own : engine.OwnRelease record.event) (input : record.event.IsInput)
    (tame : engine.Tame keymap lenient record) :
    ∃ phase seen, Track tracker (engine.firstTap keymap)
      (recordsOf key ({ record with tap := (engine.firstTap keymap).tappingKey.tap } :: rest))
        phase seen := by
  have tapping := Engine.isTapping_of_undecided undecided
  have same : record.event.key = engine.tappingKey.event.key :=
    ((Engine.isTappingKey_iff tapping).mp own.1).symm
  by_cases mine : engine.tappingKey.event.key = key
  · have edge : record.event.isEdgeOf key = true :=
      KeyEvent.isEdgeOf_tappingKey input tapping same mine
    have pendingEdge : (engine.tappingKey.setCount 1).event.isEdgeOf key = true :=
      KeyEvent.isEdgeOf_iff.mpr ⟨Engine.tappingKey_real tapping, mine⟩
    have down : (engine.tappingKey.setCount 1).event.pressed = true :=
      Engine.tappingKey_pressed undecided
    have retapped : ∀ tap,
        recordsOf key ({ record with tap } :: rest) = { record with tap } :: recordsOf key rest :=
      fun _ => recordsOf_cons_own edge
    rw [retapped]
    rw [recordsOf_cons_own edge] at track
    have released := track.head_released undecided mine
    obtain ⟨rfl, fresh⟩ := track.standing.phase_of_undecided undecided mine
    have restFresh : ∀ other ∈ recordsOf key rest, other.Fresh := fun other member =>
      fresh other (List.mem_cons_of_mem _ member)
    have edges : ∀ tap, ∀ other ∈ { record with tap } :: recordsOf key rest,
        other.event.isEdgeOf key = true := by
      intro tap other member
      cases List.mem_cons.mp member with
      | inl here => rw [here]; exact edge
      | inr inside => exact recordsOf_edge inside
    cases cancels : keymap.cancelsTap (engine.tappingKey.setCount 1) with
    | true =>
        have allowed : lenient = true := by
          by_contra strict
          rw [(tame.1 (by simpa using strict)).1 undecided within own] at cancels
          contradiction
        obtain ⟨same, _, _⟩ := Engine.firstTap_cancelled undecided cancels
        refine ⟨.pending true, seen,
          track.cancel undecided mine allowed cancels rfl (edges _) fun other member => ?_⟩
        cases List.mem_cons.mp member with
        | inl here =>
            rw [here, same]
            exact ⟨undecided.2, fun pressed => by
              rw [released] at pressed
              contradiction⟩
        | inr inside => exact restFresh other inside
    | false =>
        have made : (engine.firstTap keymap).tappingKey = engine.tappingKey.setCount 1 := by
          simp [Engine.firstTap, Keymap.processedRecord, cancels]
        have now := tracker.tap (engine.tappingKey.setCount 1) (engine.tappingKey.setCount 1)
          pendingEdge down Nat.one_pos
          cancels track.now
        refine ⟨.tapped, _, track.settle undecided mine now rfl ?_ rfl ?_ rfl (edges _)
          fun _ _ => track.tap tapping mine⟩
        · intro open'
          have count := open'.2
          rw [made] at count
          exact absurd count (by simp [KeyRecord.setCount])
        · refine .marked (fun _ => by rw [made]; rfl) ?_ restFresh
          rw [made]
          exact Nat.one_ne_zero
  · have edge : record.event.isEdgeOf key = false := KeyEvent.isEdgeOf_other (same ▸ mine)
    have pendingOther : (engine.tappingKey.setCount 1).event.isEdgeOf key = false :=
      KeyEvent.isEdgeOf_other mine
    have retapped : ∀ tap, recordsOf key ({ record with tap } :: rest) = recordsOf key rest :=
      fun _ => recordsOf_cons_other edge
    rw [retapped]
    rw [recordsOf_cons_other edge] at track
    refine ⟨phase, seen, track.frame (tracker.frame _ _ pendingOther track.now) rfl
      (fun presses => mine presses.2) ?_ ?_⟩
    · intro given
      rcases given with ⟨_, own⟩
      exact mine (by simpa [Engine.firstTap, KeyRecord.setCount] using own)
    · intro _ own
      exact absurd (by simpa [Engine.firstTap, KeyRecord.setCount] using own) mine

theorem interrupt (track : Track tracker engine owed phase seen) (undecided : engine.Undecided) :
    ∃ phase,
      Track tracker (engine.setTappingKey engine.tappingKey.setInterrupted) owed phase seen := by
  by_cases mine : engine.tappingKey.event.key = key
  · obtain ⟨rfl, fresh⟩ := track.standing.phase_of_undecided undecided mine
    have still : (engine.setTappingKey engine.tappingKey.setInterrupted).Undecided := undecided
    refine ⟨.pending true, ?_⟩
    exact
      { now := tracker.interrupt track.now
        arrived := by
          have arrived := track.arrived
          rw [Engine.undecidedEdge_own undecided mine] at arrived
          rw [Engine.undecidedEdge_own still mine]
          exact arrived
        alternates := track.alternates
        due := track.due
        edges := track.edges
        standing := .pending still mine fresh
        tap := track.tap }
  · exact ⟨phase,
      track.frame track.now rfl (fun presses => mine presses.2) (fun presses => mine presses.2)
      fun _ own => absurd own mine⟩

theorem timeout (track : Track tracker engine owed phase seen) (undecided : engine.Undecided) :
    ∃ phase seen, Track tracker ((engine.processTappingKey keymap).setTappingKey KeyRecord.none)
      owed phase seen := by
  have tapping := Engine.isTapping_of_undecided undecided
  have gone : ¬ ((engine.processTappingKey keymap).setTappingKey KeyRecord.none).Presses key :=
    Engine.not_presses_of_idle rfl
  have noTap : ((engine.processTappingKey keymap).setTappingKey KeyRecord.none).isTapping = true →
      KeyRecord.none.event.key = key → (keymap.actionForKey 0 key).isTap = true := fun tapping => by
    simp at tapping
  by_cases mine : engine.tappingKey.event.key = key
  · have edge : engine.tappingKey.event.isEdgeOf key = true :=
      KeyEvent.isEdgeOf_iff.mpr ⟨Engine.tappingKey_real tapping, mine⟩
    obtain ⟨rfl, fresh⟩ := track.standing.phase_of_undecided undecided mine
    have now := tracker.hold engine.tappingKey engine.tappingKey edge
      (Engine.tappingKey_pressed undecided) undecided.2
      track.now
    exact ⟨_, _, track.settle undecided mine now rfl (Engine.not_undecided_of_idle rfl) rfl
      (.held gone fresh) rfl
      track.edges noTap⟩
  · have other : engine.tappingKey.event.isEdgeOf key = false := KeyEvent.isEdgeOf_other mine
    exact ⟨phase, seen, track.frame (tracker.frame _ _ other track.now) rfl
      (fun presses => mine presses.2) gone noTap⟩

theorem tapRelease (track : Track tracker engine (recordsOf key (record :: rest)) phase seen)
    (held : engine.TapHeld)
    (own : engine.OwnRelease record.event) (input : record.event.IsInput) (kept : KeyRecord)
    (after : kept.event = record.event ∨ kept = KeyRecord.none) :
    ∃ phase seen, Track tracker
      ((engine.processAction keymap { record with tap := engine.tappingKey.tap }).setTappingKey
        kept)
      (recordsOf key rest) phase seen := by
  have tapping := Engine.isTapping_of_held held
  have same : record.event.key = engine.tappingKey.event.key :=
    ((Engine.isTappingKey_iff tapping).mp own.1).symm
  have lifted : kept.event.pressed = false := by
    obtain event | rfl := after
    · rw [event]
      exact own.2
    · rfl
  have gone :
      ¬ ((engine.processAction keymap { record with tap := engine.tappingKey.tap }).setTappingKey
      kept).Presses key := by
    intro given
    rcases given with ⟨pressed, _⟩
    simp [Engine.isTappingPressed, lifted] at pressed
  have settled : engine.undecidedEdge key = [] :=
    Engine.undecidedEdge_settled (Engine.not_undecided_of_held held)
  by_cases mine : engine.tappingKey.event.key = key
  · have edge : record.event.isEdgeOf key = true :=
      KeyEvent.isEdgeOf_tappingKey input tapping same mine
    have isTap := track.tap tapping mine
    rw [recordsOf_cons_own edge] at track
    obtain rfl := track.standing.phase_of_held held mine
    have now := tracker.tapRelease { record with tap := engine.tappingKey.tap } engine.tappingKey
      edge own.2 held.2 track.now
    have restFresh : ∀ other ∈ recordsOf key rest, other.Fresh := by
      cases track.standing with
      | down _ _ _ fresh => exact fun other member => fresh other (List.mem_cons_of_mem _ member)
      | marked _ _ fresh => exact fresh
    exact ⟨_, _,
      track.take now rfl settled (fun open' => gone ⟨open'.1.1, open'.2⟩) rfl (.free gone restFresh)
      fun _ _ => isTap⟩
  · have edge : record.event.isEdgeOf key = false := KeyEvent.isEdgeOf_other (same ▸ mine)
    rw [recordsOf_cons_other edge] at track
    refine ⟨phase, seen,
      track.frame (tracker.frame { record with tap := engine.tappingKey.tap } _ edge track.now) rfl
      (fun presses => mine presses.2) gone ?_⟩
    intro still own
    obtain event | rfl := after
    · rw [Engine.setTappingKey_tappingKey, event] at own
      exact absurd (same.symm.trans own) mine
    · simp at still

theorem sequential (track : Track tracker engine (recordsOf key (record :: rest)) phase seen)
    (released : engine.isTappingReleased = true) (pressed : record.event.pressed = true)
    (own : engine.isTappingKey record.event.key = true)
    (calm : engine.tappingKey.tap.interrupted = false)
    (tapped : 0 < engine.tappingKey.tap.count) (input : record.event.IsInput) :
    ∃ phase seen, Track tracker
      ((engine.processAction keymap (engine.sequential record)).setTappingKey
        (engine.sequential record))
      (recordsOf key rest) phase seen := by
  have tapping := Engine.isTapping_of_released released
  have same : record.event.key = engine.tappingKey.event.key :=
    ((Engine.isTappingKey_iff tapping).mp own).symm
  have apart : ¬ engine.Presses key := Engine.not_presses_of_released released
  by_cases mine : engine.tappingKey.event.key = key
  · have edge : record.event.isEdgeOf key = true :=
      KeyEvent.isEdgeOf_tappingKey input tapping same mine
    have isTap := track.tap tapping mine
    have real := (KeyEvent.isEdgeOf_iff.mp edge).1
    rw [recordsOf_cons_own edge] at track
    obtain ⟨begun, _, _, restFresh, _⟩ := track.become apart pressed isTap
    obtain ⟨rfl, _⟩ :=
      track.fresh_of_expects apart (pressed.symm.trans (track.head_pressed apart)).symm
    have many : 1 < (engine.sequential record).tap.count := by
      simp only [Engine.sequential]
      split <;> omega
    have spared : keymap.cancelsTap (engine.sequential record) = false := by
      simp [Keymap.cancelsTap, Engine.sequential, calm]
    have pending : (engine.sequential record).tap.interrupted = false := calm
    have now := tracker.tap (engine.sequential record) engine.tappingKey edge pressed (by omega)
      spared (pending ▸ begun)
    have down : ((engine.processAction keymap (engine.sequential record)).setTappingKey
        (engine.sequential record)).TapHeld :=
      ⟨by simp [Engine.isTappingPressed, Engine.isTapping, Engine.sequential, real, pressed], by
        rw [Engine.setTappingKey_tappingKey]
        omega⟩
    exact ⟨_, _, track.take now rfl (Engine.undecidedEdge_apart apart)
      (fun open' => Engine.not_undecided_of_held down open'.1) rfl
        (.down down (same.trans mine) many restFresh)
      fun _ _ => isTap⟩
  · have edge : record.event.isEdgeOf key = false := KeyEvent.isEdgeOf_other (same ▸ mine)
    rw [recordsOf_cons_other edge] at track
    exact ⟨phase, seen,
      track.frame (tracker.frame (engine.sequential record) _ edge track.now) rfl apart
      (fun presses => mine (same.symm.trans presses.2))
        fun _ own => absurd (same.symm.trans own) mine⟩

theorem again (track : Track tracker engine (recordsOf key (record :: rest)) phase seen)
    (released : engine.isTappingReleased = true) (pressed : record.event.pressed = true)
    (own : engine.isTappingKey record.event.key = true) (input : record.event.IsInput) :
    ∃ phase seen, Track tracker (engine.setTappingKey record) (recordsOf key rest) phase seen := by
  have tapping := Engine.isTapping_of_released released
  have same : record.event.key = engine.tappingKey.event.key :=
    ((Engine.isTappingKey_iff tapping).mp own).symm
  have apart : ¬ engine.Presses key := Engine.not_presses_of_released released
  by_cases mine : engine.tappingKey.event.key = key
  · have edge : record.event.isEdgeOf key = true :=
      KeyEvent.isEdgeOf_tappingKey input tapping same mine
    have isTap := track.tap tapping mine
    rw [recordsOf_cons_own edge] at track
    obtain ⟨_, _, _, _, begins⟩ := track.become apart pressed isTap
    exact ⟨_, _, begins⟩
  · have edge : record.event.isEdgeOf key = false := KeyEvent.isEdgeOf_other (same ▸ mine)
    rw [recordsOf_cons_other edge] at track
    exact ⟨phase, seen,
      track.frame track.now rfl apart (fun presses => mine (same.symm.trans presses.2))
      fun _ own => absurd (same.symm.trans own) mine⟩

theorem releaseLastTap (track : Track tracker engine (recordsOf key (record :: rest)) phase seen)
    (held : engine.TapHeld)
    (pressed : record.event.pressed = true) (tapKey : keymap.isTapKey record.event = true)
    (tame : engine.Tame keymap lenient record) :
    ∃ phase seen,
      Track tracker ((engine.releaseLastTap keymap record.event.time).setTappingKey KeyRecord.none)
      (recordsOf key (record :: rest)) phase seen := by
  have gone : ¬ ((engine.releaseLastTap keymap record.event.time).setTappingKey
      KeyRecord.none).Presses key :=
    Engine.not_presses_of_idle rfl
  have arrived :
      ((engine.releaseLastTap keymap record.event.time).setTappingKey KeyRecord.none).arrived =
      engine.arrived :=
    Engine.releaseLastTap_arrived
  have noTap : ((engine.releaseLastTap keymap record.event.time).setTappingKey
      KeyRecord.none).isTapping = true →
      KeyRecord.none.event.key = key → (keymap.actionForKey 0 key).isTap = true := fun tapping => by
    simp at tapping
  have settled : engine.undecidedEdge key = [] :=
    Engine.undecidedEdge_settled (Engine.not_undecided_of_held held)
  have edgeless := Engine.undecidedEdge_apart gone
  have positive := held.2
  by_cases many : 1 < engine.tappingKey.tap.count
  · have released :
        ((engine.releaseLastTap keymap record.event.time).setTappingKey KeyRecord.none).observed =
        engine.observed.hand keymap (engine.syntheticRelease record.event.time)
          engine.tappingKey := by
      rw [Engine.releaseLastTap, if_pos many]
      rfl
    by_cases mine : engine.tappingKey.event.key = key
    · have allowed : lenient = true := by
        by_contra strict
        have few := (tame.1 (by simpa using strict)).2 held pressed tapKey
        omega
      obtain rfl := track.standing.phase_of_held held mine
      have fresh : ∀ other ∈ recordsOf key (record :: rest), other.Fresh := by
        generalize recordsOf key (record :: rest) = owed at track
        cases track.standing with
        | down _ _ _ fresh => exact fresh
        | marked once =>
            have one := once ⟨held.1, mine⟩
            omega
      have isReal := (Keymap.isTapKey_iff.mp tapKey).1
      have tapping := Engine.tappingKey_real (Engine.isTapping_of_held held)
      have edge : (engine.syntheticRelease record.event.time).event.isEdgeOf key = true := by
        simp only [KeyEvent.isNoEvent, Bool.or_eq_false_iff] at isReal tapping
        refine KeyEvent.isEdgeOf_iff.mpr ⟨?_, mine⟩
        simp only [KeyEvent.isNoEvent, Bool.or_eq_false_iff]
        exact ⟨isReal.1, tapping.2⟩
      have now := tracker.synthetic (engine.syntheticRelease record.event.time) engine.tappingKey
        allowed edge rfl held.2
        track.now
      rw [← released] at now
      exact ⟨.held, seen, track.shift now arrived settled edgeless rfl (.held gone fresh) noTap⟩
    · have other : (engine.syntheticRelease record.event.time).event.isEdgeOf key = false :=
        KeyEvent.isEdgeOf_other mine
      have now :=
        tracker.frame (engine.syntheticRelease record.event.time) engine.tappingKey other track.now
      rw [← released] at now
      exact ⟨phase, seen, track.frame now arrived (fun presses => mine presses.2) gone noTap⟩
  · have unchanged :
        ((engine.releaseLastTap keymap record.event.time).setTappingKey KeyRecord.none).observed =
        engine.observed := by
      rw [Engine.releaseLastTap, if_neg many]
      rfl
    have now := track.now
    rw [← unchanged] at now
    by_cases mine : engine.tappingKey.event.key = key
    · obtain rfl := track.standing.phase_of_held held mine
      refine ⟨.tapped, seen, track.shift now arrived settled edgeless rfl ?_ noTap⟩
      generalize recordsOf key (record :: rest) = owed at track
      cases track.standing with
      | down _ _ more => exact absurd more many
      | marked _ tapped fresh => exact .marked (fun presses => absurd presses gone) tapped fresh
    · exact ⟨phase, seen, track.frame now arrived (fun presses => mine presses.2) gone noTap⟩

/-- After a call: the line behind the record is `rest`, perhaps with a marked release. -/
def After (tracker : Tracker keymap key lenient) (head rest : List KeyRecord)
    (processed : Processed) : Prop :=
  ∃ phase seen rest', processed.engine.waitingBuffer = head ++ rest' ∧
    (processed.handled = false → rest' = rest) ∧
    Track tracker processed.engine (recordsOf key (processed.left ++ rest')) phase seen

/-- One call of `process_tapping` on the record whose turn it is. -/
theorem call {head : List KeyRecord}
    (track : Track tracker engine (recordsOf key (record :: rest)) phase seen)
    (line : engine.waitingBuffer = head ++ rest) (place : head = [] ∨ head = [record])
    (real : ∀ other ∈ rest, other.event.isNoEvent = false) (input : record.event.IsInput)
    (tame : engine.Tame keymap lenient record) :
      After tracker head rest (engine.processTapping keymap record) := by
  have outcome := Engine.processTapping_outcome keymap engine record
  generalize engine.processTapping keymap record = processed at outcome
  cases outcome with
  | firstTap undecided within own =>
      obtain ⟨phase, seen, next⟩ := track.firstTap undecided within own input tame
      exact ⟨phase, seen, rest, line, fun _ => rfl, next⟩
  | retained | wait => exact ⟨phase, seen, rest, line, fun _ => rfl, track⟩
  | early undecided within other real' released =>
      have apart : record.event.isEdgeOf key = true → ¬ engine.Presses key := by
        intro own presses
        have same := (KeyEvent.isEdgeOf_iff.mp own).2
        exact other ⟨(Engine.isTappingKey_iff (Engine.isTapping_of_undecided undecided)).mpr
          (presses.2.trans same.symm),
          released⟩
      obtain ⟨phase, seen, next⟩ := track.process apart (fun pressed => by
        rw [released] at pressed
        contradiction)
      exact ⟨phase, seen, rest, line, nofun, next⟩
  | interrupt undecided =>
      obtain ⟨phase, next⟩ := track.interrupt undecided
      exact ⟨phase, seen, rest, line, fun _ => rfl, next⟩
  | timeout undecided =>
      obtain ⟨phase, seen, next⟩ := track.timeout undecided
      exact ⟨phase, seen, rest, line, fun _ => rfl, next⟩
  | tapRelease held own =>
      have kept : ∀ within : Bool,
          (if within then { record with tap := engine.tappingKey.tap } else KeyRecord.none).event =
          record.event ∨
          (if within then { record with tap := engine.tappingKey.tap } else KeyRecord.none) =
            KeyRecord.none := by
        intro within
        cases within with
        | true => exact .inl rfl
        | false => exact .inr rfl
      obtain ⟨phase, seen, next⟩ :=
        track.tapRelease held own input _ (kept (engine.withinTappingTerm record.event))
      exact ⟨phase, seen, rest, line, nofun, next⟩
  | restart held pressed tap =>
      obtain ⟨phase, seen, released⟩ := track.releaseLastTap held pressed tap tame
      have buffer : ((engine.releaseLastTap keymap record.event.time).setTappingKey
          KeyRecord.none).waitingBuffer =
          engine.waitingBuffer := Engine.releaseLastTap_waitingBuffer
      have scans : ((engine.releaseLastTap keymap record.event.time).setTappingKey
          KeyRecord.none).ScansFirst record := by
        unfold Engine.ScansFirst
        rw [buffer]
        exact tame.2 ⟨pressed, tap, .inr (.inl held)⟩
      obtain ⟨phase, seen, rest', after, next⟩ :=
        released.startTapping (buffer.trans line) place real
        (Engine.not_presses_of_idle rfl) pressed tap scans
      exact ⟨phase, seen, rest', after, nofun, next⟩
  | typing held other plain =>
      have apart : record.event.isEdgeOf key = true → ¬ engine.Presses key := by
        intro own presses
        have same := (KeyEvent.isEdgeOf_iff.mp own).2
        rw [recordsOf_cons_own own] at track
        exact other ⟨(Engine.isTappingKey_iff (Engine.isTapping_of_held held)).mpr
          (presses.2.trans same.symm),
          track.held_released held presses.2⟩
      obtain ⟨phase, seen, next⟩ := track.process apart plain
      exact ⟨phase, seen, rest, line, nofun, next⟩
  | sequential released within pressed own calm tapped =>
      obtain ⟨phase, seen, next⟩ := track.sequential released pressed own calm tapped input
      exact ⟨phase, seen, rest, line, nofun, next⟩
  | again released within pressed own =>
      obtain ⟨phase, seen, next⟩ := track.again released pressed own input
      exact ⟨phase, seen, rest, line, nofun, next⟩
  | interfere released within pressed other tap =>
      obtain ⟨phase, seen, rest', after, next⟩ := track.startTapping line place real
        (Engine.not_presses_of_released released) pressed tap
          (tame.2 ⟨pressed, tap, .inr (.inr ⟨released, within, other⟩)⟩)
      exact ⟨phase, seen, rest', after, nofun, next⟩
  | spend released within pressed other plain =>
      have apart : ¬ engine.Presses key := Engine.not_presses_of_released released
      have spent : ¬ (engine.setTappingKey engine.tappingKey.setInterrupted).Presses key := apart
      have marked : Track tracker (engine.setTappingKey engine.tappingKey.setInterrupted)
          (recordsOf key (record :: rest))
          phase seen := track.frame track.now rfl apart spent track.tap
      obtain ⟨phase, seen, next⟩ := marked.process (fun _ => spent) (fun _ => plain)
      exact ⟨phase, seen, rest, line, nofun, next⟩
  | after released within lifted =>
      obtain ⟨phase, seen, next⟩ :=
          track.process (fun _ => Engine.not_presses_of_released released) (fun pressed => by
        rw [lifted] at pressed
        contradiction)
      exact ⟨phase, seen, rest, line, nofun, next⟩
  | expire released =>
      have next : Track tracker (engine.setTappingKey KeyRecord.none)
          (recordsOf key (record :: rest)) phase seen :=
        track.frame track.now rfl (Engine.not_presses_of_released released)
          (Engine.not_presses_of_idle rfl)
          fun tapping => by simp at tapping
      exact ⟨phase, seen, rest, line, fun _ => rfl, next⟩
  | start idle pressed tap =>
      obtain ⟨phase, seen, rest', after, next⟩ :=
        track.startTapping line place real (Engine.not_presses_of_idle idle)
        pressed tap (tame.2 ⟨pressed, tap, .inl idle⟩)
      exact ⟨phase, seen, rest', after, nofun, next⟩
  | direct idle plain =>
      obtain ⟨phase, seen, next⟩ := track.process (fun _ => Engine.not_presses_of_idle idle) plain
      exact ⟨phase, seen, rest, line, nofun, next⟩

theorem note {event : KeyEvent} (track : Track tracker engine owed phase seen)
    (alternates : Alternates true
      ((edgesOf key (engine.arrived ++ [event])).map KeyEvent.pressed)) :
    Track tracker (engine.note event) (owed ++ recordsOf key [engine.recordOf event])
      phase seen := by
  have fresh : ∀ record ∈ recordsOf key [engine.recordOf event], record.Fresh := by
    intro record member
    rw [List.mem_singleton.mp (List.mem_filter.mp member).1]
    exact ⟨rfl, fun _ => rfl⟩
  have allFresh : ∀ {others : List KeyRecord}, (∀ record ∈ others, record.Fresh) →
      ∀ record ∈ others ++ recordsOf key [engine.recordOf event], record.Fresh := by
    intro others before record member
    exact (List.mem_append.mp member).elim (before record) (fresh record)
  have newest :
      edgesOf key [event] = (recordsOf key [engine.recordOf event]).map KeyRecord.event := by
    cases own : event.isEdgeOf key <;> simp [edgesOf, recordsOf, Engine.recordOf, own]
  exact
    { now := track.now
      arrived := by
        rw [Engine.note_arrived, edgesOf, List.filter_append, ← edgesOf, track.arrived,
          ← edgesOf, newest]
        simp [Engine.undecidedEdge, @Engine.undecided_congr engine (engine.note event) rfl]
      alternates := alternates
      due := track.due
      edges := by
        intro record member
        cases List.mem_append.mp member with
        | inl old => exact track.edges record old
        | inr new => exact recordsOf_edge new
      standing := by
        have standing :
            Standing key engine phase (owed ++ recordsOf key [engine.recordOf event]) := by
          cases track.standing with
          | free apart before => exact .free apart (allFresh before)
          | held apart before => exact .held apart (allFresh before)
          | pending undecided own before => exact .pending undecided own (allFresh before)
          | down held own many before => exact .down held own many (allFresh before)
          | marked settled tapped before => exact .marked settled tapped (allFresh before)
        exact standing.congr rfl
      tap := track.tap }

theorem call_waits (track : Track tracker engine (owed ++ [record]) phase seen) (some : owed ≠ [])
    (waiting : ∀ other ∈ owed, other ∈ engine.waitingBuffer) (undecided : engine.Undecided)
    (open' : engine.OwnRelease record.event → engine.withinTappingTerm record.event = true →
      lenient = true ∧ keymap.cancelsTap (engine.tappingKey.setCount 1) = true) :
    (engine.processTapping keymap record).handled = false ∧
      (engine.processTapping keymap record).engine.waitingBuffer = engine.waitingBuffer ∧
      ∃ phase seen, Track tracker (engine.processTapping keymap record).engine
        (owed ++ [(engine.processTapping keymap record).record]) phase seen := by
  have outcome := Engine.processTapping_outcome keymap engine record
  generalize engine.processTapping keymap record = processed at outcome
  cases outcome with
  | firstTap _ within own =>
      obtain ⟨allowed, cancels⟩ := open' own within
      have edge := track.edges record (by simp)
      have mine : engine.tappingKey.event.key = key :=
        ((Engine.isTappingKey_iff (Engine.isTapping_of_undecided undecided)).mp own.1).trans
          (KeyEvent.isEdgeOf_iff.mp edge).2
      have fresh := (track.standing.phase_of_undecided undecided mine).2
      obtain ⟨kept, _, _⟩ := Engine.firstTap_cancelled undecided cancels
      refine ⟨rfl, rfl, _, _, track.cancel undecided mine allowed cancels (by simp) ?_ ?_⟩
      · intro other member
        cases List.mem_append.mp member with
        | inl old => exact track.edges other (List.mem_append_left _ old)
        | inr new => rw [List.mem_singleton.mp new]; exact edge
      · intro other member
        cases List.mem_append.mp member with
        | inl old => exact fresh other (List.mem_append_left _ old)
        | inr new =>
            rw [List.mem_singleton.mp new, kept]
            exact ⟨undecided.2, fun pressed => by
              rw [own.2] at pressed
              contradiction⟩
  | retained | wait => exact ⟨rfl, rfl, phase, seen, track⟩
  | early _ _ _ real released fresh =>
      obtain ⟨before, last, rfl⟩ := (List.eq_nil_or_concat owed).resolve_left some
      have flags : Alternates phase.expects
          ((engine.undecidedEdge key ++ before.map KeyRecord.event).map KeyEvent.pressed ++
          [last.event.pressed, record.event.pressed]) := by
        simpa using track.flags
      have pressed := alternates_last flags
      have down : last.event.pressed = true := by simpa [released] using pressed
      have same := (KeyEvent.isEdgeOf_iff.mp (track.edges record (by simp))).2
      have lastOwn := (KeyEvent.isEdgeOf_iff.mp (track.edges last (by simp))).2
      have typed : engine.waitingBufferTyped record.event = true := by
        simp only [Engine.waitingBufferTyped, List.any_eq_true]
        refine ⟨last, waiting last (by simp), ?_⟩
        simp [lastOwn, same, released, down]
      rw [typed] at fresh
      contradiction
  | interrupt =>
      obtain ⟨phase, next⟩ := track.interrupt undecided
      exact ⟨rfl, rfl, phase, seen, next⟩
  | timeout =>
      obtain ⟨phase, seen, next⟩ := track.timeout undecided
      exact ⟨rfl, rfl, phase, seen, next⟩
  | tapRelease held | restart held | typing held =>
      exact absurd undecided (Engine.not_undecided_of_held held)
  | sequential released | again released | interfere released | spend released | after released
  | expire released =>
      exact absurd undecided (Engine.not_undecided_of_released released)
  | start idle | direct idle => exact absurd undecided (Engine.not_undecided_of_idle idle)

end Track

namespace Engine

variable {keymap : Keymap} {key : KeyPos} {lenient : Bool} {tracker : Tracker keymap key lenient}
  {engine : Engine} {record : KeyRecord} {rest : List KeyRecord} {event : KeyEvent} {phase : Phase}
  {seen : List KeyEvent}

theorem processTapping_event (waits : (engine.processTapping keymap record).handled = false) :
    (engine.processTapping keymap record).record.event = record.event := by
  simpa using congrArg KeyRecord.event (processTapping_stamp waits)

def Tracked (tracker : Tracker keymap key lenient) (engine : Engine) : Prop :=
  ∃ phase seen, Track tracker engine (recordsOf key engine.waitingBuffer) phase seen

theorem tracked_reset (now : tracker.At .free Engine.reset.observed []) :
    Engine.reset.Tracked tracker :=
  ⟨.free, [],
    { now
      arrived := rfl
      alternates := trivial
      due := rfl
      edges := by simp [Engine.reset, recordsOf]
      standing := .free (not_presses_of_idle rfl) (by simp [Engine.reset, recordsOf])
      tap := fun tapping => by cases tapping }⟩

theorem Tracked.alternates (tracked : engine.Tracked tracker)
    (due : event.isNoEvent = false →
      event.pressed = following true ((edgesOf event.key engine.arrived).map KeyEvent.pressed)) :
    Alternates true ((edgesOf key (engine.arrived ++ [event])).map KeyEvent.pressed) := by
  obtain ⟨phase, seen, track⟩ := tracked
  rw [edgesOf, List.filter_append, List.map_append, alternates_append]
  refine ⟨track.alternates, ?_⟩
  cases own : event.isEdgeOf key with
  | false => simp [own, Alternates]
  | true =>
      obtain ⟨real, rfl⟩ := KeyEvent.isEdgeOf_iff.mp own
      simp only [List.filter_cons, own, if_true, List.filter_nil, List.map_cons, List.map_nil]
      exact ⟨due real, trivial⟩

theorem Tracked.drainStep (tracked : engine.Tracked tracker) (queues : engine.Queues)
    (buffer : engine.waitingBuffer = record :: rest) (tame : engine.Tame keymap lenient record) :
    (engine.drainStep keymap record).2.Tracked tracker := by
  obtain ⟨phase, seen, track⟩ := tracked
  rw [buffer] at track
  have real : ∀ other ∈ record :: rest, other.event.isNoEvent = false := fun other member =>
    Queued.real queues (by rw [buffer]; exact member)
  have after : Track.After tracker [record] rest (engine.processTapping keymap record) :=
    track.call buffer (.inr rfl) (fun other member => real other (List.mem_cons_of_mem _ member))
      (.inl (real record (by simp))) tame
  obtain ⟨phase, seen, rest', line, _, next⟩ := after
  refine ⟨phase, seen, ?_⟩
  have left : (engine.drainStep keymap record).2.waitingBuffer =
      (engine.processTapping keymap record).left ++ rest' := by
    simp only [Engine.drainStep, line, Processed.left]
    split <;> rfl
  rw [left]
  exact next.bystand next.now rfl rfl

/-- The record waits behind another of its key. -/
theorem arrive_behind (noted : Track tracker (engine.note event)
      (recordsOf key engine.waitingBuffer ++ recordsOf key [engine.recordOf event]) phase seen)
    (calm : ¬ engine.Overflows keymap event) (own : event.isEdgeOf key = true)
    (some : recordsOf key engine.waitingBuffer ≠ [])
    (turn : (engine.note event).NotOvertaking keymap lenient (engine.recordOf event)) :
    ((engine.note event).arrive keymap (engine.recordOf event)).Tracked tracker := by
  obtain ⟨isReal, sameKey⟩ := KeyEvent.isEdgeOf_iff.mp own
  have new : recordsOf key [engine.recordOf event] = [engine.recordOf event] :=
    recordsOf_cons_own own
  rw [new] at noted
  obtain none | ⟨undecided, open'⟩ := turn
  · obtain ⟨first, member⟩ := List.exists_mem_of_ne_nil _ some
    have inside := List.mem_filter.mp member
    exact absurd ((KeyEvent.isEdgeOf_iff.mp (recordsOf_edge member)).2.trans sameKey.symm)
      (none first inside.1)
  · obtain ⟨waits, buffer, phase, seen, next⟩ := noted.call_waits some
      (fun other member => (List.mem_filter.mp member).1) undecided open'
    have edge : ((engine.note event).processTapping keymap
        (engine.recordOf event)).record.event.isEdgeOf key = true := by
      rw [processTapping_event waits]
      exact own
    obtain ⟨done, _⟩ | ⟨_, _, enqueued⟩ := arrive_cases calm
    · rw [waits, processTapping_event waits] at done
      simp [recordOf, isReal] at done
    · refine ⟨phase, seen, ?_⟩
      rw [enqueued]
      dsimp only
      rw [buffer, recordsOf_append, recordsOf_cons_own edge]
      exact next.bystand next.now rfl rfl

theorem arrive_next (noted : Track tracker (engine.note event)
      (recordsOf key engine.waitingBuffer ++ recordsOf key [engine.recordOf event]) phase seen)
    (queues : engine.Queues) (input : event.IsInput) (calm : ¬ engine.Overflows keymap event)
    (alone : event.isEdgeOf key = true → recordsOf key engine.waitingBuffer = [])
    (tame : (engine.note event).Tame keymap lenient (engine.recordOf event)) :
    ((engine.note event).arrive keymap (engine.recordOf event)).Tracked tracker := by
  rw [← recordsOf_append, recordsOf_concat alone] at noted
  have after : Track.After tracker [] engine.waitingBuffer
      ((engine.note event).processTapping keymap (engine.recordOf event)) :=
    noted.call rfl (.inl rfl) (fun _ member => Queued.real queues member) input tame
  obtain ⟨phase, seen, rest', buffer, same, next⟩ := after
  refine ⟨phase, seen, ?_⟩
  obtain ⟨done, vanished⟩ | ⟨waits, isReal, enqueued⟩ := arrive_cases calm
  · rw [vanished, buffer]
    obtain handled | noEvent := done
    · rw [Processed.left, handled] at next
      exact next
    · cases handled :
        ((engine.note event).processTapping keymap (engine.recordOf event)).handled with
      | true =>
          rw [Processed.left, handled] at next
          exact next
      | false =>
          have other : ((engine.note event).processTapping keymap
              (engine.recordOf event)).record.event.isEdgeOf key =
              false := by simp [KeyEvent.isEdgeOf, noEvent]
          rw [Processed.left, handled] at next
          simp only [Bool.false_eq_true, if_false, List.singleton_append] at next
          rw [recordsOf_cons_other other] at next
          exact next
  · rw [enqueued]
    dsimp only
    rw [Processed.left, waits] at next
    simp only [Bool.false_eq_true, if_false, List.singleton_append] at next
    have last : ((engine.note event).processTapping keymap
        (engine.recordOf event)).record.event.isEdgeOf key = true →
        recordsOf key rest' = [] := fun own => by
      rw [processTapping_event waits] at own
      rw [same waits]
      exact alone own
    rw [buffer, List.nil_append, recordsOf_concat last]
    exact next.bystand next.now rfl rfl

theorem Tracked.arrive (tracked : engine.Tracked tracker) (queues : engine.Queues)
    (input : event.IsInput) (calm : ¬ engine.Overflows keymap event)
    (alternates : Alternates true ((edgesOf key (engine.arrived ++ [event])).map KeyEvent.pressed))
    (turn : event.isNoEvent = false →
      (engine.note event).NotOvertaking keymap lenient (engine.recordOf event))
    (tame : (engine.note event).Tame keymap lenient (engine.recordOf event)) :
    ((engine.note event).arrive keymap (engine.recordOf event)).Tracked tracker := by
  obtain ⟨phase, seen, track⟩ := tracked
  have noted := track.note alternates
  by_cases behind : event.isEdgeOf key = true ∧ recordsOf key engine.waitingBuffer ≠ []
  · obtain ⟨own, some⟩ := behind
    exact arrive_behind noted calm own some (turn (KeyEvent.isEdgeOf_iff.mp own).1)
  · exact arrive_next noted queues input calm
      (fun own => by_contra fun some => behind ⟨own, some⟩) tame

end Engine

end BleKeyboard.Tmk
