import BleKeyboard.Data.Machine

namespace BleKeyboard.Data

variable {σ ι α : Type*} (step : σ → ι → σ)

/-- From every state in `before`, the program ends in a state in `after`. -/
def Triple (before : σ → Prop) (program : List ι) (after : σ → Prop) : Prop :=
  ∀ state, before state → after (run step state program)

namespace Triple

variable {step} {before middle after : σ → Prop} {program first second : List ι}

theorem skip : Triple step before [] before := fun _ holds => holds

theorem one {command : ι} (effect : ∀ state, before state → after (step state command)) :
    Triple step before [command] after := effect

theorem append (head : Triple step before first middle) (tail : Triple step middle second after) :
    Triple step before (first ++ second) after := by
  intro state holds
  rw [run_append]
  exact tail _ (head state holds)

theorem cons {command : ι} (head : ∀ state, before state → middle (step state command))
    (tail : Triple step middle program after) : Triple step before (command :: program) after :=
  append (one head) tail

/-- A program between an opening and a closing command, when the closing one undoes what the opening
one did to whatever else the program changes. -/
theorem bracket {opening closing : ι} {opened : α → σ → Prop} {closed : α → σ → Prop}
    {start stop : α} (opens : ∀ state, closed start state → opened start (step state opening))
    (body : Triple step (opened start) program (opened stop))
    (closes : ∀ state, opened stop state → closed stop (step state closing)) :
    Triple step (closed start) (opening :: (program ++ [closing])) (closed stop) :=
  cons opens (append body (one closes))

end Triple

end BleKeyboard.Data
