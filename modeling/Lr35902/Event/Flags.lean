import Lr35902.Event
import Lr35902.Flag.Effect

/-! What an event does to the flags, and the compounds that can say so without
ambiguity. -/
namespace Lr35902.Event

/-- The effect that an event has on its own. A compound has none beyond those
of its parts, and most events leave the flags alone. -/
def ownFlags : Event → FlagDelta
  | .add _ => .add
  | .addHl _ => .addHl
  | .addSp _ => .addSp
  | .sub _ => .sub
  | .compare _ => .sub
  | .and _ => .and
  | .or _ => .or
  | .xor _ => .xor
  | .increment _ => .increment
  | .decrement _ => .decrement
  | .rotateA _ => .rotateA
  | .shift .swap _ => .swap
  | .shift _ _ => .shift
  | .bit .bit _ _ => .bitTest
  | .pop .af => .popAf
  | .flagSet delta => delta
  | .complement => .complement
  | .decimalAdjust => .decimalAdjust
  | _ => .unchanged

/-- The effect of an event on the flags. The parts of a compound must claim
different flags. -/
def flags : Event → Except Fault FlagDelta
  | .compound first second => do
    let firstFlags ← first.flags
    let secondFlags ← second.flags
    firstFlags.join secondFlags
  | event => .ok event.ownFlags

/-- The compound of two events, refused if they claim a flag twice: within
either of them, or between them. -/
def combine (first second : Event) : Except Fault Event := do
  let firstFlags ← first.flags
  let secondFlags ← second.flags
  let _ ← firstFlags.join secondFlags
  return .compound first second

/-- A compound is refused for the fault that its effect would be. -/
theorem combine_eq (first second : Event) :
    first.combine second = (fun _ => compound first second) <$> (compound first second).flags := by
  rw [combine, flags]
  cases first.flags with
  | error fault => rfl
  | ok firstFlags =>
    cases second.flags with
    | error fault => rfl
    | ok secondFlags => rfl

theorem eq_compound_of_combine {first second event : Event}
    (made : first.combine second = .ok event) : event = .compound first second := by
  rw [combine_eq] at made
  cases known : (compound first second).flags with
  | error fault =>
    rw [known] at made
    cases made
  | ok delta =>
    rw [known] at made
    cases made
    rfl

/-- The compound of two events that are known not to be refused. -/
def combined (first second : Event) (apart : ∃ event, first.combine second = .ok event) : Event :=
  match made : first.combine second with
  | .ok event => event
  | .error _ => absurd made (by obtain ⟨_, accepted⟩ := apart; rw [accepted]; exact nofun)

@[simp] theorem combined_eq (first second : Event)
    (apart : ∃ event, first.combine second = .ok event) :
    combined first second apart = .compound first second := by
  unfold combined
  split
  · next made => exact eq_compound_of_combine made
  · next refused =>
    obtain ⟨_, accepted⟩ := apart
    rw [accepted] at refused
    cases refused

/-- An event together with its effect, refused if a flag is claimed twice in
it. -/
def withFlags (event : Event) : Except Fault (Event × FlagDelta) := do
  let delta ← event.flags
  return (event, delta)

/-- A non-empty list of events combined from the left. -/
def combineLeft (first : Event) (rest : List Event) : Except Fault Event :=
  rest.foldlM combine first

/-- A non-empty list of events combined from the right, the last two first. -/
def combineRight : Event → List Event → Except Fault Event
  | last, [] => .ok last
  | first, next :: rest => do
    let combined ← combineRight next rest
    first.combine combined

end Lr35902.Event
