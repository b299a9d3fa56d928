import Lr35902.Event.Flags

/-! An event as a tree: the leaves are its simple events from left to right,
and every inner node is a compound. Whether the tree has one effect on the
flags is a question about its leaves alone; which flag is to blame if it has
none also depends on the shape. -/
namespace Lr35902.Event

/-- The simple events that make up an event, from left to right. -/
def leaves : Event → List Event
  | .compound first second => first.leaves ++ second.leaves
  | event => [event]

/-- Whether an event is made of no others. -/
def IsSimple (event : Event) : Prop := ∀ first second, event ≠ .compound first second

/-- The compounds in an event by their two parts, parts before wholes and left
before right. -/
def compounds : Event → List (Event × Event)
  | .compound first second => first.compounds ++ second.compounds ++ [(first, second)]
  | _ => []

/-- Whether some leaf speaks for the flag. -/
def claims (event : Event) (flag : Flag) : Bool :=
  event.leaves.any fun leaf => leaf.ownFlags.claims flag

/-- Whether two leaves at different places speak for the same flag. -/
def ClaimsTwice (event : Event) (flag : Flag) : Prop :=
  ∃ earlier later : Nat, ∃ first second : Event, earlier < later ∧
    event.leaves[earlier]? = some first ∧ event.leaves[later]? = some second ∧
    first.ownFlags.claims flag ∧ second.ownFlags.claims flag

/-- The flag to blame when an event has no single effect: of the first compound
with overlapping parts, parts before wholes and left before right, the first
flag that both its parts claim. -/
def blame : Event → Option Flag
  | .compound first second =>
    first.blame <|> second.blame <|>
      Enumerated.all.find? fun flag => first.claims flag && second.claims flag
  | _ => none

/-- A simple event has the effect that it has on its own. -/
theorem flags_of_isSimple {event : Event} (simple : event.IsSimple) :
    event.flags = .ok event.ownFlags := by
  cases event with
  | compound first second => exact absurd rfl (simple first second)
  | _ => rfl

theorem leaves_of_isSimple {event : Event} (simple : event.IsSimple) : event.leaves = [event] := by
  cases event with
  | compound first second => exact absurd rfl (simple first second)
  | _ => rfl

theorem isSimple_of_mem_leaves {event leaf : Event} (member : leaf ∈ event.leaves) :
    leaf.IsSimple := by
  induction event with
  | compound first second ihFirst ihSecond =>
    rcases List.mem_append.mp member with inFirst | inSecond
    · exact ihFirst inFirst
    · exact ihSecond inSecond
  | _ =>
    cases List.mem_singleton.mp member
    exact fun _ _ => Event.noConfusion

end Lr35902.Event
