import Lr35902.Proofs.EventTree

/-! Building compounds out of simple events. A compound is refused exactly where
its effect would be, so every event that is built has an effect; and since the
effect is the union of those of the leaves, the brackets and the order in which
a list of simple events is combined do not matter. -/
namespace Lr35902.Compounding
open Event EventTree FlagDelta Merging

/-- The event with the shape of a bracketing, whether or not it can be built. -/
def shape : Bracketing Event → Event
  | .single event => event
  | .pair left right => .compound (shape left) (shape right)

section
variable {tree other : Bracketing Event} {built : Event} {delta : FlagDelta}

theorem leaves_shape (simple : ∀ item ∈ tree.items, item.IsSimple) :
    (shape tree).leaves = tree.items := by
  induction tree with
  | single item => exact leaves_of_isSimple (simple item (by simp [Bracketing.items]))
  | pair left right ihLeft ihRight =>
    obtain ⟨simpleLeft, simpleRight⟩ := List.forall_mem_append.mp simple
    rw [shape, leaves, ihLeft simpleLeft, ihRight simpleRight, Bracketing.items]

/-- To build compounds step by step is to ask for the effect of the whole. -/
theorem evaluate_combine (simple : ∀ item ∈ tree.items, item.IsSimple) :
    tree.evaluate combine = (fun _ => shape tree) <$> (shape tree).flags := by
  induction tree with
  | single item =>
    rw [shape, flags_of_isSimple (simple item (by simp [Bracketing.items]))]
    rfl
  | pair left right ihLeft ihRight =>
    obtain ⟨simpleLeft, simpleRight⟩ := List.forall_mem_append.mp simple
    rw [Bracketing.evaluate, ihLeft simpleLeft, ihRight simpleRight]
    cases leftFlags : (shape left).flags with
    | error fault =>
      rw [shape, flags, leftFlags]
      rfl
    | ok leftDelta =>
      cases rightFlags : (shape right).flags with
      | error fault =>
        rw [shape, flags, leftFlags, rightFlags]
        rfl
      | ok rightDelta => exact combine_eq (shape left) (shape right)

theorem evaluate_combine_eq_ok_iff (simple : ∀ item ∈ tree.items, item.IsSimple) :
    tree.evaluate combine = .ok built ↔
      built = shape tree ∧ ∃ delta, Unites (tree.items.map ownFlags) delta := by
  rw [evaluate_combine simple, ← leaves_shape simple]
  simp only [← flags_eq_ok_iff]
  cases (shape tree).flags with
  | error fault => simp [Functor.map, Except.map]
  | ok delta => simp [Functor.map, Except.map, eq_comm]

/-- What is built has the effects of the listed events, united. -/
theorem flags_built_iff (simple : ∀ item ∈ tree.items, item.IsSimple)
    (succeeded : tree.evaluate combine = .ok built) :
    built.flags = .ok delta ↔ Unites (tree.items.map ownFlags) delta := by
  obtain ⟨rfl, -⟩ := (evaluate_combine_eq_ok_iff simple).mp succeeded
  rw [flags_eq_ok_iff, leaves_shape simple]

/-- A list of simple events can be built into compounds if and only if their
effects are pairwise apart, whatever the brackets. -/
theorem evaluate_combine_succeeds_iff (simple : ∀ item ∈ tree.items, item.IsSimple) :
    (∃ built, tree.evaluate combine = .ok built) ↔
      (tree.items.map ownFlags).Pairwise Apart := by
  simp only [evaluate_combine_eq_ok_iff simple, exists_eq_left, exists_unites_iff]

theorem exists_flags_built (simple : ∀ item ∈ tree.items, item.IsSimple)
    (succeeded : tree.evaluate combine = .ok built) : ∃ delta, built.flags = .ok delta := by
  simp only [flags_built_iff simple succeeded, exists_unites_iff]
  exact (evaluate_combine_succeeds_iff simple).mp ⟨built, succeeded⟩

end

theorem evaluate_fromRight (first : Event) (rest : List Event) :
    (Bracketing.fromRight first rest).evaluate combine = combineRight first rest := by
  induction rest generalizing first with
  | nil => rfl
  | cons next rest ih =>
    rw [Bracketing.fromRight, Bracketing.evaluate, ih, combineRight]
    rfl

/-- **Compounds are checked for what their effect needs, and the brackets do not
matter.** Combining two events fails if and only if the compound of them has no
effect, and for the same fault; otherwise it gives that compound. So whatever is
built out of simple events has an effect. Two bracketings of the same simple
events, in any order, both fail, where they may blame different flags, or both
succeed with one effect. The folds from the left and from the right are two such
bracketings. -/
theorem combine_any_brackets :
    (∀ first second : Event,
      (∀ fault, first.combine second = .error fault ↔
        (Event.compound first second).flags = .error fault) ∧
      ∀ delta, (Event.compound first second).flags = .ok delta →
        first.combine second = .ok (.compound first second)) ∧
    (∀ tree : Bracketing Event, (∀ item ∈ tree.items, item.IsSimple) →
      (∀ built, tree.evaluate combine = .ok built → ∃ delta, built.flags = .ok delta) ∧
      ∀ other : Bracketing Event, other.items.Perm tree.items →
        ((∃ built, other.evaluate combine = .ok built) ↔
          ∃ built, tree.evaluate combine = .ok built) ∧
        ∀ built otherBuilt, tree.evaluate combine = .ok built →
          other.evaluate combine = .ok otherBuilt → otherBuilt.flags = built.flags) ∧
    ∀ first rest, ∃ left right : Bracketing Event,
      left.items = first :: rest ∧ left.evaluate combine = combineLeft first rest ∧
      right.items = first :: rest ∧ right.evaluate combine = combineRight first rest := by
  refine ⟨fun first second => ?_, fun tree simple => ⟨?_, fun other same => ?_⟩, ?_⟩
  · refine ⟨fun fault => ?_, fun delta known => ?_⟩
    · rw [combine_eq]
      cases (Event.compound first second).flags <;> simp [Functor.map, Except.map]
    · rw [combine_eq, known]
      rfl
  · intro built succeeded
    exact exists_flags_built simple succeeded
  · have simpleOther : ∀ item ∈ other.items, item.IsSimple :=
      fun item member => simple item (same.mem_iff.mp member)
    have effects := same.map ownFlags
    constructor
    · rw [evaluate_combine_succeeds_iff simpleOther, evaluate_combine_succeeds_iff simple]
      exact effects.pairwise_iff Apart.symm
    · intro built otherBuilt succeeded otherSucceeded
      obtain ⟨delta, known⟩ := exists_flags_built simple succeeded
      rw [known, flags_built_iff simpleOther otherSucceeded, unites_iff_of_perm effects,
        ← flags_built_iff simple succeeded, known]
  · intro first rest
    exact ⟨.fromLeft first rest, .fromRight first rest, Bracketing.items_fromLeft first rest,
      Bracketing.evaluate_fromLeft combine first rest, Bracketing.items_fromRight first rest,
      evaluate_fromRight first rest⟩

/-- The bit test and the adjustment share the zero flag, which the fold from the
left finds first; the fold from the right first finds the half-carry shared by
the adjustment and the last event. -/
example :
    combineLeft (.bit .bit 0 (.register .a)) [.decimalAdjust, .flagSet .setCarry] =
        .error (.flagMerge ⟨.z⟩) ∧
      combineRight (.bit .bit 0 (.register .a)) [.decimalAdjust, .flagSet .setCarry] =
        .error (.flagMerge ⟨.h⟩) :=
  ⟨rfl, rfl⟩

end Lr35902.Compounding
