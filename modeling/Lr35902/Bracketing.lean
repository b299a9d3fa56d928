/-! A binary operation applied to a list in any order of brackets. For an
operation that may fail, the first failure from the left and the inside ends
the evaluation. -/
namespace Lr35902

/-- A non-empty list with brackets put around every two neighbours that are
combined. -/
inductive Bracketing (α : Type) where
  | single (item : α)
  | pair (left right : Bracketing α)

namespace Bracketing

/-- The list without its brackets. -/
def items {α : Type} : Bracketing α → List α
  | single item => [item]
  | pair left right => left.items ++ right.items

/-- The list combined in the order of its brackets. -/
def evaluate {α ε : Type} (combine : α → α → Except ε α) : Bracketing α → Except ε α
  | single item => .ok item
  | pair left right => do
    let leftValue ← left.evaluate combine
    let rightValue ← right.evaluate combine
    combine leftValue rightValue

/-- The brackets of a list that is combined from the left. -/
def fromLeft {α : Type} (first : α) (rest : List α) : Bracketing α :=
  rest.foldl (fun before item => .pair before (.single item)) (.single first)

/-- The brackets of a list that is combined from the right. -/
def fromRight {α : Type} : α → List α → Bracketing α
  | last, [] => .single last
  | first, next :: rest => .pair (.single first) (fromRight next rest)

end Bracketing

section
variable {α β ε : Type}

theorem bind_eq_ok_iff {result : Except ε α} {next : α → Except ε β} {value : β} :
    result >>= next = .ok value ↔ ∃ reached, result = .ok reached ∧ next reached = .ok value := by
  cases result with
  | error failure => exact ⟨nofun, nofun⟩
  | ok reached => simp [bind, Except.bind]

theorem Bracketing.evaluate_pair_eq_ok_iff {combine : α → α → Except ε α}
    {left right : Bracketing α} {value : α} :
    (pair left right).evaluate combine = .ok value ↔
      ∃ leftValue rightValue, left.evaluate combine = .ok leftValue ∧
        right.evaluate combine = .ok rightValue ∧ combine leftValue rightValue = .ok value := by
  simp only [evaluate, bind_eq_ok_iff, exists_and_left]

namespace Bracketing

theorem items_fromLeft (first : α) (rest : List α) :
    (fromLeft first rest).items = first :: rest := by
  suffices every : ∀ before : Bracketing α,
      (rest.foldl (fun before item => .pair before (.single item)) before).items =
        before.items ++ rest from every (.single first)
  intro before
  induction rest generalizing before with
  | nil => exact (List.append_nil _).symm
  | cons item rest ih =>
    rw [List.foldl_cons, ih, items, items, List.append_assoc]
    rfl

theorem items_fromRight (first : α) (rest : List α) :
    (fromRight first rest).items = first :: rest := by
  induction rest generalizing first with
  | nil => rfl
  | cons next rest ih =>
    rw [fromRight, items, items, ih]
    rfl

theorem evaluate_fromLeft (combine : α → α → Except ε α) (first : α) (rest : List α) :
    (fromLeft first rest).evaluate combine = rest.foldlM combine first := by
  suffices every : ∀ before : Bracketing α,
      (rest.foldl (fun before item => .pair before (.single item)) before).evaluate combine =
        before.evaluate combine >>= fun value => rest.foldlM combine value from
    every (.single first)
  intro before
  induction rest generalizing before with
  | nil => exact (bind_pure _).symm
  | cons item rest ih =>
    rw [List.foldl_cons, ih, evaluate, bind_assoc]
    rfl

end Bracketing

/-- A list that cannot be combined from the left can be combined up to some
item, and that item is refused. -/
theorem foldlM_eq_error {step : β → α → Except ε β} {items : List α} {start : β} {failure : ε}
    (failed : items.foldlM step start = .error failure) :
    ∃ earlier item later reached, items = earlier ++ item :: later ∧
      earlier.foldlM step start = .ok reached ∧ step reached item = .error failure := by
  induction items generalizing start with
  | nil => cases failed
  | cons item items ih =>
    cases taken : step start item with
    | error refusal =>
      rw [List.foldlM_cons, taken] at failed
      cases failed
      exact ⟨[], item, items, start, rfl, rfl, taken⟩
    | ok next =>
      rw [List.foldlM_cons, taken] at failed
      obtain ⟨earlier, refused, later, reached, rfl, before, refusal⟩ := ih failed
      refine ⟨item :: earlier, refused, later, reached, rfl, ?_, refusal⟩
      rw [List.foldlM_cons, taken]
      exact before

end

end Lr35902
