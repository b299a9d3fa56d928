import Lr35902.Error

/-! What an instruction does to the whole flag register: one state per slot.
Two deltas can be merged when no flag is claimed by both. The merge walks
through the slots; it comes to the pointwise union of their claims, and the
blamed flag of a failed merge is the first doubly claimed one in slot order. -/
namespace Lr35902

/-- A state for every flag, in slot order. -/
@[ext]
structure FlagDelta where
  s : FlagState
  z : FlagState
  f5 : FlagState
  h : FlagState
  f3 : FlagState
  pv : FlagState
  n : FlagState
  c : FlagState
  deriving DecidableEq

namespace FlagDelta

/-- The state given to one flag. -/
def get (delta : FlagDelta) : Flag → FlagState
  | .s => delta.s
  | .z => delta.z
  | .f5 => delta.f5
  | .h => delta.h
  | .f3 => delta.f3
  | .pv => delta.pv
  | .n => delta.n
  | .c => delta.c

/-- The delta that gives each flag the state chosen for it. -/
def ofFn (choose : Flag → FlagState) : FlagDelta where
  s := choose .s
  z := choose .z
  f5 := choose .f5
  h := choose .h
  f3 := choose .f3
  pv := choose .pv
  n := choose .n
  c := choose .c

/-- Nothing changes. -/
def unchanged : FlagDelta := ofFn fun _ => .unchanged

/-- One slot replaced, whatever it held. -/
def set (delta : FlagDelta) (flag : Flag) (state : FlagState) : FlagDelta :=
  ofFn fun other => if other = flag then state else delta.get other

/-- The states in slot order. -/
def states (delta : FlagDelta) : List FlagState := Enumerated.all.map delta.get

/-- Every flag with its state, in slot order. -/
def pairs (delta : FlagDelta) : List (Flag × FlagState) :=
  Enumerated.all.map fun flag => (flag, delta.get flag)

/-- The delta with these states in slot order; there must be exactly eight. -/
def ofStates? : List FlagState → Option FlagDelta
  | [s, z, f5, h, f3, pv, n, c] => some ⟨s, z, f5, h, f3, pv, n, c⟩
  | _ => none

def isUnchanged (delta : FlagDelta) : Bool := delta == unchanged

/-- Whether the delta speaks for this flag. -/
def claims (delta : FlagDelta) (flag : Flag) : Bool := (delta.get flag).isClaim

/-- The first flag in slot order that both deltas claim. Two equal claims
clash like any others. -/
def clash? (left right : FlagDelta) : Option Flag :=
  Enumerated.all.find? fun flag => left.claims flag && right.claims flag

/-- The claims of `upper`, and those of `lower` where `upper` makes none. -/
def overlay (upper lower : FlagDelta) : FlagDelta :=
  ofFn fun flag => if upper.claims flag then upper.get flag else lower.get flag

/-- One step of a merge: what `right` says of a flag is entered in the delta
`merged` so far, unless `left` claims the flag too. -/
def mergeSlot (left right merged : FlagDelta) (flag : Flag) : Except FlagClash FlagDelta :=
  if right.claims flag then
    if left.claims flag then .error ⟨flag⟩ else .ok (merged.set flag (right.get flag))
  else .ok merged

/-- The union of two deltas that claim different flags. The claims of `right` are
entered into `left` slot by slot, up to the first clash. -/
def merge (left right : FlagDelta) : Except FlagClash FlagDelta :=
  (Enumerated.all : List Flag).foldlM (mergeSlot left right) left

/-- The merge of two deltas whose caller promises that they claim different
flags: a clash is the caller's fault. -/
def join (left right : FlagDelta) : Except Fault FlagDelta :=
  (left.merge right).mapError .flagMerge

/-- The merge of a list of deltas from the left, starting from no change. -/
def mergeAll (deltas : List FlagDelta) : Except FlagClash FlagDelta :=
  deltas.foldlM merge unchanged

/-- The delta described by flags and states. A pair whose state is `unchanged`
adds nothing; two pairs that claim one flag are a fault. -/
def ofPairs (pairs : List (Flag × FlagState)) : Except Fault FlagDelta :=
  (mergeAll (pairs.map fun (flag, state) => unchanged.set flag state)).mapError .flagMerge

@[simp] theorem get_ofFn (choose : Flag → FlagState) (flag : Flag) :
    (ofFn choose).get flag = choose flag := by
  cases flag <;> rfl

@[simp] theorem ofFn_get (delta : FlagDelta) : ofFn delta.get = delta := rfl

/-- A delta is determined by the states it gives. -/
theorem ext_get {left right : FlagDelta} (same : ∀ flag, left.get flag = right.get flag) :
    left = right := by
  rw [← ofFn_get left, ← ofFn_get right, funext same]

@[simp] theorem get_unchanged (flag : Flag) : unchanged.get flag = .unchanged := by
  simp [unchanged]

@[simp] theorem get_set (delta : FlagDelta) (flag other : Flag) (state : FlagState) :
    (delta.set flag state).get other = if other = flag then state else delta.get other := by
  simp [set]

@[simp] theorem get_overlay (upper lower : FlagDelta) (flag : Flag) :
    (upper.overlay lower).get flag =
      if upper.claims flag then upper.get flag else lower.get flag := by
  simp [overlay]

/-! ### The walk through the slots -/

/-- The claims of `right` on some flags entered in a delta. -/
def enter (right : FlagDelta) (flags : List Flag) (merged : FlagDelta) : FlagDelta :=
  ofFn fun flag => if flag ∈ flags ∧ right.claims flag then right.get flag else merged.get flag

theorem enter_cons (right : FlagDelta) (flag : Flag) (flags : List Flag) (merged : FlagDelta) :
    enter right (flag :: flags) merged =
      if right.claims flag then enter right flags (merged.set flag (right.get flag))
      else enter right flags merged := by
  apply ext_get
  intro other
  by_cases same : other = flag
  · subst same
    cases claimed : right.claims other <;> simp [enter, claimed]
  · cases right.claims flag <;> simp [enter, same]

/-- The walk stops at the first flag that is claimed on both sides, and has
entered all claims if there is none. -/
theorem foldlM_mergeSlot (left right : FlagDelta) (flags : List Flag) (merged : FlagDelta) :
    flags.foldlM (mergeSlot left right) merged =
      match flags.find? fun flag => left.claims flag && right.claims flag with
      | some flag => .error ⟨flag⟩
      | none => .ok (enter right flags merged) := by
  induction flags generalizing merged with
  | nil => simp [enter, pure, Except.pure]
  | cons flag flags ih =>
    rw [List.foldlM_cons, mergeSlot, List.find?_cons, enter_cons]
    cases right.claims flag with
    | false =>
      rw [Bool.and_false]
      exact ih merged
    | true =>
      cases left.claims flag with
      | false => exact ih (merged.set flag (right.get flag))
      | true => rfl

/-- Walked to the end, the claims of one delta lie over the other. -/
theorem merge_eq (left right : FlagDelta) :
    left.merge right =
      match clash? left right with
      | some flag => .error ⟨flag⟩
      | none => .ok (right.overlay left) := by
  have entered : enter right Enumerated.all left = right.overlay left := by
    apply ext_get
    intro flag
    simp [enter, LawfulEnumerated.mem_all flag]
  rw [merge, foldlM_mergeSlot, entered]
  rfl

theorem ofStates_states (delta : FlagDelta) : ofStates? delta.states = some delta := rfl

theorem states_of_ofStates {states : List FlagState} {delta : FlagDelta}
    (read : ofStates? states = some delta) : delta.states = states := by
  unfold ofStates? at read
  split at read
  · cases read
    rfl
  · cases read

end FlagDelta

end Lr35902
