import Lr35902.Flag
import Lr35902.Hex

/-! What can go wrong, by cause, with one wording per cause. An `Underflow` is
an ordinary outcome that more input can mend; a `Fault` is a mistake of the
caller. A change that can be a fault leaves a state behind either way, and it is
a theorem about each of them that a fault leaves the state as it was. -/
namespace Lr35902

/-- More bytes were asked for than are queued. -/
structure Underflow where
  requested : Nat
  available : Nat
  deriving DecidableEq

def Underflow.message (underflow : Underflow) : String :=
  s!"attempted read of {underflow.requested} bytes " ++
    s!"when only {underflow.available} bytes are available"

/-- Two flag deltas both speak for this flag. -/
structure FlagClash where
  flag : Flag
  deriving DecidableEq

def FlagClash.message (clash : FlagClash) : String :=
  s!"conflicting states for flag {Enumerated.name clash.flag}"

/-- The two directions of a memory access. -/
inductive Access where
  | read | write
  deriving DecidableEq

def Access.word : Access → String
  | .read => "read"
  | .write => "write"

/-- A call that its caller got wrong. `outsideByte` and `outsideRange` are
accesses beyond the end of a memory of the given size. -/
inductive Fault where
  | flagMerge (clash : FlagClash)
  | outsideByte (access : Access) (address size : Nat)
  | outsideRange (access : Access) (length address size : Nat)
  | additionOverflow
  | capacityOverflow
  deriving DecidableEq

/-- Addresses are written in hexadecimal with at least four digits. -/
def Fault.message : Fault → String
  | .flagMerge clash => s!"invalid flag merge: {clash.message}"
  | .outsideByte access address size =>
    s!"{access.word} of ${Hex.padded 4 address} outside {size} bytes of RAM"
  | .outsideRange access length address size =>
    s!"{access.word} of {length} bytes at ${Hex.padded 4 address} outside {size} bytes of RAM"
  | .additionOverflow => "attempt to add with overflow"
  | .capacityOverflow => "capacity overflow"

/-- A change of a state that its caller can get wrong: a value or a fault, and in
either case the state that is left. -/
abbrev Change (σ α : Type) := ExceptT Fault (StateM σ) α

namespace Change

variable {σ α β : Type}

/-- A fault leaves the state as it was. -/
def AllOrNothing (change : Change σ α) : Prop :=
  ∀ state fault, (change state).1 = .error fault → (change state).2 = state

theorem allOrNothing_modify (step : σ → σ) :
    AllOrNothing (modify step : Change σ Unit) := nofun

theorem allOrNothing_throw (fault : Fault) : AllOrNothing (throw fault : Change σ α) :=
  fun _ _ _ => rfl

/-- What is checked before the first step is all or nothing. -/
theorem allOrNothing_checked (check : Except Fault α) {next : α → Change σ β}
    (safe : ∀ value, AllOrNothing (next value)) :
    AllOrNothing (do let value ← check; next value) := by
  cases check with
  | error fault => exact allOrNothing_throw fault
  | ok value => exact safe value

end Change

section
variable {α ε ε' : Type} {retell : ε → ε'} {outcome : Except ε α}

/-- A failure told in another way is no success, and a success stays what it is. -/
theorem mapError_eq_ok_iff {value : α} :
    outcome.mapError retell = .ok value ↔ outcome = .ok value := by
  cases outcome with
  | ok reached =>
    constructor <;>
    · intro same
      cases same
      rfl
  | error failure => constructor <;> exact nofun

/-- A change of the value makes no failure, and hides none. -/
theorem map_eq_error_iff {β : Type} {change : α → β} {failure : ε} :
    change <$> outcome = .error failure ↔ outcome = .error failure := by
  cases outcome with
  | ok value => constructor <;> exact nofun
  | error reason =>
    constructor <;>
    · intro same
      cases same
      rfl

theorem mapError_eq_error_iff {told : ε'} :
    outcome.mapError retell = .error told ↔
      ∃ failure, outcome = .error failure ∧ told = retell failure := by
  cases outcome with
  | ok reached =>
    constructor
    · exact nofun
    · rintro ⟨failure, failed, -⟩
      cases failed
  | error failure =>
    constructor
    · intro same
      cases same
      exact ⟨failure, rfl, rfl⟩
    · rintro ⟨_, same, rfl⟩
      cases same
      rfl

end

end Lr35902
