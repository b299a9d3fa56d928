import Lr35902.Flag.Delta

/-! A delta edited and questioned step by step. Every step gives a verdict and
leaves a delta; a step that fails leaves the delta it found. -/
namespace Lr35902.FlagDelta

/-- One step of an editing session. The given delta is merged into the current
one by `merge` and `join`, and the current one into the given one by
`joinInto`. -/
inductive Edit where
  | replace (flag : Flag) (state : FlagState)
  | get (flag : Flag)
  | pairs
  | isUnchanged
  | equals (other : FlagDelta)
  | display
  | merge (other : FlagDelta)
  | join (other : FlagDelta)
  | joinInto (other : FlagDelta)

/-- What a step that succeeds reports. -/
inductive EditAnswer where
  | done
  | state (state : FlagState)
  | pairs (pairs : List (Flag × FlagState))
  | truth (truth : Bool)
  | delta (delta : FlagDelta)
  | shown (delta : FlagDelta)

/-- How a step ends: a clash found by `merge` is an ordinary outcome, one found
by a join is a fault. -/
inductive EditOutcome where
  | answer (answer : EditAnswer)
  | clash (clash : FlagClash)
  | fault (fault : Fault)

/-- The outcome of one step and the delta after it. -/
def edit (delta : FlagDelta) : Edit → EditOutcome × FlagDelta
  | .replace flag state => (.answer .done, delta.set flag state)
  | .get flag => (.answer (.state (delta.get flag)), delta)
  | .pairs => (.answer (.pairs delta.pairs), delta)
  | .isUnchanged => (.answer (.truth delta.isUnchanged), delta)
  | .equals other => (.answer (.truth (delta == other)), delta)
  | .display => (.answer (.shown delta), delta)
  | .merge other =>
    match delta.merge other with
    | .ok merged => (.answer (.delta merged), merged)
    | .error clash => (.clash clash, delta)
  | .join other =>
    match delta.join other with
    | .ok joined => (.answer .done, joined)
    | .error fault => (.fault fault, delta)
  | .joinInto other =>
    match other.join delta with
    | .ok joined => (.answer .done, joined)
    | .error fault => (.fault fault, delta)

/-- The outcome of each step of a session, with the delta after it. -/
def editAll (delta : FlagDelta) : List Edit → List (EditOutcome × FlagDelta)
  | [] => []
  | step :: steps =>
    let result := delta.edit step
    result :: editAll result.2 steps

end Lr35902.FlagDelta
