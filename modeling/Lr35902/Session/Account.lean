import Lr35902.Segmentation
import Lr35902.Session

/-! The bytes that actions put into a queue and take out of it. A look takes
nothing, and neither does an action that fails, except that decoding many
instructions keeps what it took before the one that was incomplete. -/
namespace Lr35902

/-- Whether an action leaves the queue's history alone. Bringing a saved queue
back does not. -/
def Action.keepsHistory : Action → Bool
  | .queue .restore => false
  | _ => true

namespace Session

variable {size : Nat}

/-- The bytes that an action on the queue takes. -/
def consumedByQueue (queue : ByteQueue) : QueueAction → List UInt8
  | .get => queue.bytes.take 1
  | .getBytes count => if count ≤ queue.length then queue.bytes.take count else []
  | .getWord => if 2 ≤ queue.length then queue.bytes.take 2 else []
  | .decodeEvent => ((segments queue.bytes).1.take 1).flatten
  | .decodeEvents count =>
    match (decodeEvents count queue).verdict with
    | .ok _ => ((segments queue.bytes).1.take count.toNat).flatten
    | .error _ => []
  | .decodeUntilEmpty => (segments queue.bytes).1.flatten
  | _ => []

/-- The bytes that an action on the queue puts at its end. -/
def appendedByQueue : QueueAction → List UInt8
  | .add byte => [byte]
  | .append bytes => bytes
  | _ => []

/-- The bytes that an action takes off the front of the queue. -/
def consumed (session : Session size) : Action → List UInt8
  | .queue action => consumedByQueue session.queue action
  | .ram _ => []

/-- The bytes that an action puts at the end of the queue. -/
def appended (session : Session size) : Action → List UInt8
  | .queue action => appendedByQueue action
  | .ram (.fetchInto address count) =>
    if address.toNat + count ≤ size then
      (session.ram.cells.toList.drop address.toNat).take count
    else []
  | .ram _ => []

/-- All bytes put into and taken out of the queue by a sequence of actions, and
the state after it. -/
def account (session : Session size) :
    List Action → List UInt8 × List UInt8 × Session size
  | [] => ([], [], session)
  | action :: actions =>
    let later := account (session.perform action).1 actions
    (session.appended action ++ later.1, session.consumed action ++ later.2.1, later.2.2)

end Session

end Lr35902
