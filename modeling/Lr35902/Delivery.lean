import Lr35902.Decode

/-! Bytes that arrive in pieces. After every delivery all complete instructions
are decoded, and what is left waits for the next one. -/
namespace Lr35902

/-- The ways in which bytes are put at the end of a queue: one after the other,
or all at once. -/
inductive Delivery where
  | singly (bytes : List UInt8)
  | together (bytes : List UInt8)

namespace Delivery

/-- The bytes that a delivery brings. -/
def bytes : Delivery → List UInt8
  | singly bytes => bytes
  | together bytes => bytes

/-- The queue after a delivery. -/
def enter (queue : ByteQueue) : Delivery → ByteQueue
  | singly bytes => bytes.foldl ByteQueue.add queue
  | together bytes => queue.append bytes

end Delivery

/-- Decodes until a decoding fails: the events, and the queue that is left. -/
def drain (queue : ByteQueue) : List Event × ByteQueue :=
  match _decoded : decodeEvent queue with
  | ⟨.error _, rest, _⟩ => ([], rest)
  | ⟨.ok event, rest, _⟩ =>
    let later := drain rest
    (event :: later.1, later.2)
termination_by queue.length
decreasing_by exact decodeEvent_shortens _decoded

theorem drain_eq (queue : ByteQueue) :
    drain queue =
      match decodeEvent queue with
      | ⟨.error _, rest, _⟩ => ([], rest)
      | ⟨.ok event, rest, _⟩ => (event :: (drain rest).1, (drain rest).2) := by
  rw [drain]
  split
  · next refused => rw [refused]
  · next decoded => rw [decoded]

/-- Takes in one chunk after another, each by any number of deliveries, and
drains the queue after every chunk. -/
def drainChunks (queue : ByteQueue) : List (List Delivery) → List Event × ByteQueue
  | [] => ([], queue)
  | chunk :: chunks =>
    let drained := drain (chunk.foldl Delivery.enter queue)
    let later := drainChunks drained.2 chunks
    (drained.1 ++ later.1, later.2)

end Lr35902
