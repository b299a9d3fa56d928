import Lr35902.Delivery
import Lr35902.Proofs.Segments

/-! Decoding can stop at any byte and go on later. A tail is all that is ever
carried over from one chunk to the next, and a tail knows how many bytes it
lacks; so it makes no difference where a byte string is cut or how its pieces
are queued. -/
namespace Lr35902.Resumption
open Instruction Segments Framing

/-- All bytes that chunks bring, in the order in which they are queued. -/
def arriving (chunks : List (List Delivery)) : List UInt8 :=
  chunks.flatMap fun chunk => chunk.flatMap Delivery.bytes

theorem enter_eq_append (queue : ByteQueue) (delivery : Delivery) :
    delivery.enter queue = queue.append delivery.bytes := by
  cases delivery with
  | together bytes => rfl
  | singly bytes =>
    simp only [Delivery.enter, Delivery.bytes]
    induction bytes generalizing queue with
    | nil => simp
    | cons byte rest ih =>
      rw [List.foldl_cons, ih, ByteQueue.add_eq_append, ByteQueue.append_append]
      rfl

/-- The deliveries of a chunk amount to one. -/
theorem foldl_enter_eq_append (queue : ByteQueue) (chunk : List Delivery) :
    chunk.foldl Delivery.enter queue = queue.append (chunk.flatMap Delivery.bytes) := by
  induction chunk generalizing queue with
  | nil => simp
  | cons delivery rest ih =>
    rw [List.foldl_cons, ih, enter_eq_append, ByteQueue.append_append, List.flatMap_cons]

/-- Draining gives the events of the division and leaves its tail. -/
theorem drain_segments (queue : ByteQueue) :
    drain queue = ((segments queue.bytes).1.map event, ⟨(segments queue.bytes).2⟩) := by
  obtain ⟨bytes⟩ := queue
  induction bytes using instruction_induction with
  | tail tail incomplete =>
    rw [drain_eq, decodeEvent_tail incomplete, segments_tail incomplete]
    rfl
  | instruction part later whole ih =>
    rw [drain_eq, decodeEvent_instruction whole later, segments_instruction whole]
    simp only [ih, List.map_cons]

/-- What a queue drained before does not come again, and what it left is drained
together with the bytes that follow. -/
theorem drain_append (queue : ByteQueue) (more : List UInt8) :
    drain (queue.append more) =
      ((drain queue).1 ++ (drain ((drain queue).2.append more)).1,
        (drain ((drain queue).2.append more)).2) := by
  simp only [drain_segments, ByteQueue.bytes_append, segments_append queue.bytes more,
    List.map_append]

/-- Draining takes the instructions of the queue, gives their events, and stops where
decoding is refused. -/
theorem drain_yields (queue : ByteQueue) :
    ∃ parts, Segmentation queue.bytes parts (drain queue).2.bytes ∧
      Yields parts (drain queue).1 ∧
      ∃ underflow, decodeEvent (drain queue).2 = ⟨.error underflow, (drain queue).2, []⟩ := by
  have divided := segmentation_segments queue.bytes
  rw [drain_segments]
  exact ⟨_, divided, yields_map_event divided.whole, _, decodeEvent_tail divided.incomplete⟩

/-- The invariant between two chunks: the queue holds a tail. -/
theorem drain_leaves_tail (queue : ByteQueue) : IsTail (drain queue).2.bytes := by
  rw [drain_segments]
  exact (segmentation_segments queue.bytes).incomplete

theorem drainChunks_eq_drain (chunks : List (List Delivery)) {queue : ByteQueue}
    (waiting : IsTail queue.bytes) :
    drainChunks queue chunks = drain (queue.append (arriving chunks)) := by
  induction chunks generalizing queue with
  | nil =>
    have nothing : queue.append (arriving []) = queue := by simp [arriving]
    rw [nothing, drain_eq, decodeEvent_tail waiting, drainChunks]
  | cons chunk chunks ih =>
    have together : queue.append (arriving (chunk :: chunks)) =
        (queue.append (chunk.flatMap Delivery.bytes)).append (arriving chunks) := by
      simp [arriving]
    rw [drainChunks, foldl_enter_eq_append, together, drain_append (queue.append _)]
    simp only [ih (drain_leaves_tail _)]

/-- A refusal of a queue that is not empty names the exact lack: any bytes that
make it up will do, and fewer will not. -/
theorem shortfall_exact {queue : ByteQueue} {underflow : Underflow} (nonempty : queue.bytes ≠ [])
    (refused : (decodeEvent queue).result = .error underflow) :
    underflow.available < underflow.requested ∧
      ∀ more, (∃ event, (decodeEvent (queue.append more)).result = .ok event) ↔
        underflow.requested - underflow.available ≤ more.length := by
  have lack := decodeEvent_of_error refused
  rw [lack] at refused
  cases refused
  have short : queue.length < needed queue.bytes := by
    apply Nat.lt_of_not_le
    intro enough
    obtain ⟨event, decoded⟩ := (decodes_iff queue).mpr enough
    rw [lack] at decoded
    cases decoded
  refine ⟨short, fun more => ?_⟩
  rw [decodes_iff, ByteQueue.bytes_append, ByteQueue.length_append, needed_append nonempty]
  exact Nat.sub_le_iff_le_add'.symm

/-- **Decoding is resumable at any byte.** However a byte string is cut into
chunks, and in whatever portions these are queued, decoding as far as possible
after every chunk gives the same events and leaves the same bytes as decoding
all of it at once. Decoding as far as possible gives the events of the whole
instructions that the queue begins with, each as it is decoded for itself, and
leaves what is refused. A refusal on the way takes nothing, and it tells exactly how
many bytes have to follow before decoding goes on. -/
theorem drainChunks_resumes (chunks : List (List Delivery)) :
    drainChunks .empty chunks = drain (ByteQueue.empty.append (arriving chunks)) ∧
    (∀ queue, ∃ parts, Segmentation queue.bytes parts (drain queue).2.bytes ∧
      Yields parts (drain queue).1 ∧
      ∃ underflow, decodeEvent (drain queue).2 = ⟨.error underflow, (drain queue).2, []⟩) ∧
    ∀ queue underflow, (decodeEvent queue).result = .error underflow →
      (decodeEvent queue).rest = queue ∧
      (queue.bytes ≠ [] → underflow.available < underflow.requested ∧
        ∀ more, (∃ event, (decodeEvent (queue.append more)).result = .ok event) ↔
          underflow.requested - underflow.available ≤ more.length) := by
  refine ⟨?_, drain_yields, ?_⟩
  · exact drainChunks_eq_drain chunks (isTail_iff.mpr (by decide))
  · intro queue underflow refused
    refine ⟨?_, fun nonempty => shortfall_exact nonempty refused⟩
    rw [decodeEvent_of_error refused]

end Lr35902.Resumption
