import Lr35902.Instruction.Chart
import Lr35902.Log
import Lr35902.Segmentation

/-! Decoding instructions off the front of a queue. The first byte tells how
long the instruction is, and nothing is taken before all of it is there; so an
instruction is decoded whole or not at all, and decoding can go on where it
stopped as soon as more bytes arrive. -/
namespace Lr35902

/-- Takes one instruction whose bytes are known to be there. -/
def fetchEvent : Fetch Event := do
  let opcode ← ByteQueue.get
  (Instruction.recipe opcode).complete

/-- Takes the next instruction. The first byte is looked at, and nothing is
taken before as many bytes are queued as it calls for. -/
def nextEvent : Fetch Event := fun queue =>
  match queue.peek with
  | .error underflow => (.error underflow, queue)
  | .ok first =>
    let needed := Instruction.length first
    if queue.length < needed then (.error ⟨needed, queue.length⟩, queue)
    else fetchEvent queue

/-- Whether anything is fetched is a question of two numbers. -/
theorem nextEvent_eq (bytes : List UInt8) :
    nextEvent ⟨bytes⟩ =
      if bytes.length < Instruction.needed bytes then
        (.error ⟨Instruction.needed bytes, bytes.length⟩, ⟨bytes⟩)
      else fetchEvent ⟨bytes⟩ := by
  cases bytes <;> rfl

/-- Fetching takes exactly one instruction from the front, whatever is queued
behind it. -/
theorem fetchEvent_instruction {part : List UInt8} (whole : IsInstruction part)
    (later : List UInt8) :
    fetchEvent ⟨part ++ later⟩ = (.ok (Instruction.event part), ⟨later⟩) := by
  cases part with
  | nil => exact absurd rfl whole.ne_nil
  | cons opcode following =>
    have agree := Instruction.extraBytes_recipe opcode
    have size := isInstruction_iff.mp whole
    simp only [Instruction.needed, List.length_cons] at size
    exact Instruction.Recipe.complete_append (by omega) later

/-- The outcome of decoding from a queue: a value or a lack of bytes, and in
either case the queue that is left and the records made on the way. -/
structure Decoding (α : Type) where
  result : Except Underflow α
  rest : ByteQueue
  log : List LogRecord

namespace Decoding

/-- Nothing decoded, nothing taken. -/
def idle {α : Type} (value : α) (queue : ByteQueue) : Decoding α := ⟨.ok value, queue, []⟩

/-- Goes on with the value and the queue of a decoding that succeeded. Its
records stay, whatever comes after. -/
def andThen {α β : Type} (decoding : Decoding α) (next : α → ByteQueue → Decoding β) :
    Decoding β :=
  match decoding.result with
  | .error underflow => ⟨.error underflow, decoding.rest, decoding.log⟩
  | .ok value =>
    let later := next value decoding.rest
    ⟨later.result, later.rest, decoding.log ++ later.log⟩

def map {α β : Type} (change : α → β) (decoding : Decoding α) : Decoding β :=
  ⟨change <$> decoding.result, decoding.rest, decoding.log⟩

end Decoding

/-- The outcome of a decoding that its caller can get wrong: a fault, or how the
decoding ended, and in either case the queue that is left and the records made on
the way. -/
structure Attempt (α : Type) where
  verdict : Except Fault (Except Underflow α)
  rest : ByteQueue
  log : List LogRecord

namespace Attempt

/-- Nothing was wrong, and the decoding was begun. -/
def begun {α : Type} (decoding : Decoding α) : Attempt α :=
  ⟨.ok decoding.result, decoding.rest, decoding.log⟩

theorem begun_inj {α : Type} {left right : Decoding α} :
    begun left = begun right ↔ left = right := by
  constructor
  · intro same
    cases left
    cases right
    cases same
    rfl
  · exact congrArg begun

end Attempt

/-- Decodes one instruction. -/
def decodeEvent (queue : ByteQueue) : Decoding Event :=
  match nextEvent queue with
  | (.error underflow, rest) => ⟨.error underflow, rest, []⟩
  | (.ok event, rest) => ⟨.ok event, rest, event.records⟩

/-- An instruction is decoded by its own bytes, and what is queued behind it
stays. -/
theorem decodeEvent_instruction {part : List UInt8} (whole : IsInstruction part)
    (later : List UInt8) :
    decodeEvent ⟨part ++ later⟩ =
      ⟨.ok (Instruction.event part), ⟨later⟩, (Instruction.event part).records⟩ := by
  have enough : ¬ (part ++ later).length < Instruction.needed (part ++ later) := by
    rw [whole.needed_append, List.length_append]
    omega
  rw [decodeEvent, nextEvent_eq, if_neg enough, fetchEvent_instruction whole]

/-- Too few bytes for an instruction are left as they are. -/
theorem decodeEvent_tail {tail : List UInt8} (incomplete : IsTail tail) :
    decodeEvent ⟨tail⟩ = ⟨.error ⟨Instruction.needed tail, tail.length⟩, ⟨tail⟩, []⟩ := by
  rw [decodeEvent, nextEvent_eq, if_pos (isTail_iff.mp incomplete)]

/-- Every instruction takes at least one byte. -/
theorem decodeEvent_shortens {queue rest : ByteQueue} {event : Event} {log : List LogRecord}
    (decoded : decodeEvent queue = ⟨.ok event, rest, log⟩) : rest.length < queue.length := by
  obtain ⟨bytes⟩ := queue
  rcases tail_or_instruction bytes with incomplete | ⟨part, later, whole, rfl⟩
  · rw [decodeEvent_tail incomplete] at decoded
    cases decoded
  · rw [decodeEvent_instruction whole] at decoded
    cases decoded
    have positive := List.length_pos_iff.mpr whole.ne_nil
    simp only [ByteQueue.length, List.length_append]
    omega

/-- These are the events of the instructions, each decoded for itself. -/
def Yields (instructions : List (List UInt8)) (events : List Event) : Prop :=
  (instructions.map fun part => (decodeEvent ⟨part⟩).result) = events.map .ok

theorem Yields.unique {instructions : List (List UInt8)} {left right : List Event}
    (yields : Yields instructions left) (again : Yields instructions right) : left = right :=
  (List.map_inj_right fun _ _ => Except.ok.inj).mp (yields.symm.trans again)

/-- Decodes a number of instructions in order, up to the first that is not
complete. -/
def decodeCount : Nat → ByteQueue → Decoding (List Event)
  | 0, queue => .idle [] queue
  | count + 1, queue =>
    (decodeEvent queue).andThen fun event rest =>
      (decodeCount count rest).map (event :: ·)

/-- The bytes set aside for each event of a list whose length is promised. -/
def eventSlotBytes : Nat := 24

/-- The most bytes that can be set aside at once: the greatest signed machine
word. -/
def greatestReservation : Nat := 0x7FFFFFFFFFFFFFFF

/-- Decodes a promised number of instructions. Room for all the events is set
aside first, and a number for which there can be no room is a fault. -/
def decodeEvents (count : UInt64) (queue : ByteQueue) : Attempt (List Event) :=
  if greatestReservation < count.toNat * eventSlotBytes then
    ⟨.error .capacityOverflow, queue, []⟩
  else .begun (decodeCount count.toNat queue)

/-- A promise that is a fault takes nothing and records nothing. -/
theorem decodeEvents_of_fault {count : UInt64} {queue : ByteQueue} {fault : Fault}
    (failed : (decodeEvents count queue).verdict = .error fault) :
    decodeEvents count queue = ⟨.error fault, queue, []⟩ := by
  unfold decodeEvents at failed ⊢
  split at failed
  · next crowded =>
    cases failed
    rw [if_pos crowded]
  · cases failed

/-- Decodes until the queue is empty or its last instruction is not
complete. -/
def decodeUntilEmpty (queue : ByteQueue) : Decoding (List Event) :=
  if queue.isEmpty then .idle [] queue
  else
    match _decoded : decodeEvent queue with
    | ⟨.error underflow, rest, log⟩ => ⟨.error underflow, rest, log⟩
    | ⟨.ok event, rest, log⟩ =>
      let later := decodeUntilEmpty rest
      ⟨(event :: ·) <$> later.result, later.rest, log ++ later.log⟩
termination_by queue.length
decreasing_by exact decodeEvent_shortens _decoded

/-- Every event decoded on the way goes in front of those that follow. -/
theorem decodeUntilEmpty_eq (queue : ByteQueue) :
    decodeUntilEmpty queue =
      if queue.isEmpty then .idle [] queue
      else (decodeEvent queue).andThen fun event rest =>
        (decodeUntilEmpty rest).map (event :: ·) := by
  rw [decodeUntilEmpty]
  split
  · rfl
  · split
    · next refused => rw [refused, Decoding.andThen]
    · next decoded =>
      rw [decoded]
      rfl

end Lr35902
