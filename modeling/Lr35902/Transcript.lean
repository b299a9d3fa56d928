import Lr35902.Decode

/-! What the log should hold, told from the bytes that were consumed: one entry
for every instruction, in order. -/
namespace Lr35902

/-- The announcement of an instruction without a meaning, with every byte of
it in hexadecimal. -/
def announcementOf : List UInt8 → List LogRecord
  | [opcode] => [⟨.debug, "unimplemented opcode $" ++ Hex.byte opcode⟩]
  | [introducer, opcode] =>
    [⟨.debug, "unimplemented prefixed opcode $" ++ Hex.byte introducer ++ " $" ++
      Hex.byte opcode⟩]
  | _ => []

/-- Whether the instruction has no meaning. -/
def Event.isUnimplemented : Event → Bool
  | .unimplemented _ _ => true
  | _ => false

/-- The entry for one instruction: its announcement if it has no meaning, and
the text of its event. -/
def entryOf (instruction : List UInt8) : List LogRecord :=
  match (decodeEvent ⟨instruction⟩).result with
  | .error _ => []
  | .ok event =>
    (if event.isUnimplemented then announcementOf instruction else []) ++
      [⟨.trace, "decoded " ++ describe event⟩]

/-- The entries for a sequence of instructions. -/
def transcript (instructions : List (List UInt8)) : List LogRecord :=
  instructions.flatMap entryOf

/-- The log of a decoding is the transcript of the instructions that it took off
the front of the queue. If it was refused in the end, then for the bytes it left,
which are not recorded. -/
structure Transcribes {α : Type} (queue : ByteQueue) (taken : List (List UInt8))
    (decoding : Decoding α) : Prop where
  whole : ∀ part ∈ taken, IsInstruction part
  joined : queue.bytes = taken.flatten ++ decoding.rest.bytes
  log : decoding.log = transcript taken
  refused : ∀ underflow, decoding.result = .error underflow →
    decodeEvent decoding.rest = ⟨.error underflow, decoding.rest, []⟩

end Lr35902
