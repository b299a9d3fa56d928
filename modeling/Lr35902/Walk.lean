import Lr35902.Decode
import Lr35902.Ram

/-! A processor that walks its program counter over a block of memory. It looks
at the byte under the counter, queues as many bytes as the instruction has, and
decodes; it stops at the end of the block, or before an instruction that would
reach beyond it. -/
namespace Lr35902

/-- Where a walk ended: the decodings on the way, the queue, and the program
counter. -/
structure Walk where
  decodings : List (Decoding Event)
  queue : ByteQueue
  counter : Nat

/-- The walk from a program counter to the end of a block. -/
def walk {size : Nat} (ram : Ram size) (stop counter : Nat) (queue : ByteQueue) :
    Except Fault Walk := do
  if _within : counter < stop then
    let first ← ram.readByte (UInt64.ofNat counter)
    let length := Instruction.length first
    if counter + length ≤ stop then
      let fetched := ram.fetchInto (UInt64.ofNat counter) length queue
      fetched.1
      let decoding := decodeEvent fetched.2
      let later ← walk ram stop (counter + length) decoding.rest
      return { later with decodings := decoding :: later.decodings }
    else return ⟨[], queue, counter⟩
  else return ⟨[], queue, counter⟩
termination_by stop - counter
decreasing_by
  have := Instruction.length_pos first
  omega

section
variable {size stop counter : Nat} {ram : Ram size} {queue : ByteQueue} {first : UInt8}

theorem walk_reached (reached : stop ≤ counter) :
    walk ram stop counter queue = .ok ⟨[], queue, counter⟩ := by
  rw [walk, dif_neg (Nat.not_lt.mpr reached)]
  rfl

theorem walk_short (within : counter < stop)
    (seen : ram.readByte (UInt64.ofNat counter) = .ok first)
    (short : stop < counter + Instruction.length first) :
    walk ram stop counter queue = .ok ⟨[], queue, counter⟩ := by
  rw [walk, dif_pos within, seen]
  exact if_neg (Nat.not_le.mpr short)

theorem walk_step {filled : ByteQueue} (within : counter < stop)
    (seen : ram.readByte (UInt64.ofNat counter) = .ok first)
    (fits : counter + Instruction.length first ≤ stop)
    (fetched : ram.fetchInto (UInt64.ofNat counter) (Instruction.length first) queue =
      (.ok (), filled)) :
    walk ram stop counter queue =
      (fun later => { later with decodings := decodeEvent filled :: later.decodings }) <$>
        walk ram stop (counter + Instruction.length first) (decodeEvent filled).rest := by
  rw [walk, dif_pos within, seen]
  refine (if_pos fits).trans ?_
  rw [fetched]
  rfl

end

end Lr35902
