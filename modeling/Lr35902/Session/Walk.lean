import Lr35902.Session.Frame
import Lr35902.Walk

/-! A walk carried out by a session: it reads the byte under the counter, fetches
as many bytes as the instruction has, and decodes. The session could change its
memory on the way, which a walk over a memory that is merely given could not. -/
namespace Lr35902.Session

variable {size : Nat}

/-- One step of a walk: the bytes of an instruction are fetched, and it is
decoded. -/
def fetchAndDecode (session : Session size) (counter length : Nat) : Session size × Report :=
  let fetched := session.perform (.ram (.fetchInto (UInt64.ofNat counter) length))
  fetched.1.perform (.queue .decodeEvent)

/-- The walk from a program counter to the end of a block by actions of a
session: the session after it, the reports of the decodings on the way, and the
program counter. -/
def walk (session : Session size) (stop counter : Nat) : Session size × List Report × Nat :=
  if _within : counter < stop then
    match (session.perform (.ram (.readByte (UInt64.ofNat counter)))).2.verdict with
    | .ok (.ok (.byte first)) =>
      if counter + Instruction.length first ≤ stop then
        let decoded := session.fetchAndDecode counter (Instruction.length first)
        let later := walk decoded.1 stop (counter + Instruction.length first)
        (later.1, decoded.2 :: later.2.1, later.2.2)
      else (session, [], counter)
    | _ => (session, [], counter)
  else (session, [], counter)
termination_by stop - counter
decreasing_by
  have := Instruction.length_pos first
  omega

theorem fetchAndDecode_eq {session : Session size} {counter length : Nat} {filled : ByteQueue}
    (fetched : session.ram.fetchInto (UInt64.ofNat counter) length session.queue =
      (.ok (), filled)) :
    session.fetchAndDecode counter length =
      ({ session with queue := (decodeEvent filled).rest },
        Report.ofDecoding .event (decodeEvent filled)) := by
  simp only [fetchAndDecode, perform, performOnRam, fill, fetched, performOnQueue, decode]

section
variable {session : Session size} {stop counter : Nat} {first : UInt8}

theorem readByte_verdict (seen : session.ram.readByte (UInt64.ofNat counter) = .ok first) :
    (session.perform (.ram (.readByte (UInt64.ofNat counter)))).2.verdict =
      .ok (.ok (.byte first)) := by
  simp only [perform, performOnRam, seen, read, Report.ok]

theorem walk_reached (reached : stop ≤ counter) :
    session.walk stop counter = (session, [], counter) := by
  rw [walk, dif_neg (Nat.not_lt.mpr reached)]

theorem walk_short (within : counter < stop)
    (seen : session.ram.readByte (UInt64.ofNat counter) = .ok first)
    (short : stop < counter + Instruction.length first) :
    session.walk stop counter = (session, [], counter) := by
  rw [walk, dif_pos within, readByte_verdict seen]
  exact if_neg (Nat.not_le.mpr short)

theorem walk_step (within : counter < stop)
    (seen : session.ram.readByte (UInt64.ofNat counter) = .ok first)
    (fits : counter + Instruction.length first ≤ stop) :
    session.walk stop counter =
      let decoded := session.fetchAndDecode counter (Instruction.length first)
      let later := decoded.1.walk stop (counter + Instruction.length first)
      (later.1, decoded.2 :: later.2.1, later.2.2) := by
  rw [walk, dif_pos within, readByte_verdict seen]
  exact if_pos fits

end

end Lr35902.Session
