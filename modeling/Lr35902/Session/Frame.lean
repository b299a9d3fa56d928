import Lr35902.Session

/-! What an action leaves alone. A look and a read change nothing, taking off
the queue is never a fault, and an action that is a fault leaves both queue and
memory as they were, because every change it could have made is all or nothing. -/
namespace Lr35902.Session

variable {size : Nat} {α : Type}

@[simp] theorem look_fst (session : Session size) (answer : α → Answer)
    (seen : Except Underflow α) : (session.look answer seen).1 = session := by
  cases seen <;> rfl

@[simp] theorem take_fst (session : Session size) (answer : α → Answer) (fetch : Fetch α) :
    (session.take answer fetch).1 = { session with queue := (fetch session.queue).2 } := by
  rw [take]
  cases fetch session.queue with
  | mk result rest => cases result <;> rfl

@[simp] theorem take_verdict (session : Session size) (answer : α → Answer) (fetch : Fetch α) :
    (session.take answer fetch).2.verdict = .ok (answer <$> (fetch session.queue).1) := by
  rw [take]
  cases fetch session.queue with
  | mk result rest => cases result <;> rfl

@[simp] theorem read_fst (session : Session size) (answer : α → Answer)
    (outcome : Except Fault α) : (session.read answer outcome).1 = session := by
  cases outcome <;> rfl

theorem look_queue (session : Session size) (answer : α → Answer) (seen : Except Underflow α) :
    (session.look answer seen).1.queue = session.queue := by
  rw [look_fst]

theorem read_queue (session : Session size) (answer : α → Answer) (outcome : Except Fault α) :
    (session.read answer outcome).1.queue = session.queue := by
  rw [read_fst]

theorem write_queue (session : Session size) (change : Change (Ram size) Unit) :
    (session.write change).1.queue = session.queue := rfl

theorem write_of_fault {session : Session size} {change : Change (Ram size) Unit}
    (safe : change.AllOrNothing) {fault : Fault}
    (failed : (session.write change).2.verdict = .error fault) :
    (session.write change).1 = session := by
  have kept : (change session.ram).2 = session.ram :=
    safe session.ram fault (map_eq_error_iff.mp failed)
  simp only [write, kept]

theorem fill_of_fault {session : Session size} {change : Change ByteQueue Unit}
    (safe : change.AllOrNothing) {fault : Fault}
    (failed : (session.fill change).2.verdict = .error fault) :
    (session.fill change).1 = session := by
  have kept : (change session.queue).2 = session.queue :=
    safe session.queue fault (map_eq_error_iff.mp failed)
  simp only [fill, kept]

theorem performOnQueue_of_fault {session : Session size} {action : QueueAction} {fault : Fault}
    (failed : (session.performOnQueue action).2.verdict = .error fault) :
    (session.performOnQueue action).1 = session := by
  cases action with
  | peek => exact look_fst session _ _
  | peekAt offset =>
    rw [performOnQueue]
    split
    · exact look_fst session _ _
    · rfl
  | get | getBytes | getWord =>
    rw [performOnQueue, take_verdict] at failed
    cases failed
  | decodeEvents count =>
    have refused : (Lr35902.decodeEvents count session.queue).verdict = .error fault :=
      map_eq_error_iff.mp failed
    rw [performOnQueue, attempt, decodeEvents_of_fault refused]
  | _ => cases failed

theorem performOnRam_of_fault {session : Session size} {action : RamAction} {fault : Fault}
    (failed : (session.performOnRam action).2.verdict = .error fault) :
    (session.performOnRam action).1 = session := by
  cases action with
  | readByte | readBytes | readWord => exact read_fst session _ _
  | writeByte address byte => exact write_of_fault (Ram.allOrNothing_writeByte address byte) failed
  | writeBytes address bytes =>
    exact write_of_fault (Ram.allOrNothing_writeBytes address bytes) failed
  | writeWord address value =>
    exact write_of_fault (Ram.allOrNothing_writeWord address value) failed
  | fetchInto address count =>
    exact fill_of_fault (Ram.allOrNothing_fetchInto address session.ram count) failed
  | _ => cases failed

/-- An action that is a fault changes nothing. -/
theorem perform_of_fault {session : Session size} {action : Action} {fault : Fault}
    (failed : (session.perform action).2.verdict = .error fault) :
    (session.perform action).1 = session := by
  cases action with
  | queue action => exact performOnQueue_of_fault failed
  | ram action => exact performOnRam_of_fault failed

end Lr35902.Session
