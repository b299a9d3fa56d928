import Lr35902.Proofs.Counting
import Lr35902.Ram.Bounds
import Lr35902.Session.Account
import Lr35902.Session.Frame

/-! A queue loses nothing and invents nothing. Whatever a session does to its
queue, the bytes that were in it and those put at its end are, in order, the
bytes taken off its front and those still in it. And bytes are taken only by
actions that give them back in their answer, or that decode them as whole
instructions. -/
namespace Lr35902.Lossless
open Instruction Segments Counting Ram

/-- The bytes an action takes off the queue, told by how it ends. Bytes that are
read come back in the answer, and bytes that are decoded are whole instructions,
whose events come back unless a later instruction is incomplete. Every other
ending takes nothing. -/
def Takes (taken : List UInt8) : Action → Except Fault (Except Underflow Answer) → Prop
  | .queue .get, .ok (.ok answer) => ∃ byte, answer = .byte byte ∧ taken = [byte]
  | .queue (.getBytes count), .ok (.ok answer) => answer = .bytes taken ∧ taken.length = count
  | .queue .getWord, .ok (.ok answer) =>
    ∃ low high, answer = .word (LittleEndian.toWord [low, high]) ∧ taken = [low, high]
  | .queue .decodeEvent, .ok (.ok answer) => answer = .event (event taken) ∧ IsInstruction taken
  | .queue (.decodeEvents count), .ok (.ok answer) =>
    ∃ parts : List (List UInt8), answer = .events (parts.map event) ∧ taken = parts.flatten ∧
      (∀ part ∈ parts, IsInstruction part) ∧ parts.length = count.toNat
  | .queue (.decodeEvents count), .ok (.error _) =>
    ∃ parts : List (List UInt8), taken = parts.flatten ∧
      (∀ part ∈ parts, IsInstruction part) ∧ parts.length < count.toNat
  | .queue .decodeUntilEmpty, .ok (.ok answer) =>
    ∃ parts : List (List UInt8), answer = .events (parts.map event) ∧ taken = parts.flatten ∧
      ∀ part ∈ parts, IsInstruction part
  | .queue .decodeUntilEmpty, .ok (.error _) =>
    ∃ parts : List (List UInt8), taken = parts.flatten ∧ ∀ part ∈ parts, IsInstruction part
  | _, _ => taken = []

/-- Nothing is taken by a fault. -/
theorem Takes.of_fault {taken : List UInt8} {action : Action} {fault : Fault}
    (told : Takes taken action (.error fault)) : taken = [] := by
  cases action with
  | queue action => cases action <;> exact told
  | ram action => exact told

/-- The books of an action are right: nothing is lost, and what is taken is what
its ending tells. -/
structure Balanced {size : Nat} (session : Session size) (action : Action) : Prop where
  conserved : session.queue.bytes ++ session.appended action =
    session.consumed action ++ (session.perform action).1.queue.bytes
  told : Takes (session.consumed action) action (session.perform action).2.verdict

section
variable {size : Nat} (session : Session size) {action : Action} {front back : List UInt8}

/-- An action that cuts the queue in two and takes the front has to tell of the
front. -/
theorem balanced_of_cut (adds : session.appended action = [])
    (cut : session.queue.bytes = front ++ back) (takes : session.consumed action = front)
    (left : (session.perform action).1.queue = ⟨back⟩)
    (told : Takes front action (session.perform action).2.verdict) : Balanced session action := by
  refine ⟨?_, ?_⟩
  · rw [adds, takes, left, List.append_nil, cut]
  · rw [takes]
    exact told

/-- An action that neither adds nor takes has nothing to tell. -/
theorem balanced_of_idle (adds : session.appended action = [])
    (takes : session.consumed action = [])
    (same : (session.perform action).1.queue = session.queue)
    (told : Takes [] action (session.perform action).2.verdict) : Balanced session action :=
  balanced_of_cut session adds (List.nil_append _).symm takes same told

theorem balanced_peek : Balanced session (.queue .peek) :=
  balanced_of_idle session rfl rfl (Session.look_queue session _ _) rfl

theorem balanced_peekAt (offset : UInt64) : Balanced session (.queue (.peekAt offset)) := by
  refine balanced_of_idle session rfl rfl ?_ rfl
  simp only [Session.perform, Session.performOnQueue]
  cases session.queue.peekAt offset with
  | ok seen => exact Session.look_queue session _ seen
  | error fault => rfl

theorem balanced_get : Balanced session (.queue .get) := by
  obtain ⟨⟨bytes⟩, ram, savedQueue, savedRam⟩ := session
  cases bytes with
  | nil => exact ⟨rfl, rfl⟩
  | cons first rest => exact ⟨List.append_nil _, first, rfl, rfl⟩

theorem balanced_getBytes (count : Nat) : Balanced session (.queue (.getBytes count)) := by
  by_cases enough : count ≤ session.queue.length
  · refine balanced_of_cut session rfl (List.take_append_drop count _).symm (if_pos enough) ?_ ?_
    · rw [Session.perform, Session.performOnQueue, Session.take_fst,
        ByteQueue.getBytes_enough enough]
    · rw [Session.perform, Session.performOnQueue, Session.take_verdict,
        ByteQueue.getBytes_enough enough]
      exact ⟨rfl, List.length_take_of_le enough⟩
  · have short := Nat.lt_of_not_le enough
    refine balanced_of_idle session rfl (if_neg enough) ?_ ?_
    · rw [Session.perform, Session.performOnQueue, Session.take_fst, ByteQueue.getBytes_short short]
    · rw [Session.perform, Session.performOnQueue, Session.take_verdict,
        ByteQueue.getBytes_short short]
      rfl

theorem balanced_getWord : Balanced session (.queue .getWord) := by
  obtain ⟨⟨bytes⟩, ram, savedQueue, savedRam⟩ := session
  match bytes with
  | [] => exact ⟨rfl, rfl⟩
  | [byte] => exact ⟨rfl, rfl⟩
  | low :: high :: rest =>
    have enough : 2 ≤ ByteQueue.length ⟨low :: high :: rest⟩ := Nat.le_add_left 2 rest.length
    have takes : Session.consumedByQueue ⟨low :: high :: rest⟩ .getWord = [low, high] := by
      rw [Session.consumedByQueue, if_pos enough]
      rfl
    exact balanced_of_cut _ rfl rfl takes rfl ⟨low, high, rfl, rfl⟩

/-- What a decoding leaves in the queue is the back of a cut. -/
theorem balanced_of_decoding {α : Type} {answer : α → Answer} {decoding : Decoding α}
    (performed : session.perform action = session.decode answer decoding)
    (adds : session.appended action = [])
    (cut : session.queue.bytes = front ++ decoding.rest.bytes)
    (takes : session.consumed action = front)
    (told : Takes front action (.ok (answer <$> decoding.result))) : Balanced session action := by
  refine balanced_of_cut session adds cut takes ?_ ?_
  · rw [performed]
    rfl
  · rw [performed]
    exact told

theorem balanced_decodeEvent : Balanced session (.queue .decodeEvent) := by
  obtain ⟨⟨bytes⟩, ram, savedQueue, savedRam⟩ := session
  rcases tail_or_instruction bytes with incomplete | ⟨part, later, whole, rfl⟩
  · have decoded := decodeEvent_tail incomplete
    have takes : Session.consumedByQueue ⟨bytes⟩ .decodeEvent = [] := by
      rw [Session.consumedByQueue, segments_tail incomplete]
      rfl
    refine balanced_of_decoding _ rfl rfl ?_ takes ?_
    · rw [decoded]
      rfl
    · rw [decoded]
      rfl
  · have decoded := decodeEvent_instruction whole later
    have takes : Session.consumedByQueue ⟨part ++ later⟩ .decodeEvent = part := by
      rw [Session.consumedByQueue, segments_instruction whole]
      exact List.append_nil part
    refine balanced_of_decoding _ rfl rfl ?_ takes ?_
    · rw [decoded]
    · rw [decoded]
      exact ⟨rfl, whole⟩

theorem balanced_decodeUntilEmpty : Balanced session (.queue .decodeUntilEmpty) := by
  obtain ⟨⟨bytes⟩, ram, savedQueue, savedRam⟩ := session
  have divided := segmentation_segments bytes
  have decoded := decodeUntilEmpty_segments bytes
  refine balanced_of_decoding _ rfl rfl ?_ rfl ?_
  · rw [decoded]
    exact divided.joined.symm
  · rw [decoded]
    cases (segments bytes).2 with
    | nil => exact ⟨_, rfl, rfl, divided.whole⟩
    | cons first rest => exact ⟨_, rfl, divided.whole⟩

theorem balanced_decodeEvents_reserved {count : UInt64} (room : Reservable count.toNat) :
    Balanced session (.queue (.decodeEvents count)) := by
  have reserved := decodeEvents_reserved room session.queue
  have performed : session.perform (.queue (.decodeEvents count)) =
      session.decode .events (decodeCount count.toNat session.queue) := by
    simp only [Session.perform, Session.performOnQueue, reserved]
    rfl
  have takes : session.consumed (.queue (.decodeEvents count)) =
      ((segments session.queue.bytes).1.take count.toNat).flatten := by
    simp only [Session.consumed, Session.consumedByQueue, reserved, Attempt.begun]
  obtain ⟨⟨bytes⟩, ram, savedQueue, savedRam⟩ := session
  have divided := segmentation_segments bytes
  rcases Nat.lt_or_ge (segments bytes).1.length count.toNat with beyond | within
  · -- all instructions are taken, and the tail is what is refused
    have decoded := decodeCount_beyond divided beyond
    rw [List.take_of_length_le (Nat.le_of_lt beyond)] at takes
    refine balanced_of_decoding _ performed rfl ?_ takes ?_
    · rw [decoded]
      exact divided.joined.symm
    · rw [decoded]
      exact ⟨_, rfl, divided.whole, beyond⟩
  · have decoded := decodeCount_within divided within
    refine balanced_of_decoding _ performed rfl ?_ takes ?_
    · rw [decoded]
      exact divided.cut count.toNat
    · rw [decoded]
      exact ⟨_, rfl, rfl, fun part member => divided.whole part (List.mem_of_mem_take member),
        List.length_take_of_le within⟩

theorem balanced_decodeEvents_unreserved {count : UInt64} (crowded : ¬ Reservable count.toNat) :
    Balanced session (.queue (.decodeEvents count)) := by
  have refused := decodeEvents_unreserved crowded session.queue
  refine balanced_of_idle session rfl ?_ ?_ ?_
  · simp only [Session.consumed, Session.consumedByQueue, refused]
  · simp only [Session.perform, Session.performOnQueue, refused]
    rfl
  · simp only [Session.perform, Session.performOnQueue, refused]
    rfl

theorem balanced_decodeEvents (count : UInt64) :
    Balanced session (.queue (.decodeEvents count)) := by
  by_cases room : Reservable count.toNat
  · exact balanced_decodeEvents_reserved session room
  · exact balanced_decodeEvents_unreserved session room

/-- Every action on the queue keeps the books, except one that brings back a
queue of the past. -/
theorem balanced_queue {action : QueueAction} (kept : (Action.queue action).keepsHistory) :
    Balanced session (.queue action) := by
  cases action with
  | peek => exact balanced_peek session
  | peekAt offset => exact balanced_peekAt session offset
  | get => exact balanced_get session
  | getBytes count => exact balanced_getBytes session count
  | getWord => exact balanced_getWord session
  | add byte => exact ⟨rfl, rfl⟩
  | append bytes => exact ⟨rfl, rfl⟩
  | display => exact balanced_of_idle session rfl rfl rfl rfl
  | decodeEvent => exact balanced_decodeEvent session
  | decodeEvents count => exact balanced_decodeEvents session count
  | decodeUntilEmpty => exact balanced_decodeUntilEmpty session
  | save => exact balanced_of_idle session rfl rfl rfl rfl
  | restore => cases kept
  | equalsSaved => exact balanced_of_idle session rfl rfl rfl rfl

end

section
variable {size : UInt64} (session : Session size.toNat)

theorem balanced_fetchInto (address : UInt64) (count : Nat) :
    Balanced session (.ram (.fetchInto address count)) := by
  have fetched : session.ram.fetchInto address count session.queue = _ :=
    fetchInto_eq session.ram session.queue
  by_cases inside : address.toNat + count ≤ size.toNat
  · rw [if_pos inside] at fetched
    have adds : session.appended (.ram (.fetchInto address count)) =
        session.ram.slice address.toNat count := if_pos inside
    refine ⟨?_, rfl⟩
    simp only [Session.perform, Session.performOnRam, Session.fill, fetched, adds]
    rfl
  · rw [if_neg inside] at fetched
    refine balanced_of_idle session (if_neg inside) rfl ?_ rfl
    simp only [Session.perform, Session.performOnRam, Session.fill, fetched]

theorem balanced_ram (action : RamAction) : Balanced session (.ram action) := by
  cases action with
  | fetchInto address count => exact balanced_fetchInto session address count
  | readByte | readBytes | readWord =>
    exact balanced_of_idle session rfl rfl (Session.read_queue session _ _) rfl
  | writeByte | writeBytes | writeWord =>
    exact balanced_of_idle session rfl rfl (Session.write_queue session _) rfl
  | _ => exact balanced_of_idle session rfl rfl rfl rfl

/-- The step lemma: one action keeps the books. -/
theorem balanced {action : Action} (kept : action.keepsHistory) : Balanced session action := by
  cases action with
  | queue action => exact balanced_queue session kept
  | ram action => exact balanced_ram session action

/-- The run lemma: what is taken and what is left are, at every time, what was
there and what was added. -/
theorem account_balanced (actions : List Action) (kept : ∀ action ∈ actions, action.keepsHistory) :
    session.queue.bytes ++ (session.account actions).1 =
      (session.account actions).2.1 ++ (session.account actions).2.2.queue.bytes := by
  induction actions generalizing session with
  | nil => exact List.append_nil _
  | cons action actions ih =>
    obtain ⟨now, later⟩ := List.forall_mem_cons.mp kept
    have step := (balanced session now).conserved
    have run := ih (session.perform action).1 later
    simp only [Session.account]
    rw [← List.append_assoc, step, List.append_assoc, run, List.append_assoc]

/-- In range, the bytes fetched are those that the memory holds at that time. -/
theorem fetchInto_of_inside {address : UInt64} {count : Nat}
    (inside : address.toNat + count ≤ size.toNat) :
    (session.perform (.ram (.fetchInto address count))).2.verdict = .ok (.ok .done) ∧
      session.ram.readBytes address count =
        .ok (session.appended (.ram (.fetchInto address count))) := by
  constructor
  · simp only [Session.perform, Session.performOnRam, Session.fill, fetchInto_eq, if_pos inside]
    rfl
  · simp only [readBytes_eq, Session.appended, if_pos inside]
    rfl

theorem fetchInto_of_outside {address : UInt64} {count : Nat}
    (outside : ¬ address.toNat + count ≤ size.toNat) :
    ∃ fault, (session.perform (.ram (.fetchInto address count))).2.verdict = .error fault := by
  refine ⟨rangeFault size.toNat .read address.toNat count, ?_⟩
  simp only [Session.perform, Session.performOnRam, Session.fill, fetchInto_eq, if_neg outside]
  rfl

/-- A fault neither takes nor adds. -/
theorem nothing_of_fault {action : Action} {fault : Fault} (kept : action.keepsHistory)
    (failed : (session.perform action).2.verdict = .error fault) :
    session.consumed action = [] ∧ session.appended action = [] := by
  obtain ⟨conserved, told⟩ := balanced session kept
  rw [failed] at told
  have takes := told.of_fault
  -- the queue is as before, so what was added is what was taken
  rw [Session.perform_of_fault failed, takes] at conserved
  exact ⟨takes, List.append_right_eq_self.mp conserved⟩

end

/-- **The queue loses nothing.** In every run that brings back no queue of the
past, what was queued and what was added is what was taken and what is still
queued, in this order. So it is for a single action in any state, and bytes are
taken only as the ending of the action tells. A fault changes neither queue nor
memory. Fetching adds the bytes that the memory holds in the range at that time
if the range lies in the memory, and is a fault otherwise. -/
theorem queue_lossless {size : UInt64} (session : Session size.toNat) (actions : List Action)
    (kept : ∀ action ∈ actions, action.keepsHistory) :
    session.queue.bytes ++ (session.account actions).1 =
      (session.account actions).2.1 ++ (session.account actions).2.2.queue.bytes ∧
    ∀ (state : Session size.toNat) (action : Action), action.keepsHistory →
      Balanced state action ∧
      (∀ fault, (state.perform action).2.verdict = .error fault →
        (state.perform action).1 = state ∧ state.consumed action = [] ∧
          state.appended action = []) ∧
      ∀ address count, action = .ram (.fetchInto address count) →
        (address.toNat + count ≤ size.toNat →
          (state.perform action).2.verdict = .ok (.ok .done) ∧
            state.ram.readBytes address count = .ok (state.appended action)) ∧
        (¬ address.toNat + count ≤ size.toNat →
          ∃ fault, (state.perform action).2.verdict = .error fault) := by
  refine ⟨account_balanced session actions kept, ?_⟩
  intro state action keeps
  refine ⟨balanced state keeps, ?_, ?_⟩
  · intro fault failed
    exact ⟨Session.perform_of_fault failed, nothing_of_fault state keeps failed⟩
  · rintro address count rfl
    exact ⟨fetchInto_of_inside state, fetchInto_of_outside state⟩

/-- One byte queued, and four in memory. -/
def oneQueued : Session (UInt64.toNat 4) :=
  ⟨⟨[0x01]⟩, ⟨#v[0x3E, 0x2A, 0x47, 0xC9]⟩, .empty, .zeroed _⟩

/-- A word that is not there yet, one that is, and a range that leaves the
memory. -/
def shortAndOutside : List Action :=
  [.queue .getWord, .ram (.fetchInto 1 2), .queue .peek, .queue .getWord, .ram (.fetchInto 3 2),
    .queue .decodeEvent, .queue (.add 0xAA)]

/-- Only the word and the instruction are taken, and only the range within the
memory and the last byte are added. -/
theorem lossless_shortAndOutside :
    (∀ action ∈ shortAndOutside, action.keepsHistory) ∧
      (oneQueued.account shortAndOutside).1 = [0x2A, 0x47, 0xAA] ∧
      (oneQueued.account shortAndOutside).2.1 = [0x01, 0x2A, 0x47] ∧
      oneQueued.queue.bytes ++ (oneQueued.account shortAndOutside).1 =
        (oneQueued.account shortAndOutside).2.1 ++
          (oneQueued.account shortAndOutside).2.2.queue.bytes ∧
      (oneQueued.account shortAndOutside).2.2.queue.bytes = [0xAA] := by
  have kept : ∀ action ∈ shortAndOutside, action.keepsHistory := by decide
  have run := (queue_lossless oneQueued shortAndOutside kept).1
  exact ⟨kept, by decide +kernel, by decide +kernel, run, by decide +kernel⟩

end Lr35902.Lossless
