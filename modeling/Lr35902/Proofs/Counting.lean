import Lr35902.Proofs.Segments

/-! Decoding a promised number of instructions. A promise can be kept in two
parts, and the outcome is the same as if it had been made at once. Against the
division of a byte string the number decides: up to the number of its
instructions exactly so many are taken, and beyond it all of them, before the
lack of bytes in the tail is reported. -/
namespace Lr35902.Counting
open Instruction Segments

section
variable {α β γ : Type}

theorem idle_andThen (value : α) (queue : ByteQueue) (next : α → ByteQueue → Decoding β) :
    (Decoding.idle value queue).andThen next = next value queue := rfl

theorem andThen_assoc (decoding : Decoding α) (next : α → ByteQueue → Decoding β)
    (last : β → ByteQueue → Decoding γ) :
    (decoding.andThen next).andThen last =
      decoding.andThen fun value rest => (next value rest).andThen last := by
  obtain ⟨result, rest, log⟩ := decoding
  cases result with
  | error underflow => rfl
  | ok value =>
    simp only [Decoding.andThen]
    cases (next value rest).result with
    | error underflow => rfl
    | ok inner => simp only [List.append_assoc]

/-- To change the value is to go on without decoding anything. -/
theorem map_eq_andThen (change : α → β) (decoding : Decoding α) :
    decoding.map change = decoding.andThen fun value rest => .idle (change value) rest := by
  obtain ⟨result, rest, log⟩ := decoding
  cases result with
  | error underflow => rfl
  | ok value =>
    simp only [Decoding.map, Decoding.andThen, Decoding.idle, List.append_nil]
    rfl

end

/-- A number of instructions can be decoded in two parts. The second part is
not begun if the first one fails. -/
theorem decodeCount_add (first second : Nat) (queue : ByteQueue) :
    decodeCount (first + second) queue =
      (decodeCount first queue).andThen fun events rest =>
        (decodeCount second rest).map (events ++ ·) := by
  induction first generalizing queue with
  | zero =>
    rw [Nat.zero_add, decodeCount, idle_andThen, map_eq_andThen]
    obtain ⟨result, rest, log⟩ := decodeCount second queue
    cases result with
    | error underflow => rfl
    | ok events => simp only [Decoding.andThen, Decoding.idle, List.nil_append, List.append_nil]
  | succ first ih =>
    rw [Nat.succ_add, decodeCount, decodeCount]
    simp only [ih, map_eq_andThen, andThen_assoc, idle_andThen, List.cons_append]

theorem decodeCount_parts {parts : List (List UInt8)}
    (whole : ∀ part ∈ parts, IsInstruction part) (later : List UInt8) :
    decodeCount parts.length ⟨parts.flatten ++ later⟩ =
      ⟨.ok (parts.map event), ⟨later⟩, (parts.map event).flatMap Event.records⟩ := by
  induction parts with
  | nil => rfl
  | cons part parts ih =>
    have rest := ih fun cut member => whole cut (List.mem_cons_of_mem _ member)
    rw [List.length_cons, decodeCount, List.flatten_cons, List.append_assoc,
      decodeEvent_instruction (whole part (by simp))]
    simp only [Decoding.andThen, rest]
    rfl

theorem decodeCount_tail {tail : List UInt8} (incomplete : IsTail tail) (count : Nat) :
    decodeCount (count + 1) ⟨tail⟩ =
      ⟨.error ⟨needed tail, tail.length⟩, ⟨tail⟩, []⟩ := by
  rw [decodeCount, decodeEvent_tail incomplete]
  rfl

section
variable {bytes tail : List UInt8} {parts : List (List UInt8)} {count : Nat}

/-- Up to the number of instructions in a division, the number decides how many
are taken. -/
theorem decodeCount_within (divided : Segmentation bytes parts tail)
    (within : count ≤ parts.length) :
    decodeCount count ⟨bytes⟩ =
      ⟨.ok ((parts.take count).map event), ⟨(parts.drop count).flatten ++ tail⟩,
        ((parts.take count).map event).flatMap Event.records⟩ := by
  have whole : ∀ part ∈ parts.take count, IsInstruction part :=
    fun part member => divided.whole part (List.mem_of_mem_take member)
  have taken := decodeCount_parts whole ((parts.drop count).flatten ++ tail)
  rwa [List.length_take, Nat.min_eq_left within, ← divided.cut] at taken

/-- Beyond that number the whole division is taken, and the tail is refused. -/
theorem decodeCount_beyond (divided : Segmentation bytes parts tail)
    (beyond : parts.length < count) :
    decodeCount count ⟨bytes⟩ =
      ⟨.error ⟨needed tail, tail.length⟩, ⟨tail⟩, (parts.map event).flatMap Event.records⟩ := by
  obtain ⟨more, rfl⟩ : ∃ more, count = parts.length + (more + 1) :=
    ⟨count - parts.length - 1, by omega⟩
  rw [decodeCount_add, ← divided.joined, decodeCount_parts divided.whole]
  simp only [Decoding.andThen, decodeCount_tail divided.incomplete, Decoding.map, List.append_nil]
  rfl

end

/-- Room for so many events can be set aside. -/
def Reservable (count : Nat) : Prop := count * eventSlotBytes ≤ greatestReservation

instance (count : Nat) : Decidable (Reservable count) := inferInstanceAs (Decidable (_ ≤ _))

theorem decodeEvents_reserved {count : UInt64} (room : Reservable count.toNat)
    (queue : ByteQueue) : decodeEvents count queue = .begun (decodeCount count.toNat queue) :=
  if_neg (Nat.not_lt.mpr room)

theorem decodeEvents_unreserved {count : UInt64} (crowded : ¬ Reservable count.toNat)
    (queue : ByteQueue) : decodeEvents count queue = ⟨.error .capacityOverflow, queue, []⟩ :=
  if_pos (Nat.lt_of_not_le crowded)

theorem Reservable.of_le {count more : Nat} (room : Reservable more) (fewer : count ≤ more) :
    Reservable count :=
  Nat.le_trans (Nat.mul_le_mul_right eventSlotBytes fewer) room

/-- Two numbers for which there is room together do not overflow. -/
theorem toNat_add_of_reservable {first second : UInt64}
    (room : Reservable (first.toNat + second.toNat)) :
    (first + second).toNat = first.toNat + second.toNat := by
  simp only [Reservable, eventSlotBytes, greatestReservation] at room
  rw [UInt64.toNat_add]
  omega

/-- A promise of two parts is kept by keeping the first and then the second. -/
theorem decodeEvents_add {first second : UInt64}
    (room : Reservable (first.toNat + second.toNat)) (queue : ByteQueue) :
    decodeEvents (first + second) queue =
      .begun ((decodeCount first.toNat queue).andThen fun events rest =>
        (decodeCount second.toNat rest).map (events ++ ·)) := by
  have sum := toNat_add_of_reservable room
  rw [decodeEvents_reserved (sum ▸ room), sum, decodeCount_add]

/-- **A promised number of instructions can be decoded in parts, and it agrees
with the division.** If there is room for both parts together, decoding them at
once is decoding the first and then, unless that fails, the second: the events
and records follow one another, and error and remaining bytes are those of the
part that came last. For a byte string with a given division, no more than its
instructions can be decoded: with a number up to theirs the first of their
events are given and the rest is left, and with a greater number the tail is
left and refused as it is when decoded alone. Decoding until the queue is empty
succeeds if and only if there is no tail, and is then the same as decoding the
number of instructions. -/
theorem decodeEvents_composes (bytes : List UInt8) :
    (∀ first second : UInt64, Reservable (first.toNat + second.toNat) →
      ∃ before, decodeEvents first ⟨bytes⟩ = .begun before ∧
        (∀ underflow, before.result = .error underflow →
          decodeEvents (first + second) ⟨bytes⟩ =
            .begun ⟨.error underflow, before.rest, before.log⟩) ∧
        ∀ events, before.result = .ok events →
          ∃ after, decodeEvents second before.rest = .begun after ∧
            decodeEvents (first + second) ⟨bytes⟩ =
              .begun ⟨(events ++ ·) <$> after.result, after.rest, before.log ++ after.log⟩) ∧
    ∀ parts tail, Segmentation bytes parts tail →
      ∃ events, (parts.map fun part => decodeEvent ⟨part⟩) =
          (events.map fun event => ⟨.ok event, .empty, event.records⟩) ∧
        (∀ count : UInt64, Reservable count.toNat → count.toNat ≤ parts.length →
          decodeEvents count ⟨bytes⟩ =
            .begun ⟨.ok (events.take count.toNat), ⟨(parts.drop count.toNat).flatten ++ tail⟩,
              (events.take count.toNat).flatMap Event.records⟩) ∧
        (∀ count : UInt64, Reservable count.toNat → parts.length < count.toNat →
          ∃ underflow, decodeEvent ⟨tail⟩ = ⟨.error underflow, ⟨tail⟩, []⟩ ∧
            decodeEvents count ⟨bytes⟩ =
              .begun ⟨.error underflow, ⟨tail⟩, events.flatMap Event.records⟩ ∧
            (tail = [] → underflow = ⟨1, 0⟩)) ∧
        ((∃ decoded, (decodeUntilEmpty ⟨bytes⟩).result = .ok decoded) ↔ tail = []) ∧
        (tail = [] → (decodeUntilEmpty ⟨bytes⟩).result = .ok events ∧
          ∀ count : UInt64, Reservable count.toNat → count.toNat = parts.length →
            decodeEvents count ⟨bytes⟩ = .begun (decodeUntilEmpty ⟨bytes⟩)) := by
  constructor
  · intro first second room
    have firstRoom := room.of_le (Nat.le_add_right _ _)
    have secondRoom := room.of_le (Nat.le_add_left _ _)
    have together := decodeEvents_add room ⟨bytes⟩
    refine ⟨_, decodeEvents_reserved firstRoom _, ?_, ?_⟩
    · intro underflow refused
      rw [together, Decoding.andThen, refused]
    · intro events decoded
      refine ⟨_, decodeEvents_reserved secondRoom _, ?_⟩
      rw [together, Decoding.andThen, decoded]
      rfl
  · intro parts tail divided
    have untilEmpty := decodeUntilEmpty_segments bytes
    rw [segmentation_unique divided] at untilEmpty
    refine ⟨parts.map event, ?_, ?_, ?_, ?_, ?_⟩
    · rw [List.map_map]
      exact List.map_congr_left fun part member => decodeEvent_alone (divided.whole part member)
    · intro count room within
      rw [decodeEvents_reserved room, decodeCount_within divided within, List.map_take]
    · intro count room beyond
      refine ⟨_, decodeEvent_tail divided.incomplete, ?_, ?_⟩
      · rw [decodeEvents_reserved room, decodeCount_beyond divided beyond]
      · rintro rfl
        rfl
    · rw [untilEmpty]
      cases tail with
      | nil => simp [ending]
      | cons first rest => simp [ending]
    · rintro rfl
      refine ⟨by rw [untilEmpty, ending], ?_⟩
      intro count room same
      rw [decodeEvents_reserved room, decodeCount_within divided (Nat.le_of_eq same), untilEmpty,
        ending, List.take_of_length_le (Nat.le_of_eq same.symm),
        List.drop_of_length_le (Nat.le_of_eq same.symm)]
      rfl

end Lr35902.Counting
