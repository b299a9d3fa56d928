import Lr35902.Proofs.Counting
import Lr35902.Ram.Bounds
import Lr35902.Session.Walk

/-! Walking a program counter over memory agrees with fetching the whole block
at once. Each step of the walk takes the next instruction of the block, because
the byte under the counter is the one whose length the division of the block
goes by; so the walk stops where the tail of the block begins. -/
namespace Lr35902.Walking
open Instruction Segments Counting Ram

section
variable {size : UInt64} {ram : Ram size.toNat} {stop counter : Nat}

/-- A number up to the size of a memory is an address. -/
theorem toNat_ofNat_of_le (inside : counter ≤ size.toNat) :
    (UInt64.ofNat counter).toNat = counter :=
  UInt64.toNat_ofNat_of_lt' (Nat.lt_of_le_of_lt inside size.toNat_lt_size)

/-- Before the tail of a block, the counter is at its end or sees an instruction
that reaches beyond it. -/
theorem tail_ahead {tail : List UInt8} (inside : stop ≤ size.toNat) (reached : counter ≤ stop)
    (cut : ram.slice counter (stop - counter) = tail) (incomplete : IsTail tail) :
    stop ≤ counter ∨ ∃ first, counter < stop ∧ ram.readByte (UInt64.ofNat counter) = .ok first ∧
      stop < counter + Instruction.length first := by
  have extent : (ram.slice counter (stop - counter)).length = stop - counter :=
    length_slice ram (by omega)
  rw [cut] at extent
  cases tail with
  | nil => exact .inl (Nat.le_of_sub_eq_zero extent.symm)
  | cons first rest =>
    have short : (first :: rest).length < Instruction.length first := isTail_iff.mp incomplete
    rw [List.length_cons] at short extent
    exact .inr ⟨first, by omega, readByte_of_slice cut, by omega⟩

/-- Before an instruction of a block, the counter sees its first byte, all of it
can be fetched, and the rest of the block follows. -/
theorem instruction_ahead {part later : List UInt8} (inside : stop ≤ size.toNat)
    (reached : counter ≤ stop) (cut : ram.slice counter (stop - counter) = part ++ later)
    (whole : IsInstruction part) :
    ∃ first, Instruction.length first = part.length ∧ counter < stop ∧
      counter + part.length ≤ stop ∧ ram.readByte (UInt64.ofNat counter) = .ok first ∧
      ram.fetchInto (UInt64.ofNat counter) part.length .empty = (.ok (), ⟨part⟩) ∧
      ram.slice (counter + part.length) (stop - (counter + part.length)) = later := by
  have extent : (ram.slice counter (stop - counter)).length = stop - counter :=
    length_slice ram (by omega)
  rw [cut, List.length_append] at extent
  obtain ⟨front, back⟩ := slice_of_append cut
  have fetched : ram.fetchInto (UInt64.ofNat counter) part.length .empty = (.ok (), ⟨part⟩) := by
    rw [fetchInto_eq, toNat_ofNat_of_le (Nat.le_trans reached inside), if_pos (by omega), front]
    rfl
  rw [Nat.sub_sub] at back
  cases part with
  | nil => exact absurd rfl whole.ne_nil
  | cons first following =>
    have exactly : (first :: following).length = Instruction.length first :=
      isInstruction_iff.mp whole
    have positive := length_pos first
    exact ⟨first, exactly.symm, by omega, by omega, readByte_of_slice cut, fetched, back⟩

/-- A walk takes the instructions of the block, one by one. -/
theorem walk_segments (inside : stop ≤ size.toNat) (reached : counter ≤ stop) {bytes : List UInt8}
    (cut : ram.slice counter (stop - counter) = bytes) :
    walk ram stop counter .empty =
      .ok ⟨(segments bytes).1.map fun part => ⟨.ok (event part), .empty, (event part).records⟩,
        .empty, counter + (segments bytes).1.flatten.length⟩ := by
  induction bytes using instruction_induction generalizing counter with
  | tail tail incomplete =>
    rw [segments_tail incomplete]
    rcases tail_ahead inside reached cut incomplete with ended | ⟨first, within, seen, short⟩
    · exact walk_reached ended
    · exact walk_short within seen short
  | instruction part later whole ih =>
    obtain ⟨first, exactly, within, fits, seen, fetched, back⟩ :=
      instruction_ahead inside reached cut whole
    rw [← exactly] at fits fetched
    rw [walk_step within seen fits fetched, decodeEvent_alone whole, exactly,
      ih (exactly ▸ fits) back, segments_instruction whole]
    simp [Functor.map, Except.map, Nat.add_assoc]

/-- A walk by actions takes them as well, and leaves the session as it was. -/
theorem session_walk_segments {session : Session size.toNat} (inside : stop ≤ size.toNat)
    (reached : counter ≤ stop) {bytes : List UInt8} (waiting : session.queue = .empty)
    (cut : session.ram.slice counter (stop - counter) = bytes) :
    session.walk stop counter =
      (session, (segments bytes).1.map fun part =>
          ⟨.ok (.ok (.event (event part))), (event part).records⟩,
        counter + (segments bytes).1.flatten.length) := by
  induction bytes using instruction_induction generalizing counter with
  | tail tail incomplete =>
    rw [segments_tail incomplete]
    rcases tail_ahead inside reached cut incomplete with ended | ⟨first, within, seen, short⟩
    · exact Session.walk_reached ended
    · exact Session.walk_short within seen short
  | instruction part later whole ih =>
    obtain ⟨first, exactly, within, fits, seen, fetched, back⟩ :=
      instruction_ahead inside reached cut whole
    rw [← waiting, ← exactly] at fetched
    rw [← exactly] at fits
    have unchanged : { session with queue := (decodeEvent ⟨part⟩).rest } = session := by
      rw [decodeEvent_alone whole, ← waiting]
    rw [Session.walk_step within seen fits, Session.fetchAndDecode_eq fetched, unchanged, exactly,
      segments_instruction whole, decodeEvent_alone whole]
    simp [ih (exactly ▸ fits) back, Nat.add_assoc, Report.ofDecoding, Functor.map, Except.map]

/-- The part of a block behind its instructions is found in memory where the
instructions end. -/
theorem readBytes_behind {start length : Nat} {front back : List UInt8}
    (inside : start + length ≤ size.toNat) (cut : ram.slice start length = front ++ back) :
    ram.readBytes (UInt64.ofNat (start + front.length)) (length - front.length) = .ok back := by
  have extent := length_slice ram inside
  rw [cut, List.length_append] at extent
  have address : (UInt64.ofNat (start + front.length)).toNat = start + front.length :=
    toNat_ofNat_of_le (Nat.le_trans (by omega) inside)
  rw [readBytes_eq, address, if_pos (by omega), (slice_of_append cut).2]

end

/-- **Walking agrees with fetching the block at once.** For any memory and any
block within it, both fetch and walk succeed. Every decoding of the walk gives
an event and leaves the queue empty. If the block is decoded to its end, the
walk ends there with the same events. Otherwise it ends before a counter from
which the block holds just the bytes that decoding left, and its events are
those that decoding took before it failed, with the same records. A session that
walks and one that fetches the block leave the memory as it was. -/
theorem walk_agrees_with_block {size : UInt64} (ram : Ram size.toNat) (address : UInt64)
    (count : Nat) (inside : address.toNat + count ≤ size.toNat) :
    ∃ block walked events,
      ram.fetchInto address count .empty = (.ok (), block) ∧
      walk ram (address.toNat + count) address.toNat .empty = .ok walked ∧
      walked.decodings = (events.map fun event => ⟨.ok event, .empty, event.records⟩) ∧
      walked.queue = .empty ∧
      (∀ decoded, (decodeUntilEmpty block).result = .ok decoded →
        walked.counter = address.toNat + count ∧ decoded = events) ∧
      (∀ underflow, (decodeUntilEmpty block).result = .error underflow →
        walked.counter < address.toNat + count ∧
        ram.readBytes (UInt64.ofNat walked.counter) (address.toNat + count - walked.counter) =
          .ok (decodeUntilEmpty block).rest.bytes ∧
        decodeCount events.length block =
          ⟨.ok events, (decodeUntilEmpty block).rest, (decodeUntilEmpty block).log⟩) ∧
      ∀ session : Session size.toNat, session.ram = ram → session.queue = .empty →
        session.walk (address.toNat + count) address.toNat =
          (session, events.map fun event => ⟨.ok (.ok (.event event)), event.records⟩,
            walked.counter) ∧
        ((session.perform (.ram (.fetchInto address count))).1.perform
          (.queue .decodeUntilEmpty)).1.ram = ram := by
  have reached : address.toNat ≤ address.toNat + count := Nat.le_add_right _ _
  have whole : address.toNat + count - address.toNat = count := Nat.add_sub_cancel_left _ _
  have fetched : ram.fetchInto address count .empty =
      (.ok (), ⟨ram.slice address.toNat count⟩) := by
    rw [fetchInto_eq, if_pos inside]
    rfl
  have extent := length_slice ram inside
  have divided := segmentation_segments (ram.slice address.toNat count)
  have untilEmpty := decodeUntilEmpty_segments (ram.slice address.toNat count)
  have walked := walk_segments inside reached (congrArg (ram.slice address.toNat) whole)
  refine ⟨_, _, (segments (ram.slice address.toNat count)).1.map event, fetched, walked,
    by rw [List.map_map]; rfl, rfl, ?_, ?_, ?_⟩
  · intro decoded accepted
    obtain ⟨ended, same⟩ := segments_of_ok accepted
    have joined := divided.joined
    rw [ended, List.append_nil] at joined
    exact ⟨by rw [joined, extent], same⟩
  · intro underflow refused
    have behind := readBytes_behind inside divided.joined.symm
    have all := decodeCount_within divided (Nat.le_refl _)
    have remaining := List.length_pos_iff.mpr (segments_of_error refused)
    have joined := congrArg List.length divided.joined
    rw [List.length_append, extent] at joined
    rw [untilEmpty]
    refine ⟨?_, ?_, ?_⟩
    · simp only
      omega
    · simpa only [Nat.add_sub_add_left] using behind
    · simpa only [List.length_map, List.take_length, List.drop_length, List.flatten_nil,
        List.nil_append] using all
  · intro session sameRam waiting
    subst sameRam
    constructor
    · rw [session_walk_segments inside reached waiting
        (congrArg (session.ram.slice address.toNat) whole), List.map_map]
      rfl
    · simp only [Session.perform, Session.performOnRam, Session.fill, waiting,
        Session.performOnQueue, Session.decode]

/-- Two instructions behind an unused byte, and a third of three bytes. -/
def threeInstructions : Ram (UInt64.toNat 6) := ⟨#v[0x00, 0x2A, 0x47, 0x21, 0x00, 0xC0]⟩

/-- If the block ends within the third instruction, the walk stops before it. -/
theorem walk_before_truncated :
    UInt64.toNat 1 + 4 ≤ UInt64.toNat 6 ∧
      ∃ walked, walk threeInstructions 5 1 .empty = .ok walked ∧
        (decodeUntilEmpty ⟨[0x2A, 0x47, 0x21, 0x00]⟩).result = .error ⟨3, 2⟩ ∧
        walked.counter < 5 ∧
        threeInstructions.readBytes (UInt64.ofNat walked.counter) (5 - walked.counter) =
          .ok [0x21, 0x00] := by
  have divided : Segmentation [0x2A, 0x47, 0x21, 0x00] [[0x2A], [0x47]] [0x21, 0x00] :=
    ⟨rfl, by simp only [isInstruction_iff]; decide, isTail_iff.mpr (by decide)⟩
  have untilEmpty := decodeUntilEmpty_segments [0x2A, 0x47, 0x21, 0x00]
  rw [segmentation_unique divided] at untilEmpty
  have refused : (decodeUntilEmpty ⟨[0x2A, 0x47, 0x21, 0x00]⟩).result = .error ⟨3, 2⟩ :=
    congrArg Decoding.result untilEmpty
  have left : (decodeUntilEmpty ⟨[0x2A, 0x47, 0x21, 0x00]⟩).rest.bytes = [0x21, 0x00] :=
    congrArg (fun decoding => decoding.rest.bytes) untilEmpty
  obtain ⟨block, walked, events, fetched, ran, -, -, -, stopped, -⟩ :=
    walk_agrees_with_block threeInstructions 1 4 (by decide)
  cases fetched
  obtain ⟨before, behind, -⟩ := stopped ⟨3, 2⟩ refused
  exact ⟨by decide, walked, ran, refused, before, behind.trans (congrArg Except.ok left)⟩

end Lr35902.Walking
