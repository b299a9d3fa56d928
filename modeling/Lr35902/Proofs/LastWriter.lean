import Mathlib.Data.List.Induction
import Lr35902.Ram.Bounds
import Lr35902.Ram.History
import Lr35902.Session.Account
import Lr35902.Session.Frame

/-! A memory remembers, cell by cell, the last write that reached it. A write
that does not fit reaches no cell, and one that fits changes the cells it covers
and no others; so a run of writes is settled for each cell by the last write
that fits and covers it. Reading gives back exactly these bytes. -/
namespace Lr35902.LastWriter
open Ram

/-- Consecutive bytes go into the cells they cover. -/
theorem getElem_overwrite {size : Nat} (ram : Ram size) (start : Nat) (bytes : List UInt8)
    {cell : Nat} (inside : cell < size) :
    (ram.overwrite start bytes).cells[cell] =
      (if start ≤ cell then bytes[cell - start]? else none).getD ram.cells[cell] := by
  induction bytes generalizing ram start with
  | nil => simp [overwrite]
  | cons byte rest ih =>
    rw [overwrite, ih]
    rcases Nat.lt_trichotomy start cell with before | same | after
    · have offset : cell - start = cell - (start + 1) + 1 := by omega
      have untouched : start ≠ cell := Nat.ne_of_lt before
      simp [offset, untouched, Nat.succ_le_of_lt before, Nat.le_of_lt before]
    · subst same
      rw [if_neg (Nat.not_succ_le_self start)]
      simp
    · simp [Nat.not_le.mpr after, Nat.not_le.mpr (Nat.lt_succ_of_lt after), Nat.ne_of_gt after]

section
variable {size : UInt64} {write : Write} {cell : Nat}

/-- A write that fits goes into the cells it covers, whichever kind it is. -/
theorem attempt_of_fits (ram : Ram size.toNat) (fits : write.Fits size.toNat) :
    write.attempt ram = (.ok (), ram.overwrite write.address write.values) := by
  cases write with
  | byte address value =>
    have inside : address.toNat < size.toNat := fits
    rw [Write.attempt, writeByte_eq, if_pos inside]
    rfl
  | bytes address values =>
    have inside : address.toNat + values.length ≤ size.toNat := fits
    rw [Write.attempt, writeBytes_eq, if_pos inside]
    rfl
  | word address value =>
    have inside : address.toNat + 2 ≤ size.toNat := fits
    have halves : (Write.word address value).values = LittleEndian.wordBytes value := by
      rw [Write.values, UInt8.ofNat_mod_size]
      rfl
    rw [Write.attempt, writeWord, writeBytes_eq, LittleEndian.wordBytes,
      LittleEndian.length_toBytes, if_pos inside, halves]
    rfl

/-- How a write fails that does not fit. -/
def writeFault (size : Nat) : Write → Fault
  | .byte address _ => .outsideByte .write address.toNat size
  | .bytes address values => rangeFault size .write address.toNat values.length
  | .word address _ => rangeFault size .write address.toNat 2

theorem attempt_of_not_fits (ram : Ram size.toNat) (outside : ¬ write.Fits size.toNat) :
    write.attempt ram = (.error (writeFault size.toNat write), ram) := by
  cases write with
  | byte address value =>
    rw [Write.attempt, writeByte_eq]
    exact if_neg outside
  | bytes address values =>
    rw [Write.attempt, writeBytes_eq]
    exact if_neg outside
  | word address value =>
    rw [Write.attempt, writeWord, writeBytes_eq, LittleEndian.wordBytes,
      LittleEndian.length_toBytes]
    exact if_neg outside

theorem apply_of_fits (ram : Ram size.toNat) (fits : write.Fits size.toNat) :
    write.apply ram = ram.overwrite write.address write.values := by
  rw [Write.apply, attempt_of_fits ram fits]

theorem apply_of_not_fits (ram : Ram size.toNat) (outside : ¬ write.Fits size.toNat) :
    write.apply ram = ram := by
  rw [Write.apply, attempt_of_not_fits ram outside]

/-- One write settles the cells it covers if it fits, and leaves the others. -/
theorem getElem_apply (ram : Ram size.toNat) (inside : cell < size.toNat) :
    (write.apply ram).cells[cell] =
      (if write.Fits size.toNat then write.valueAt? cell else none).getD ram.cells[cell] := by
  by_cases fits : write.Fits size.toNat
  · rw [apply_of_fits ram fits, if_pos fits, Write.valueAt?]
    exact getElem_overwrite ram write.address write.values inside
  · rw [apply_of_not_fits ram fits, if_neg fits, Option.getD_none]

/-- A write is a fault if and only if it reaches beyond the last cell. -/
theorem attempt_fault_iff (ram : Ram size.toNat) (write : Write) :
    (∃ fault, (write.attempt ram).1 = .error fault) ↔
      size.toNat < write.address + write.values.length := by
  by_cases fits : write.Fits size.toNat
  · rw [attempt_of_fits ram fits]
    constructor
    · rintro ⟨fault, failed⟩
      cases failed
    · intro beyond
      exact absurd fits (Nat.not_le.mpr beyond)
  · rw [attempt_of_not_fits ram fits]
    constructor
    · intro _
      exact Nat.lt_of_not_le fits
    · intro _
      exact ⟨_, rfl⟩

theorem allOrNothing_attempt {size : Nat} (write : Write) :
    (write.attempt : Change (Ram size) Unit).AllOrNothing := by
  cases write with
  | byte address value => exact allOrNothing_writeByte address value
  | bytes address values => exact allOrNothing_writeBytes address values
  | word address value => exact allOrNothing_writeWord address value

theorem getElem_apply_outside (ram : Ram size.toNat) (inside : cell < size.toNat)
    (uncovered : cell < write.address ∨ write.address + write.values.length ≤ cell) :
    (write.apply ram).cells[cell] = ram.cells[cell] := by
  have unsettled : write.valueAt? cell = none := by
    rw [Write.valueAt?]
    split
    · exact List.getElem?_eq_none (by omega)
    · rfl
  rw [getElem_apply ram inside, unsettled, ite_self, Option.getD_none]

theorem getElem_apply_within (ram : Ram size.toNat) (fits : write.Fits size.toNat)
    {offset : Nat} (within : offset < write.values.length)
    (inside : write.address + offset < size.toNat) :
    (write.apply ram).cells[write.address + offset] = write.values[offset] := by
  have settled : write.valueAt? (write.address + offset) = some write.values[offset] := by
    rw [Write.valueAt?, if_pos (Nat.le_add_right _ _), Nat.add_sub_cancel_left,
      List.getElem?_eq_getElem within]
  rw [getElem_apply ram inside, if_pos fits, settled, Option.getD_some]

end

/-- The last write comes first in the search for the byte in a cell. -/
theorem lastWritten_concat (size : Nat) (writes : List Write) (write : Write) (cell : Nat) :
    lastWritten size (writes ++ [write]) cell =
      (if write.Fits size then write.valueAt? cell else none).getD
        (lastWritten size writes cell) := by
  by_cases fits : write.Fits size
  · cases covered : write.valueAt? cell with
    | none => simp [lastWritten, fits, covered]
    | some byte => simp [lastWritten, fits, covered]
  · simp [lastWritten, fits]

/-- Zeroed memory after a run of writes. -/
def written (size : Nat) (writes : List Write) : Ram size :=
  writes.foldl Write.apply (zeroed size)

/-- After a run of writes every cell holds what the last write put there. -/
theorem getElem_written (size : UInt64) (writes : List Write) {cell : Nat}
    (inside : cell < size.toNat) :
    (written size.toNat writes).cells[cell] = lastWritten size.toNat writes cell := by
  induction writes using List.reverseRecOn with
  | nil => simp [written, zeroed, lastWritten]
  | append_singleton writes write ih =>
    have stepped : written size.toNat (writes ++ [write]) =
        write.apply (written size.toNat writes) := by
      simp [written]
    simp only [stepped, getElem_apply _ inside, ih, lastWritten_concat]

theorem slice_written (size : UInt64) (writes : List Write) {start length : Nat}
    (within : start + length ≤ size.toNat) :
    (written size.toNat writes).slice start length =
      (List.range length).map fun offset => lastWritten size.toNat writes (start + offset) := by
  apply List.ext_getElem
  · simp [length_slice _ within]
  · intro offset left right
    have bound : offset < length := by simpa using right
    rw [getElem_slice _ left (by omega), getElem_written size writes]
    simp

section
variable (size : UInt64) (writes : List Write) (address : UInt64)

theorem readByte_written :
    (written size.toNat writes).readByte address =
      if address.toNat < size.toNat then .ok (lastWritten size.toNat writes address.toNat)
      else .error (.outsideByte .read address.toNat size.toNat) := by
  rw [readByte]
  split
  · next inside => rw [getElem_written size writes inside]
  · rfl

theorem readBytes_written (length : Nat) :
    (written size.toNat writes).readBytes address length =
      if address.toNat + length ≤ size.toNat then
        .ok ((List.range length).map fun offset =>
          lastWritten size.toNat writes (address.toNat + offset))
      else .error (rangeFault size.toNat .read address.toNat length) := by
  rw [readBytes_eq]
  split
  · next within => rw [slice_written size writes within]
  · rfl

theorem readWord_written :
    (written size.toNat writes).readWord address =
      if address.toNat + 2 ≤ size.toNat then
        .ok (UInt16.ofNat ((lastWritten size.toNat writes address.toNat).toNat +
          256 * (lastWritten size.toNat writes (address.toNat + 1)).toNat))
      else .error (rangeFault size.toNat .read address.toNat 2) := by
  rw [readWord_eq]
  split
  · next within =>
    rw [slice_written size writes within]
    rfl
  · rfl

end

/-- The action of a session that carries out a write. -/
def actionOf : Write → Action
  | .byte address value => .ram (.writeByte address value)
  | .bytes address values => .ram (.writeBytes address values)
  | .word address value => .ram (.writeWord address value)

theorem perform_actionOf {size : Nat} (session : Session size) (write : Write) :
    (session.perform (actionOf write)).1 = { session with ram := write.apply session.ram } := by
  cases write <;> rfl

/-- A session that carries out a run of writes changes nothing but its memory. -/
theorem account_actionOf {size : Nat} (session : Session size) (writes : List Write) :
    (session.account (writes.map actionOf)).2.2 =
      { session with ram := writes.foldl Write.apply session.ram } := by
  induction writes generalizing session with
  | nil => rfl
  | cons write writes ih =>
    simp only [List.map_cons, Session.account, perform_actionOf, ih, List.foldl_cons]

/-- **A memory holds what was written to it last.** Let a session with zeroed
memory carry out any run of writes, those that are faults included. Then each
cell holds the byte of the last write that fits into the memory and covers the
cell, and zero if there is none, and reading bytes, ranges and words gives just
these cells. A read or write is a fault if and only if its range, with addresses
as unbounded numbers, reaches beyond the last cell. On the way, a write that is
a fault changes nothing, and any other puts its bytes into the cells of its
range and leaves the rest. -/
theorem memory_holds_lastWritten (size : UInt64) (writes : List Write) :
    (∀ queue, ((Session.start size.toNat queue).account (writes.map actionOf)).2.2 =
      { Session.start size.toNat queue with ram := written size.toNat writes }) ∧
    (written size.toNat writes).cells.toList.length = size.toNat ∧
    (∀ cell (inside : cell < size.toNat),
      (written size.toNat writes).cells[cell] = lastWritten size.toNat writes cell) ∧
    (∀ address, (written size.toNat writes).readByte address =
      if address.toNat < size.toNat then .ok (lastWritten size.toNat writes address.toNat)
      else .error (.outsideByte .read address.toNat size.toNat)) ∧
    (∀ address length, (written size.toNat writes).readBytes address length =
      if address.toNat + length ≤ size.toNat then
        .ok ((List.range length).map fun offset =>
          lastWritten size.toNat writes (address.toNat + offset))
      else .error (rangeFault size.toNat .read address.toNat length)) ∧
    (∀ address, (written size.toNat writes).readWord address =
      if address.toNat + 2 ≤ size.toNat then
        .ok (UInt16.ofNat ((lastWritten size.toNat writes address.toNat).toNat +
          256 * (lastWritten size.toNat writes (address.toNat + 1)).toNat))
      else .error (rangeFault size.toNat .read address.toNat 2)) ∧
    ∀ (ram : Ram size.toNat) (write : Write),
      ((∃ fault, (write.attempt ram).1 = .error fault) ↔
        size.toNat < write.address + write.values.length) ∧
      (∀ fault, (write.attempt ram).1 = .error fault → write.apply ram = ram) ∧
      (∀ cell (inside : cell < size.toNat),
        cell < write.address ∨ write.address + write.values.length ≤ cell →
          (write.apply ram).cells[cell] = ram.cells[cell]) ∧
      (write.address + write.values.length ≤ size.toNat →
        ∀ offset (within : offset < write.values.length)
          (inside : write.address + offset < size.toNat),
          (write.apply ram).cells[write.address + offset] = write.values[offset]) := by
  refine ⟨?_, Vector.length_toList, ?_, readByte_written size writes,
    readBytes_written size writes, readWord_written size writes, ?_⟩
  · intro queue
    exact account_actionOf (Session.start size.toNat queue) writes
  · intro cell inside
    exact getElem_written size writes inside
  · intro ram write
    refine ⟨attempt_fault_iff ram write, allOrNothing_attempt write ram, ?_, ?_⟩
    · intro cell inside uncovered
      exact getElem_apply_outside ram inside uncovered
    · intro fits offset within inside
      exact getElem_apply_within ram fits within inside

end Lr35902.LastWriter
