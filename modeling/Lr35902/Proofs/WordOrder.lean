import Lr35902.Proofs.LastWriter
import Lr35902.Proofs.Segments

/-! Words keep their value from end to end. A word that is written behind an opcode
is the word that the memory reads there, the word that the queue gives after the
opcode is taken, and the word that decoding puts into the event, although memory,
queue and decoder each put the two bytes together for themselves. -/
namespace Lr35902.WordOrder
open Instruction Ram LastWriter

variable {size address : UInt64} {opcode : UInt8} {word : UInt16}

/-- Every instruction of three bytes hands its word on to its event. -/
theorem word_event (low high : UInt8) : ∀ opcode ∈ wordOpcodes,
    (event [opcode, low, high]).word? = some (LittleEndian.toWord [low, high]) :=
  List.map_eq_replicate_iff.mp rfl

/-- The three bytes at an address, once they are fetched, come out of the queue as
an opcode and a word, and decoding makes an event with that word of them. -/
def Delivers {size : Nat} (ram : Ram size) (address : UInt64) (opcode : UInt8) (word : UInt16) :
    Prop :=
  ∃ queue, ram.fetchInto address 3 .empty = (.ok (), queue) ∧
    (∃ rest, ByteQueue.get queue = (.ok opcode, rest) ∧
      ByteQueue.getWord rest = (.ok word, .empty)) ∧
    ∃ event, decodeEvent queue = ⟨.ok event, .empty, event.records⟩ ∧ event.word? = some word

/-- Room for three bytes is room for the word behind the first. -/
theorem toNat_succ (room : address.toNat + 3 ≤ size.toNat) :
    (address + 1).toNat = address.toNat + 1 := by
  have machineWord := size.toNat_lt
  rw [UInt64.toNat_add]
  change (address.toNat + 1) % 2 ^ 64 = address.toNat + 1
  omega

/-- Whatever the memory holds, the word behind a wide opcode is the one that is
read there. -/
theorem delivers_of_readByte {ram : Ram size.toNat} (wide : Instruction.length opcode = 3)
    (room : address.toNat + 3 ≤ size.toNat) (held : ram.readByte address = .ok opcode) :
    ∃ word, ram.readWord (address + 1) = .ok word ∧ Delivers ram address opcode word := by
  have inside : address.toNat < size.toNat := by omega
  obtain ⟨low, high, behind⟩ : ∃ low high, ram.slice (address.toNat + 1) 2 = [low, high] := by
    rw [slice_succ ram (by omega), slice_succ ram (by omega)]
    exact ⟨_, _, rfl⟩
  have front : ram.cells[address.toNat] = opcode := by
    rw [readByte, dif_pos inside] at held
    exact Except.ok.inj held
  have cut : ram.slice address.toNat 3 = [opcode, low, high] := by
    rw [slice_succ ram inside, front, behind]
  have whole : IsInstruction [opcode, low, high] := isInstruction_iff.mpr wide.symm
  refine ⟨LittleEndian.toWord [low, high], ?_, ⟨[opcode, low, high]⟩, ?_, ?_, ?_⟩
  · rw [readWord_eq, toNat_succ room, if_pos (by omega), behind]
  · rw [fetchInto_eq, if_pos room, cut]
    rfl
  · exact ⟨⟨[low, high]⟩, rfl, ByteQueue.getWord_two low high []⟩
  · exact ⟨_, Segments.decodeEvent_alone whole,
      word_event low high opcode (length_eq_three_iff.mp wide)⟩

/-- What was written to a range of cells is what is in them. -/
theorem slice_overwrite {size start : Nat} (ram : Ram size) {bytes : List UInt8}
    (within : start + bytes.length ≤ size) :
    (ram.overwrite start bytes).slice start bytes.length = bytes := by
  apply List.ext_getElem
  · exact length_slice _ within
  · intro offset left right
    rw [getElem_slice _ left (by omega), getElem_overwrite, if_pos (Nat.le_add_right _ _),
      Nat.add_sub_cancel_left, List.getElem?_eq_getElem right, Option.getD_some]

/-- An opcode and a word that is written behind it lie in memory as three bytes. -/
theorem exists_written (ram : Ram size.toNat) (opcode : UInt8) (word : UInt16)
    (room : address.toNat + 3 ≤ size.toNat) :
    ∃ opened written, writeByte address opcode ram = (.ok (), opened) ∧
      writeWord (address + 1) word opened = (.ok (), written) ∧
      written.slice address.toNat 3 = opcode :: LittleEndian.wordBytes word := by
  refine ⟨ram.overwrite address.toNat [opcode],
    ram.overwrite address.toNat (opcode :: LittleEndian.wordBytes word), ?_, ?_, ?_⟩
  · have fits : (Write.byte address opcode).Fits size.toNat := by
      change address.toNat + 1 ≤ size.toNat
      omega
    exact attempt_of_fits ram fits
  · have inside : address.toNat + 1 + 2 ≤ size.toNat := room
    rw [writeWord, writeBytes_eq, toNat_succ room]
    exact if_pos inside
  · exact slice_overwrite ram room

/-- What is written is read as a word again. -/
theorem readWord_of_slice {ram : Ram size.toNat} (room : address.toNat + 3 ≤ size.toNat)
    (cut : ram.slice address.toNat 3 = opcode :: LittleEndian.wordBytes word) :
    ram.readWord (address + 1) = .ok word := by
  have parted : ram.slice address.toNat 3 = [opcode] ++ LittleEndian.wordBytes word := cut
  have behind : ram.slice (address.toNat + 1) 2 = LittleEndian.wordBytes word :=
    (slice_of_append parted).2
  rw [readWord_eq, toNat_succ room, if_pos (by omega), behind, LittleEndian.toWord_wordBytes]

/-- **A word keeps its value from end to end.** Let an opcode of a three-byte
instruction be written to memory and a word behind it. Both writes succeed, the word
is read there again, and the three bytes, once fetched, are read from the queue as
the opcode and the word and decoded to an event with that word, which takes all of
them. So whatever a memory holds behind such an opcode, the event has the word that
is read there. -/
theorem word_keeps_value (ram : Ram size.toNat) (wide : Instruction.length opcode = 3)
    (room : address.toNat + 3 ≤ size.toNat) :
    (∀ word, ∃ opened written, writeByte address opcode ram = (.ok (), opened) ∧
      writeWord (address + 1) word opened = (.ok (), written) ∧
      written.readWord (address + 1) = .ok word ∧ Delivers written address opcode word) ∧
    (ram.readByte address = .ok opcode →
      ∃ word, ram.readWord (address + 1) = .ok word ∧ Delivers ram address opcode word) := by
  constructor
  · intro word
    obtain ⟨opened, written, put, added, cut⟩ := exists_written ram opcode word room
    have read := readWord_of_slice room cut
    have held : written.readByte address = .ok opcode := by
      have seen := readByte_of_slice cut
      rwa [UInt64.ofNat_toNat] at seen
    obtain ⟨other, again, delivered⟩ := delivers_of_readByte wide room held
    rw [read] at again
    cases again
    exact ⟨opened, written, put, added, read, delivered⟩
  · intro held
    exact delivers_of_readByte wide room held

/-- A load of the accumulator from `FF10`, written into the last three cells. -/
theorem word_keeps_value_at_end :
    Instruction.length 0xFA = 3 ∧ (5 : UInt64).toNat + 3 ≤ (8 : UInt64).toNat ∧
      ∃ opened written, writeByte 5 0xFA (zeroed (8 : UInt64).toNat) = (.ok (), opened) ∧
        writeWord 6 0xFF10 opened = (.ok (), written) ∧ written.readWord 6 = .ok 0xFF10 ∧
        Delivers written 5 0xFA 0xFF10 := by
  have wide : Instruction.length 0xFA = 3 := by decide
  have room : (5 : UInt64).toNat + 3 ≤ (8 : UInt64).toNat := by decide
  exact ⟨wide, room, (word_keeps_value (Ram.zeroed (8 : UInt64).toNat) wide room).1 0xFF10⟩

end Lr35902.WordOrder
