import Lr35902.Ram

/-! A range of addresses lies within a memory or it does not, with addresses
taken as unbounded numbers. Checking the range decides just that, so every
access is a function of one comparison and of the bytes in the range. -/
namespace Lr35902.Ram

variable {size address : UInt64} {length : Nat}

/-- The bytes of consecutive cells, as far as there are cells. -/
def slice {size : Nat} (ram : Ram size) (start length : Nat) : List UInt8 :=
  (ram.cells.toList.drop start).take length

section
variable {size start length : Nat}

theorem length_slice (ram : Ram size) (within : start + length ≤ size) :
    (ram.slice start length).length = length := by
  simp only [slice, List.length_take, List.length_drop, Vector.length_toList]
  omega

theorem getElem_slice (ram : Ram size) {offset : Nat}
    (within : offset < (ram.slice start length).length) (inside : start + offset < size) :
    (ram.slice start length)[offset] = ram.cells[start + offset] := by
  simp [slice]

/-- A slice begins with the byte at its start. -/
theorem slice_succ (ram : Ram size) (inside : start < size) :
    ram.slice start (length + 1) = ram.cells[start] :: ram.slice (start + 1) length := by
  have within : start < ram.cells.toList.length := by rwa [Vector.length_toList]
  rw [slice, List.drop_eq_getElem_cons within, List.take_succ_cons]
  rfl

/-- A slice that is cut in two is two slices one after the other. -/
theorem slice_of_append {ram : Ram size} {front back : List UInt8}
    (cut : ram.slice start length = front ++ back) :
    ram.slice start front.length = front ∧
      ram.slice (start + front.length) (length - front.length) = back := by
  have short : front.length ≤ length := by
    have whole := congrArg List.length cut
    simp only [slice, List.length_take, List.length_append] at whole
    omega
  constructor
  · have taken := congrArg (List.take front.length) cut
    rwa [slice, List.take_take, Nat.min_eq_left short, List.take_left] at taken
  · have dropped := congrArg (List.drop front.length) cut
    rwa [slice, List.drop_take, List.drop_drop, List.drop_left] at dropped

end

/-- How an access fails whose range leaves the memory: its end is no machine
word, or it lies beyond the last cell. -/
def rangeFault (size : Nat) (access : Access) (address length : Nat) : Fault :=
  if UInt64.size ≤ address + length then .additionOverflow
  else .outsideRange access length address size

theorem checkRange_eq (access : Access) :
    checkRange size.toNat access address length =
      if address.toNat + length ≤ size.toNat then .ok ()
      else .error (rangeFault size.toNat access address.toNat length) := by
  have machineWord := size.toNat_lt_size
  unfold checkRange rangeFault
  by_cases inside : address.toNat + length ≤ size.toNat
  · rw [if_neg (by omega), if_neg (by omega), if_pos inside]
  · rw [if_neg inside, if_pos (Nat.lt_of_not_le inside)]
    split <;> rfl

/-- The first byte of a slice is the byte at its start. -/
theorem readByte_of_slice {ram : Ram size.toNat} {start : Nat} {first : UInt8} {rest : List UInt8}
    (cut : ram.slice start length = first :: rest) :
    ram.readByte (UInt64.ofNat start) = .ok first := by
  have inside : start < size.toNat := by
    have whole := congrArg List.length cut
    simp only [slice, List.length_take, List.length_drop, Vector.length_toList,
      List.length_cons] at whole
    omega
  have front : length ≠ 0 ∧ ram.cells[start] = first := by
    have head := congrArg List.head? cut
    simpa [slice, inside, List.head?_take] using head
  have machineWord : (UInt64.ofNat start).toNat = start :=
    UInt64.toNat_ofNat_of_lt' (Nat.lt_trans inside size.toNat_lt_size)
  simp only [readByte, machineWord, inside, front.2, ↓reduceDIte]

theorem readBytes_eq (ram : Ram size.toNat) :
    ram.readBytes address length =
      if address.toNat + length ≤ size.toNat then .ok (ram.slice address.toNat length)
      else .error (rangeFault size.toNat .read address.toNat length) := by
  rw [readBytes, checkRange_eq]
  split <;> rfl

/-- To write a byte is to overwrite one cell. -/
theorem writeByte_eq {size : Nat} (ram : Ram size) (byte : UInt8) :
    writeByte address byte ram =
      if address.toNat < size then (.ok (), ram.overwrite address.toNat [byte])
      else (.error (.outsideByte .write address.toNat size), ram) := by
  unfold writeByte
  split
  · next inside =>
    have single : ⟨ram.cells.set address.toNat byte inside⟩ =
        ram.overwrite address.toNat [byte] := by
      simp [overwrite, Vector.set, Vector.setIfInBounds, Array.setIfInBounds, inside]
    exact congrArg (Prod.mk (Except.ok ())) single
  · rfl

theorem writeBytes_eq (ram : Ram size.toNat) (bytes : List UInt8) :
    writeBytes address bytes ram =
      if address.toNat + bytes.length ≤ size.toNat then
        (.ok (), ram.overwrite address.toNat bytes)
      else (.error (rangeFault size.toNat .write address.toNat bytes.length), ram) := by
  rw [writeBytes, checkRange_eq]
  split <;> rfl

theorem readWord_eq (ram : Ram size.toNat) :
    ram.readWord address =
      if address.toNat + 2 ≤ size.toNat then .ok (LittleEndian.toWord (ram.slice address.toNat 2))
      else .error (rangeFault size.toNat .read address.toNat 2) := by
  rw [readWord, readBytes_eq]
  split <;> rfl

theorem fetchInto_eq (ram : Ram size.toNat) (queue : ByteQueue) :
    ram.fetchInto address length queue =
      if address.toNat + length ≤ size.toNat then
        (.ok (), queue.append (ram.slice address.toNat length))
      else (.error (rangeFault size.toNat .read address.toNat length), queue) := by
  rw [fetchInto, readBytes_eq]
  split <;> rfl

end Lr35902.Ram
