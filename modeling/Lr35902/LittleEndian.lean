/-! The machine's one byte order: the low byte comes first. Words in the
instruction stream, in memory and in the binary form of an event are all read
and written through the functions here. -/
namespace Lr35902.LittleEndian

/-- The lowest `count` bytes of a number, low byte first. -/
def toBytes : Nat → Nat → List UInt8
  | 0, _ => []
  | count + 1, number => UInt8.ofNat number :: toBytes count (number / 256)

/-- The number whose bytes these are, low byte first. -/
def ofBytes : List UInt8 → Nat
  | [] => 0
  | low :: rest => low.toNat + 256 * ofBytes rest

/-- The least number that does not fit into so many bytes. -/
def limit : Nat → Nat
  | 0 => 1
  | count + 1 => 256 * limit count

/-- The 16-bit word made of two bytes, low byte first. -/
def toWord (bytes : List UInt8) : UInt16 := UInt16.ofNat (ofBytes bytes)

/-- The 16-bit word of two bytes that come one after the other, low byte first. -/
def assemble (low high : UInt8) : UInt16 := low.toUInt16 ||| (high.toUInt16 <<< 8)

/-- The two bytes of a 16-bit word, low byte first. -/
def wordBytes (value : UInt16) : List UInt8 := toBytes 2 value.toNat

@[simp] theorem length_toBytes (count number : Nat) : (toBytes count number).length = count := by
  induction count generalizing number with
  | zero => rfl
  | succ count ih => simp [toBytes, ih]

theorem ofBytes_lt (bytes : List UInt8) : ofBytes bytes < limit bytes.length := by
  induction bytes with
  | nil => decide
  | cons low rest ih =>
    have lowBound := low.toNat_lt
    simp only [ofBytes, List.length_cons, limit]
    omega

theorem ofBytes_toBytes {count number : Nat} (fits : number < limit count) :
    ofBytes (toBytes count number) = number := by
  induction count generalizing number with
  | zero =>
    simp only [limit] at fits
    simp only [toBytes, ofBytes]
    omega
  | succ count ih =>
    have high : number / 256 < limit count := by
      simp only [limit] at fits
      omega
    simp only [toBytes, ofBytes, ih high, UInt8.toNat_ofNat']
    omega

theorem toBytes_ofBytes (bytes : List UInt8) : toBytes bytes.length (ofBytes bytes) = bytes := by
  induction bytes with
  | nil => rfl
  | cons low rest ih =>
    have lowBound := low.toNat_lt
    have lowByte : UInt8.ofNat (low.toNat + 256 * ofBytes rest) = low := by
      apply UInt8.toNat_inj.mp
      simp only [UInt8.toNat_ofNat']
      omega
    have highPart : (low.toNat + 256 * ofBytes rest) / 256 = ofBytes rest := by omega
    simp only [List.length_cons, ofBytes, toBytes, lowByte, highPart, ih]

theorem toNat_toWord (low high : UInt8) :
    (toWord [low, high]).toNat = low.toNat + 256 * high.toNat := by
  have lowBound := low.toNat_lt
  have highBound := high.toNat_lt
  simp only [toWord, ofBytes, UInt16.toNat_ofNat']
  omega

/-- The two bytes have no bit in common once the high one is shifted. -/
theorem assemble_eq_toWord (low high : UInt8) : assemble low high = toWord [low, high] := by
  have highBound := high.toNat_lt
  have shifted : (high.toUInt16 <<< 8).toNat = high.toNat <<< 8 := by
    rw [UInt16.toNat_shiftLeft, UInt8.toNat_toUInt16]
    change high.toNat <<< 8 % 2 ^ 16 = _
    rw [Nat.shiftLeft_eq]
    omega
  have apart := Nat.shiftLeft_add_eq_or_of_lt low.toNat_lt high.toNat
  apply UInt16.toNat_inj.mp
  rw [toNat_toWord, assemble, UInt16.toNat_or, shifted, UInt8.toNat_toUInt16, Nat.or_comm, ← apart,
    Nat.shiftLeft_eq]
  omega

theorem wordBytes_toWord (low high : UInt8) : wordBytes (toWord [low, high]) = [low, high] := by
  rw [wordBytes, toNat_toWord]
  exact toBytes_ofBytes [low, high]

theorem toWord_wordBytes (value : UInt16) : toWord (wordBytes value) = value := by
  rw [toWord, wordBytes, ofBytes_toBytes value.toNat_lt, UInt16.ofNat_toNat]

end Lr35902.LittleEndian
