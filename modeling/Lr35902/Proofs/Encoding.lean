import Lr35902.Event.Decodable
import Lr35902.Instruction.Encoding
import Lr35902.Proofs.Framing

/-! Instructions and decodable events determine each other, up to the choice
between two ways of writing. Encoding a decodable event gives one instruction
that means this event; and the event of an instruction is decodable, and encodes
to the long form of that instruction. Operands without a number are finitely
many and are gone through; a number that follows the opcode is kept symbolic. -/
namespace Lr35902.Encoding
open Instruction Octal LittleEndian

/-- A statement about all bytes can be decided. -/
instance decidableForallByte {p : UInt8 → Prop} [DecidablePred p] : Decidable (∀ byte, p byte) :=
  decidable_of_iff (∀ place < 256, p (UInt8.ofNat place))
    ⟨fun every byte => UInt8.ofNat_toNat (x := byte) ▸ every byte.toNat byte.toNat_lt,
      fun every place _ => every (UInt8.ofNat place)⟩

/-- The bytes are one instruction, and it means the event. -/
structure Means (bytes : List UInt8) (event : Event) : Prop where
  whole : IsInstruction bytes
  meaning : Instruction.event bytes = event

/-- The encoding of the event is an instruction that means the event. -/
abbrev Recovered (event : Event) : Prop := Means (encode event) event

/-- An opcode and the bytes that its recipe calls for mean what the recipe makes
of them. -/
theorem Means.of_recipe {opcode : UInt8} {given : Recipe} (found : recipe opcode = given)
    {following : List UInt8} (exactly : following.length = given.extraBytes) :
    Means (opcode :: following) (given.fill following) := by
  subst found
  have size := extraBytes_recipe opcode
  rw [← exactly] at size
  exact ⟨isInstruction_iff.mpr size, rfl⟩

section
variable {opcode : UInt8}

theorem Means.alone {event : Event} (found : recipe opcode = .alone event) :
    Means [opcode] event :=
  .of_recipe found rfl

theorem Means.withByte (event : UInt8 → Event) (found : recipe opcode = .withByte event)
    (byte : UInt8) : Means [opcode, byte] (event byte) :=
  .of_recipe found rfl

/-- A signed number is written as the byte with the same bits. -/
theorem Means.withOffset (event : Int8 → Event)
    (found : recipe opcode = .withByte fun byte => event byte.toInt8) (offset : Int8) :
    Means [opcode, offset.toUInt8] (event offset) :=
  .withByte (fun byte => event byte.toInt8) found offset.toUInt8

theorem Means.withWord (event : UInt16 → Event) (found : recipe opcode = .withWord event)
    (word : UInt16) : Means (opcode :: wordBytes word) (event word) := by
  have means : Means (opcode :: wordBytes word) (event (toWord (wordBytes word))) :=
    .of_recipe found rfl
  rwa [toWord_wordBytes] at means

end

theorem plain_cases {operand : Operand} (plain : operand.isPlain) :
    (∃ register, operand = .register register) ∨ operand = .indirect .hl := by
  cases operand with
  | register register => exact .inl ⟨register, rfl⟩
  | indirect pointer =>
    cases pointer with
    | hl => exact .inr rfl
    | _ => cases plain
  | _ => cases plain

theorem mem_columns {operand : Operand} (plain : operand.isPlain) : operand ∈ columns := by
  rcases plain_cases plain with ⟨register, rfl⟩ | rfl
  · cases register <;> decide
  · decide

theorem source_cases {operand : Operand} (source : operand.isSource) :
    operand.isPlain ∨ ∃ byte, operand = .immediate byte := by
  cases operand with
  | immediate byte => exact .inr ⟨byte, rfl⟩
  | _ => exact .inl source

theorem sourceOrCarried_cases {operand : Operand} (source : operand.isSourceOrCarried) :
    operand.isSource ∨ (∃ register, operand = .withCarry (.register register)) ∨
      operand = .withCarry (.indirect .hl) ∨ ∃ byte, operand = .withCarry (.immediate byte) := by
  cases operand with
  | withCarry carried =>
    cases carried with
    | register register => exact .inr (.inl ⟨register, rfl⟩)
    | indirect pointer =>
      obtain rfl : pointer = .hl := of_decide_eq_true source
      exact .inr (.inr (.inl rfl))
    | immediate byte => exact .inr (.inr (.inr ⟨byte, rfl⟩))
  | _ => exact .inl source

/-- The operations that combine the accumulator with an operand. -/
def combining : List (Operand → Event) := [.add, .sub, .and, .or, .xor, .compare]

/-- The ones among them that the carry can take part in. -/
def carrying : List (Operand → Event) := [.add, .sub]

theorem carrying_subset : carrying ⊆ combining := by simp [carrying, combining]

theorem recovered_plain : ∀ event ∈ combining ++ [.increment, .decrement], ∀ operand : Operand,
    operand.isPlain → Recovered (event operand) := by
  simp only [combining, List.cons_append, List.nil_append, List.forall_mem_cons]
  refine ⟨?_, ?_, ?_, ?_, ?_, ?_, ?_, ?_, nofun⟩ <;>
  · intro operand plain
    rcases plain_cases plain with ⟨register, rfl⟩ | rfl
    · cases register <;> (apply Means.alone; rfl)
    · apply Means.alone
      rfl

/-- The opcode alone settles the recipe, so the byte stays a variable. -/
theorem recovered_number : ∀ event ∈ combining, ∀ byte, Recovered (event (.immediate byte)) := by
  simp only [combining, List.forall_mem_cons]
  refine ⟨?_, ?_, ?_, ?_, ?_, ?_, nofun⟩ <;>
  · intro byte
    apply Means.withByte
    rfl

theorem recovered_combining (event : Operand → Event) (listed : event ∈ combining)
    {operand : Operand} (source : operand.isSource) : Recovered (event operand) := by
  rcases source_cases source with plain | ⟨byte, rfl⟩
  · exact recovered_plain event (List.mem_append_left _ listed) operand plain
  · exact recovered_number event listed byte

theorem recovered_carrying : ∀ event ∈ carrying, ∀ operand : Operand,
    operand.isSourceOrCarried → Recovered (event operand) := by
  intro event listed operand source
  rcases sourceOrCarried_cases source with source | carried
  · exact recovered_combining event (carrying_subset listed) source
  · revert event
    simp only [carrying, List.forall_mem_cons]
    refine ⟨?_, ?_, nofun⟩ <;>
    · rcases carried with ⟨register, rfl⟩ | rfl | ⟨byte, rfl⟩
      · cases register <;> (apply Means.alone; rfl)
      · apply Means.alone
        rfl
      · apply Means.withByte
        rfl

theorem recovered_arithmetic : ∀ event ∈
    ([.addHl, .increment16, .decrement16] : List (Register16 → Event)),
    ∀ register, register.isArithmetic → Recovered (event register) := by
  simp only [List.forall_mem_cons]
  refine ⟨?_, ?_, ?_, nofun⟩ <;>
  · intro register arithmetic
    cases register with
    | af | pc => cases arithmetic
    | _ => apply Means.alone; rfl

theorem recovered_stacked : ∀ event ∈ ([.push, .pop] : List (Register16 → Event)),
    ∀ register, register.isStacked → Recovered (event register) := by
  simp only [List.forall_mem_cons]
  refine ⟨?_, ?_, nofun⟩ <;>
  · intro register stacked
    cases register with
    | sp | pc => cases stacked
    | _ => apply Means.alone; rfl

theorem recovered_copy {dest src : Operand} (plainDest : dest.isPlain) (plainSrc : src.isPlain)
    (apart : dest ≠ .indirect .hl ∨ src ≠ .indirect .hl) : Recovered (.load dest src) := by
  rcases plain_cases plainDest with ⟨register, rfl⟩ | rfl
  · rcases plain_cases plainSrc with ⟨other, rfl⟩ | rfl
    · cases register <;> cases other <;> (apply Means.alone; rfl)
    · cases register <;> (apply Means.alone; rfl)
  · rcases plain_cases plainSrc with ⟨other, rfl⟩ | rfl
    · cases other <;> (apply Means.alone; rfl)
    · simp at apart

theorem recovered_loadByte {dest : Operand} (plain : dest.isPlain) (byte : UInt8) :
    Recovered (.load dest (.immediate byte)) := by
  rcases plain_cases plain with ⟨register, rfl⟩ | rfl
  · cases register <;> (apply Means.withByte; rfl)
  · apply Means.withByte
    rfl

theorem recovered_cell {cell : Operand} (valid : cell.isAccumulatorCell) :
    Recovered (.load (.register .a) cell) ∧ Recovered (.load cell (.register .a)) := by
  unfold Operand.isAccumulatorCell at valid
  split at valid
  case h_5 word => constructor <;> (apply Means.withWord; rfl)
  case h_6 high low =>
    obtain ⟨rfl, rfl⟩ := of_decide_eq_true valid
    constructor <;> (apply Means.alone; rfl)
  case h_7 => cases valid
  all_goals constructor <;> (apply Means.alone; rfl)

theorem recovered_load {dest src : Operand} (decodable : (Event.load dest src).isDecodable) :
    Recovered (.load dest src) := by
  simp only [Event.isDecodable, Bool.or_eq_true, Bool.and_eq_true, Bool.not_eq_true',
    decide_eq_true_eq, Bool.and_eq_false_iff, decide_eq_false_iff_not] at decodable
  rcases decodable with (⟨⟨plain, source⟩, apart⟩ | ⟨rfl, cell⟩) | ⟨cell, rfl⟩
  · rcases source_cases source with plainSrc | ⟨byte, rfl⟩
    · exact recovered_copy plain plainSrc apart
    · exact recovered_loadByte plain byte
  · exact (recovered_cell cell).1
  · exact (recovered_cell cell).2

theorem recovered_load16 {dest src : Operand16} (decodable : (Event.load16 dest src).isDecodable) :
    Recovered (.load16 dest src) := by
  cases dest with
  | register dest =>
    cases src with
    | immediate word =>
      cases dest with
      | af => cases decodable
      | pc => cases decodable
      | _ => apply Means.withWord; rfl
    | register src =>
      obtain ⟨rfl, rfl⟩ : dest = .sp ∧ src = .hl := by simpa [Event.isDecodable] using decodable
      apply Means.alone
      rfl
    | _ => cases decodable
  | address word =>
    cases src with
    | register src =>
      obtain rfl : src = .sp := of_decide_eq_true decodable
      apply Means.withWord
      rfl
    | _ => cases decodable
  | _ => cases decodable

/-- A byte behind the extended introducer means what the extended table says. -/
theorem means_extended (opcode : UInt8) : Means [0xCB, opcode] (extendedTable opcode) := by
  rw [← OctalChart.extended_eq_extendedTable]
  exact .withByte extended rfl opcode

/-- The extended table holds every shift and every bit operation where the digits
say. -/
theorem extendedTable_digits : ∀ operand ∈ columns,
    (∀ op ∈ (Enumerated.all : List ShiftOp),
      extendedTable (opcode 0 (shiftDigit op) (operandDigit operand)) = .shift op operand) ∧
    ∀ op ∈ (Enumerated.all : List BitOp), ∀ index : UInt8, index < 8 →
      extendedTable (opcode (bitDigit op) index.toNat (operandDigit operand)) =
        .bit op index operand := by
  decide +kernel

theorem recovered_shift (op : ShiftOp) {operand : Operand} (plain : operand.isPlain) :
    Recovered (.shift op operand) := by
  have means := means_extended (opcode 0 (shiftDigit op) (operandDigit operand))
  have found := (extendedTable_digits operand (mem_columns plain)).1
  rwa [found op (LawfulEnumerated.mem_all op)] at means

theorem recovered_bit (op : BitOp) {index : UInt8} (inside : index < 8) {operand : Operand}
    (plain : operand.isPlain) : Recovered (.bit op index operand) := by
  have means := means_extended (opcode (bitDigit op) index.toNat (operandDigit operand))
  have found := (extendedTable_digits operand (mem_columns plain)).2
  rwa [found op (LawfulEnumerated.mem_all op) index inside] at means

theorem recovered_jump {condition : Option Condition} {target : Operand16}
    (decodable : (Event.jump condition target).isDecodable) :
    Recovered (.jump condition target) := by
  cases target with
  | immediate word =>
    cases condition with
    | none => apply Means.withWord; rfl
    | some tested => cases tested <;> (apply Means.withWord; rfl)
  | register register =>
    obtain ⟨rfl, rfl⟩ : condition = none ∧ register = .hl := by
      simpa [Event.isDecodable] using decodable
    apply Means.alone
    rfl
  | _ => cases decodable

theorem recovered_jumpRelative (condition : Option Condition) (offset : Int8) :
    Recovered (.jumpRelative condition offset) := by
  cases condition with
  | none => apply Means.withOffset; rfl
  | some tested => cases tested <;> (apply Means.withOffset; rfl)

theorem recovered_restart {address : UInt8} (decodable : (Event.restart address).isDecodable) :
    Recovered (.restart address) := by
  have entries : ∀ address, (Event.restart address).isDecodable →
      address ∈ ([0x00, 0x08, 0x10, 0x18, 0x20, 0x28, 0x30, 0x38] : List UInt8) := by
    decide +kernel
  have listed := entries address decodable
  simp only [List.mem_cons, List.not_mem_nil, or_false] at listed
  rcases listed with rfl | rfl | rfl | rfl | rfl | rfl | rfl | rfl <;> (apply Means.alone; rfl)

/-- The one compound is the load of the stack pointer with a displacement. -/
theorem compound_cases {first second : Event}
    (decodable : (Event.compound first second).isDecodable) :
    ∃ offset, first = .load16 (.register .hl) (.registerOffset .sp offset) ∧
      second = .flagSet .addSp := by
  cases first with
  | load16 dest src =>
    cases dest with
    | register dest =>
      cases src with
      | registerOffset src offset =>
        cases second with
        | flagSet delta =>
          obtain ⟨⟨rfl, rfl⟩, rfl⟩ : (dest = .hl ∧ src = .sp) ∧ delta = .addSp := by
            simpa [Event.isDecodable] using decodable
          exact ⟨offset, rfl, rfl⟩
        | _ => cases decodable
      | _ => cases decodable
    | _ => cases decodable
  | _ => cases decodable

theorem recovered_unimplemented {introducer : Option UInt8} {opcode : UInt8}
    (decodable : (Event.unimplemented introducer opcode).isDecodable) :
    Recovered (.unimplemented introducer opcode) := by
  cases introducer with
  | none =>
    have listed : opcode ∈ ([0xD3, 0xDB, 0xE3, 0xE4, 0xEB, 0xEC, 0xF4, 0xFC] : List UInt8) :=
      of_decide_eq_true decodable
    simp only [List.mem_cons, List.not_mem_nil, or_false] at listed
    rcases listed with rfl | rfl | rfl | rfl | rfl | rfl | rfl | rfl <;> (apply Means.alone; rfl)
  | some introducer =>
    have listed : introducer ∈ ([0xDD, 0xED, 0xFD] : List UInt8) := of_decide_eq_true decodable
    simp only [List.mem_cons, List.not_mem_nil, or_false] at listed
    rcases listed with rfl | rfl | rfl <;> (apply Means.withByte; rfl)

/-- Every decodable event is the meaning of its encoding. -/
theorem recovered_of_decodable {event : Event} (decodable : event.isDecodable) :
    Recovered event := by
  cases event with
  | nop | complement | decimalAdjust | retInterrupt | halt | disableInterrupts |
    enableInterrupts => apply Means.alone; rfl
  | load dest src => exact recovered_load decodable
  | load16 dest src => exact recovered_load16 decodable
  | push register => exact recovered_stacked .push (by simp) register decodable
  | pop register => exact recovered_stacked .pop (by simp) register decodable
  | add operand => exact recovered_carrying .add (by simp [carrying]) operand decodable
  | sub operand => exact recovered_carrying .sub (by simp [carrying]) operand decodable
  | and operand => exact recovered_combining .and (by simp [combining]) decodable
  | or operand => exact recovered_combining .or (by simp [combining]) decodable
  | xor operand => exact recovered_combining .xor (by simp [combining]) decodable
  | compare operand => exact recovered_combining .compare (by simp [combining]) decodable
  | increment operand => exact recovered_plain .increment (by simp) operand decodable
  | decrement operand => exact recovered_plain .decrement (by simp) operand decodable
  | addHl register => exact recovered_arithmetic .addHl (by simp) register decodable
  | increment16 register => exact recovered_arithmetic .increment16 (by simp) register decodable
  | decrement16 register => exact recovered_arithmetic .decrement16 (by simp) register decodable
  | addSp offset => apply Means.withOffset; rfl
  | rotateA op =>
    simp only [Event.isDecodable, Bool.or_eq_true, decide_eq_true_eq] at decodable
    rcases decodable with ((rfl | rfl) | rfl) | rfl <;> (apply Means.alone; rfl)
  | shift op operand => exact recovered_shift op decodable
  | bit op index operand =>
    simp only [Event.isDecodable, Bool.and_eq_true, decide_eq_true_eq] at decodable
    exact recovered_bit op decodable.1 decodable.2
  | flagSet delta =>
    simp only [Event.isDecodable, Bool.or_eq_true, decide_eq_true_eq] at decodable
    rcases decodable with rfl | rfl <;> (apply Means.alone; rfl)
  | stop => exact .withByte (fun _ => .stop) (by rfl) 0x00
  | jump condition target => exact recovered_jump decodable
  | jumpRelative condition offset => exact recovered_jumpRelative condition offset
  | call condition target =>
    cases condition with
    | none => apply Means.withWord; rfl
    | some tested => cases tested <;> (apply Means.withWord; rfl)
  | ret condition =>
    cases condition with
    | none => apply Means.alone; rfl
    | some tested => cases tested <;> (apply Means.alone; rfl)
  | restart address => exact recovered_restart decodable
  | compound first second =>
    obtain ⟨offset, rfl, rfl⟩ := compound_cases decodable
    apply Means.withOffset
    rfl
  | unimplemented introducer opcode => exact recovered_unimplemented decodable

/-- The event of the bytes is decodable, and its encoding is their long form. -/
structure Spells (bytes : List UInt8) (event : Event) : Prop where
  decodable : event.isDecodable
  encoded : encode event = longForm bytes

instance (bytes : List UInt8) (event : Event) : Decidable (Spells bytes event) :=
  decidable_of_iff (event.isDecodable ∧ encode event = longForm bytes)
    ⟨fun ⟨decodable, encoded⟩ => ⟨decodable, encoded⟩,
      fun ⟨decodable, encoded⟩ => ⟨decodable, encoded⟩⟩

/-- The word that addresses a cell of the topmost page. -/
theorem wordBytes_high (low : UInt8) : wordBytes (0xFF00 ||| low.toUInt16) = [low, 0xFF] := by
  have assembled : 0xFF00 ||| low.toUInt16 = assemble low 0xFF := UInt16.or_comm ..
  rw [assembled, assemble_eq_toWord, wordBytes_toWord]

theorem spells_word : ∀ opcode ∈ wordOpcodes, ∀ low high,
    Spells [opcode, low, high] (Instruction.event [opcode, low, high]) := by
  unfold wordOpcodes
  repeat
    refine List.forall_mem_cons.mpr
      ⟨fun low high => ⟨rfl, congrArg (_ :: ·) (wordBytes_toWord low high)⟩, ?_⟩
  exact nofun

/-- The two loads of the topmost page, `0xE0` and `0xF0`, come back with the address
in full. -/
theorem spells_byte : ∀ opcode ∈ byteOpcodes, ∀ byte,
    Spells [opcode, byte] (Instruction.event [opcode, byte]) := by
  unfold byteOpcodes
  iterate 21 refine List.forall_mem_cons.mpr ⟨fun byte => ⟨rfl, rfl⟩, ?_⟩
  refine List.forall_mem_cons.mpr ⟨fun low => ⟨rfl, congrArg (_ :: ·) (wordBytes_high low)⟩, ?_⟩
  refine List.forall_mem_cons.mpr ⟨fun byte => ⟨rfl, rfl⟩, ?_⟩
  refine List.forall_mem_cons.mpr ⟨fun low => ⟨rfl, congrArg (_ :: ·) (wordBytes_high low)⟩, ?_⟩
  iterate 2 refine List.forall_mem_cons.mpr ⟨fun byte => ⟨rfl, rfl⟩, ?_⟩
  exact nofun

theorem spells_extended (opcode : UInt8) :
    Spells [0xCB, opcode] (Instruction.event [0xCB, opcode]) := by
  have every : ∀ opcode, Spells [0xCB, opcode] (extendedTable opcode) := by decide +kernel
  rw [(means_extended opcode).meaning]
  exact every opcode

theorem spells_foreign : ∀ introducer ∈ foreignIntroducers, ∀ opcode,
    Spells [introducer, opcode] (Instruction.event [introducer, opcode]) := by
  unfold foreignIntroducers
  iterate 3 refine List.forall_mem_cons.mpr ⟨fun opcode => ⟨rfl, rfl⟩, ?_⟩
  exact nofun

theorem spells_alone {opcode : UInt8} (alone : Instruction.length opcode = 1) :
    Spells [opcode] (Instruction.event [opcode]) := by
  -- the length takes longest to find out, so it is asked for last
  have every : ∀ opcode, Spells [opcode] (meaning opcode []) ∨ Instruction.length opcode ≠ 1 := by
    decide +kernel
  have means : Instruction.event [opcode] = meaning opcode [] := OctalChart.fill_recipe [] opcode
  rw [means]
  exact (every opcode).resolve_right (not_not_intro alone)

/-- The event of an instruction is decodable, and its encoding is the long form. -/
theorem spells_event {bytes : List UInt8} (whole : IsInstruction bytes) :
    Spells bytes (Instruction.event bytes) := by
  cases bytes with
  | nil => exact absurd rfl whole.ne_nil
  | cons opcode following =>
    have size : following.length + 1 = Instruction.length opcode := isInstruction_iff.mp whole
    by_cases word : opcode ∈ wordOpcodes
    · rw [Instruction.length, if_pos word] at size
      match following, size with
      | [low, high], _ => exact spells_word opcode word low high
    by_cases byte : opcode ∈ byteOpcodes
    · rw [Instruction.length, if_neg word, if_pos byte] at size
      match following, size with
      | [given], _ => exact spells_byte opcode byte given
    by_cases introducer : opcode = extendedIntroducer ∨ opcode ∈ foreignIntroducers
    · rw [Instruction.length, if_neg word, if_neg byte, if_pos introducer] at size
      match following, size with
      | [given], _ =>
        rcases introducer with rfl | foreign
        · exact spells_extended given
        · exact spells_foreign opcode foreign given
    · have alone : Instruction.length opcode = 1 := by
        rw [Instruction.length, if_neg word, if_neg byte, if_neg introducer]
      rw [alone] at size
      match following, size with
      | [], _ => exact spells_alone alone

/-- **The image of the decoder.** Whatever is decoded is a decodable event. And
for every decodable event there is a byte string that is decoded to it: exactly
these bytes are taken, whatever is queued behind them, and the event is
recorded. -/
theorem decodeEvent_image :
    (∀ queue event, (decodeEvent queue).result = .ok event → event.isDecodable) ∧
    ∀ event : Event, event.isDecodable →
      ∃ bytes, ∀ later, decodeEvent ⟨bytes ++ later⟩ = ⟨.ok event, ⟨later⟩, event.records⟩ := by
  constructor
  · intro queue event decoded
    obtain ⟨part, later, whole, rfl, rfl⟩ := Framing.decodeEvent_of_ok decoded
    exact (spells_event whole).decodable
  · intro event decodable
    have means := recovered_of_decodable decodable
    refine ⟨encode event, fun later => ?_⟩
    rw [decodeEvent_instruction means.whole, means.meaning]

end Lr35902.Encoding
