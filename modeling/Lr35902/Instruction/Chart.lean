import Lr35902.Event.Flags
import Lr35902.ByteQueue
import Lr35902.Instruction.Length

/-! The opcode chart: what each opcode means and what has to follow it. The
chart has sixteen rows of sixteen opcodes, and a second chart gives the
meanings of the bytes that follow the extended introducer. -/
namespace Lr35902.Instruction

/-- How an instruction is completed once its opcode is known: it stands alone,
or a byte or a word after the opcode completes it. -/
inductive Recipe where
  | alone (event : Event)
  | withByte (event : UInt8 → Event)
  | withWord (event : UInt16 → Event)

namespace Recipe

/-- The number of bytes after the opcode. -/
def extraBytes : Recipe → Nat
  | alone _ => 0
  | withByte _ => 1
  | withWord _ => 2

/-- Takes what the recipe needs and completes the event. -/
def complete : Recipe → Fetch Event
  | alone event => return event
  | withByte event => do
    let byte ← ByteQueue.get
    return event byte
  | withWord event => do
    let low ← ByteQueue.get
    let high ← ByteQueue.get
    return event (LittleEndian.assemble low high)

/-- The event that the recipe makes of the bytes after the opcode, where they
are enough. -/
def fill : Recipe → List UInt8 → Event
  | alone event, _ => event
  | withByte event, following => event (following.getD 0 0)
  | withWord event, following =>
    event (LittleEndian.toWord [following.getD 0 0, following.getD 1 0])

/-- Completing a recipe takes exactly the bytes that have to follow the opcode. -/
theorem complete_append {recipe : Recipe} {following : List UInt8}
    (exactly : following.length = recipe.extraBytes) (later : List UInt8) :
    recipe.complete ⟨following ++ later⟩ = (.ok (recipe.fill following), ⟨later⟩) := by
  match recipe, following, exactly with
  | alone event, [], _ => rfl
  | withByte event, [byte], _ => rfl
  | withWord event, [low, high], _ =>
    rw [fill, ← LittleEndian.assemble_eq_toWord]
    rfl

/-- A load of the following byte. -/
def loadByte (dest : Operand) : Recipe := withByte fun byte => .load dest (.immediate byte)

/-- A load of the following word. -/
def loadWord (dest : Register16) : Recipe :=
  withWord fun word => .load16 (.register dest) (.immediate word)

/-- A load of the accumulator into some place. -/
def storeA (dest : Operand) : Recipe := alone (.load dest (.register .a))

/-- A load of the accumulator from some place. -/
def loadA (src : Operand) : Recipe := alone (.load (.register .a) src)

/-- A jump by a signed displacement. -/
def jumpRelative (condition : Option Condition) : Recipe :=
  withByte fun byte => .jumpRelative condition byte.toInt8

def jump (condition : Option Condition) : Recipe :=
  withWord fun word => .jump condition (.immediate word)

def call (condition : Option Condition) : Recipe := withWord fun word => .call condition word

/-- An operation on the following byte. -/
def onByte (event : Operand → Event) : Recipe := withByte fun byte => event (.immediate byte)

/-- An operation on the following byte and the carry. -/
def onByteWithCarry (event : Operand → Event) : Recipe :=
  withByte fun byte => event (.withCarry (.immediate byte))

/-- An opcode without a meaning. -/
def unused (opcode : UInt8) : Recipe := alone (.unimplemented none opcode)

/-- A byte that introduces a table of another processor. -/
def foreign (introducer : UInt8) : Recipe :=
  withByte fun opcode => .unimplemented (some introducer) opcode

end Recipe

open Recipe

/-- A table that agrees with a function place by place agrees with it at every
opcode. -/
theorem get_tabulated {α β : Type} {table : List α} (view : α → β) (read : UInt8 → β)
    (agree : table.map view = (List.range 256).map fun place => read (UInt8.ofNat place))
    (opcode : UInt8) (inside : opcode.toNat < table.length) :
    view (table.get ⟨opcode.toNat, inside⟩) = read opcode := by
  have here := congrArg (fun entries => entries[opcode.toNat]?) agree
  simpa [inside, opcode.toNat_lt] using here

/-- The 8-bit operands in the order in which consecutive opcodes use them. -/
def columns : List Operand :=
  [.register .b, .register .c, .register .d, .register .e, .register .h, .register .l,
    .indirect .hl, .register .a]

/-- The same operands where the carry takes part. -/
def carriedColumns : List Carried :=
  [.register .b, .register .c, .register .d, .register .e, .register .h, .register .l,
    .indirect .hl, .register .a]

/-- Eight opcodes that differ in their operand only. -/
def acrossColumns (event : Operand → Event) : List Recipe :=
  columns.map fun operand => alone (event operand)

/-- Eight opcodes that differ in their operand only and use the carry. -/
def acrossCarriedColumns (event : Operand → Event) : List Recipe :=
  carriedColumns.map fun carried => alone (event (.withCarry carried))

/-- Rows 0 to 3: 16-bit loads and arithmetic, increments, 8-bit loads of a
number, accumulator operations and relative jumps. -/
def firstQuarter : List Recipe :=
  [
    -- row 0
    alone .nop,
    loadWord .bc,
    storeA (.indirect .bc),
    alone (.increment16 .bc),
    alone (.increment (.register .b)),
    alone (.decrement (.register .b)),
    loadByte (.register .b),
    alone (.rotateA .rlc),
    withWord fun word => .load16 (.address word) (.register .sp),
    alone (.addHl .bc),
    loadA (.indirect .bc),
    alone (.decrement16 .bc),
    alone (.increment (.register .c)),
    alone (.decrement (.register .c)),
    loadByte (.register .c),
    alone (.rotateA .rrc),
    -- row 1
    withByte fun _ => .stop,
    loadWord .de,
    storeA (.indirect .de),
    alone (.increment16 .de),
    alone (.increment (.register .d)),
    alone (.decrement (.register .d)),
    loadByte (.register .d),
    alone (.rotateA .rl),
    jumpRelative none,
    alone (.addHl .de),
    loadA (.indirect .de),
    alone (.decrement16 .de),
    alone (.increment (.register .e)),
    alone (.decrement (.register .e)),
    loadByte (.register .e),
    alone (.rotateA .rr),
    -- row 2
    jumpRelative (some .nz),
    loadWord .hl,
    storeA (.indirect .hli),
    alone (.increment16 .hl),
    alone (.increment (.register .h)),
    alone (.decrement (.register .h)),
    loadByte (.register .h),
    alone .decimalAdjust,
    jumpRelative (some .z),
    alone (.addHl .hl),
    loadA (.indirect .hli),
    alone (.decrement16 .hl),
    alone (.increment (.register .l)),
    alone (.decrement (.register .l)),
    loadByte (.register .l),
    alone .complement,
    -- row 3
    jumpRelative (some .nc),
    loadWord .sp,
    storeA (.indirect .hld),
    alone (.increment16 .sp),
    alone (.increment (.indirect .hl)),
    alone (.decrement (.indirect .hl)),
    loadByte (.indirect .hl),
    alone (.flagSet .setCarry),
    jumpRelative (some .c),
    alone (.addHl .sp),
    loadA (.indirect .hld),
    alone (.decrement16 .sp),
    alone (.increment (.register .a)),
    alone (.decrement (.register .a)),
    loadByte (.register .a),
    alone (.flagSet .complementCarry)]

/-- Rows 4 to 7: loads of every operand into every operand. The load of memory
into itself gives way to `HALT`. -/
def loadQuarter : List Recipe :=
  (columns.flatMap fun dest => acrossColumns (.load dest)).set 0x36 (alone .halt)

/-- Rows 8 to B: arithmetic and logic between the accumulator and every
operand. -/
def arithmeticQuarter : List Recipe :=
  acrossColumns .add ++ acrossCarriedColumns .add ++ acrossColumns .sub ++
    acrossCarriedColumns .sub ++ acrossColumns .and ++ acrossColumns .xor ++
    acrossColumns .or ++ acrossColumns .compare

/-- The meanings of the bytes after the extended introducer: eight shifts, then
the test, the clearing and the setting of each of eight bits, always on every
operand. -/
def extendedChart : List Event :=
  (Enumerated.all : List ShiftOp).flatMap (fun op => columns.map (.shift op)) ++
    (Enumerated.all : List BitOp).flatMap fun op =>
      ([0, 1, 2, 3, 4, 5, 6, 7] : List UInt8).flatMap fun index => columns.map (.bit op index)

theorem length_extendedChart : extendedChart.length = 256 := by decide +kernel

/-- The meaning of an opcode after the extended introducer. -/
def extended (opcode : UInt8) : Event :=
  extendedChart.get ⟨opcode.toNat, by rw [length_extendedChart]; exact opcode.toNat_lt⟩

/-- Rows C to F: control flow, the stack, arithmetic with a number, and loads
of the topmost page. -/
def lastQuarter : List Recipe :=
  [
    -- row C
    alone (.ret (some .nz)),
    alone (.pop .bc),
    jump (some .nz),
    jump none,
    call (some .nz),
    alone (.push .bc),
    onByte .add,
    alone (.restart 0x00),
    alone (.ret (some .z)),
    alone (.ret none),
    jump (some .z),
    withByte extended,
    call (some .z),
    call none,
    onByteWithCarry .add,
    alone (.restart 0x08),
    -- row D
    alone (.ret (some .nc)),
    alone (.pop .de),
    jump (some .nc),
    unused 0xD3,
    call (some .nc),
    alone (.push .de),
    onByte .sub,
    alone (.restart 0x10),
    alone (.ret (some .c)),
    alone .retInterrupt,
    jump (some .c),
    unused 0xDB,
    call (some .c),
    foreign 0xDD,
    onByteWithCarry .sub,
    alone (.restart 0x18),
    -- row E
    withByte fun byte => .load (.high byte) (.register .a),
    alone (.pop .hl),
    storeA (.partialAddress 0xFF .c),
    unused 0xE3,
    unused 0xE4,
    alone (.push .hl),
    onByte .and,
    alone (.restart 0x20),
    withByte fun byte => .addSp byte.toInt8,
    alone (.jump none (.register .hl)),
    withWord fun word => .load (.address word) (.register .a),
    unused 0xEB,
    unused 0xEC,
    foreign 0xED,
    onByte .xor,
    alone (.restart 0x28),
    -- row F
    withByte fun byte => .load (.register .a) (.high byte),
    alone (.pop .af),
    loadA (.partialAddress 0xFF .c),
    alone .disableInterrupts,
    unused 0xF4,
    alone (.push .af),
    onByte .or,
    alone (.restart 0x30),
    -- the only compound: its parts claim different flags, whatever the byte is
    withByte fun byte =>
      .combined (.load16 (.register .hl) (.registerOffset .sp byte.toInt8)) (.flagSet .addSp)
        ⟨_, rfl⟩,
    alone (.load16 (.register .sp) (.register .hl)),
    withWord fun word => .load (.register .a) (.address word),
    alone .enableInterrupts,
    unused 0xFC,
    foreign 0xFD,
    onByte .compare,
    alone (.restart 0x38)]

/-- All opcodes in order. -/
def chart : List Recipe := firstQuarter ++ loadQuarter ++ arithmeticQuarter ++ lastQuarter

theorem length_chart : chart.length = 256 := by decide +kernel

/-- The opcodes of a quarter of the chart, those that begin with one octal digit. -/
def quarterOpcodes (digit : Nat) : List UInt8 :=
  (List.range 64).map fun place => UInt8.ofNat (64 * digit + place)

theorem quarterOpcodes_append :
    quarterOpcodes 0 ++ quarterOpcodes 1 ++ quarterOpcodes 2 ++ quarterOpcodes 3 =
      (List.range 256).map UInt8.ofNat := by
  decide +kernel

/-- How the instruction with this opcode is completed. -/
def recipe (opcode : UInt8) : Recipe :=
  chart.get ⟨opcode.toNat, by rw [length_chart]; exact opcode.toNat_lt⟩

/-- What each quarter of the chart agrees with, every opcode agrees with. -/
theorem recipe_by_quarters {α : Type} {view : Recipe → α} {read : UInt8 → α}
    (first : firstQuarter.map view = (quarterOpcodes 0).map read)
    (loads : loadQuarter.map view = (quarterOpcodes 1).map read)
    (arithmetic : arithmeticQuarter.map view = (quarterOpcodes 2).map read)
    (last : lastQuarter.map view = (quarterOpcodes 3).map read) (opcode : UInt8) :
    view (recipe opcode) = read opcode := by
  refine get_tabulated view read ?_ opcode _
  rw [chart, List.map_append, List.map_append, List.map_append, first, loads, arithmetic, last,
    ← List.map_append, ← List.map_append, ← List.map_append, quarterOpcodes_append, List.map_map]
  rfl

/-- The event of an instruction that is given by its bytes. -/
def event : List UInt8 → Event
  | [] => .nop
  | opcode :: following => (recipe opcode).fill following

/-- The chart and the table of lengths agree on every opcode. -/
theorem extraBytes_recipe (opcode : UInt8) : (recipe opcode).extraBytes + 1 = length opcode :=
  get_tabulated (fun entry : Recipe => entry.extraBytes + 1) length (by decide +kernel) opcode _

end Lr35902.Instruction
