import Lr35902.Event.Layout
import Lr35902.Hex

/-! The records a decoder leaves of its work. Every decoded event is recorded,
and one without a meaning is announced by its bytes first. -/
namespace Lr35902

inductive Level where
  | trace | debug
  deriving DecidableEq

def Level.name : Level → String
  | .trace => "TRACE"
  | .debug => "DEBUG"

structure LogRecord where
  level : Level
  message : String
  deriving DecidableEq

namespace Event

/-- The announcement of an event without a meaning, showing the bytes it was
decoded from. -/
def announcement : Event → List LogRecord
  | .unimplemented none opcode => [⟨.debug, s!"unimplemented opcode ${Hex.byte opcode}"⟩]
  | .unimplemented (some introducer) opcode =>
    [⟨.debug, s!"unimplemented prefixed opcode ${Hex.byte introducer} ${Hex.byte opcode}"⟩]
  | _ => []

/-- All records left by decoding an event. -/
def records (event : Event) : List LogRecord :=
  event.announcement ++ [⟨.trace, "decoded " ++ describe event⟩]

end Event

end Lr35902
