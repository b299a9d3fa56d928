import Lr35902.Bracketing
import Lr35902.Delivery
import Lr35902.Event.Binary
import Lr35902.Event.Decodable
import Lr35902.Event.Json
import Lr35902.Event.Leaves
import Lr35902.Event.Text
import Lr35902.Flag.Editing
import Lr35902.Flag.Union
import Lr35902.Instruction.Encoding
import Lr35902.Instruction.FlagEffect
import Lr35902.Instruction.Octal
import Lr35902.Instruction.Synonym
import Lr35902.Ram.History
import Lr35902.Session.Account
import Lr35902.Transcript
import Lr35902.Walk
import Lr35902.Proofs.OctalChart
import Lr35902.Proofs.Framing
import Lr35902.Proofs.Segments
import Lr35902.Proofs.Resumption
import Lr35902.Proofs.Encoding
import Lr35902.Proofs.Synonyms
import Lr35902.Proofs.ExactCode
import Lr35902.Proofs.Counting
import Lr35902.Proofs.LastWriter
import Lr35902.Proofs.Walking
import Lr35902.Proofs.Lossless
import Lr35902.Proofs.FlagTable
import Lr35902.Proofs.Merging
import Lr35902.Proofs.EventTree
import Lr35902.Proofs.Compounding
import Lr35902.Proofs.Transcription
import Lr35902.Proofs.Pairing
import Lr35902.Proofs.Demands
import Lr35902.Proofs.SingleReads
import Lr35902.Proofs.WordOrder
import Lr35902.Proofs.RoundTrip
import Lr35902.Proofs.Legibility
import Lr35902.Proofs.Recounting
