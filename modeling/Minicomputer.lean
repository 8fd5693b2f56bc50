import Minicomputer.Debugger
import Minicomputer.Main
import Minicomputer.Proofs.Instruction.Canonical
import Minicomputer.Proofs.Instruction.Stream
import Minicomputer.Proofs.Assembly.Reading
import Minicomputer.Proofs.Assembly.Grammar
import Minicomputer.Proofs.Assembly.Acceptance
import Minicomputer.Proofs.Assembly.Code
import Minicomputer.Proofs.Assembly.Address
import Minicomputer.Proofs.Assembly.ImageSize
import Minicomputer.Proofs.Token.Lexeme
import Minicomputer.Proofs.Token.Place
import Minicomputer.Proofs.Token.Lines
import Minicomputer.Proofs.Token.Literals
import Minicomputer.Proofs.Token.Numerals
import Minicomputer.Proofs.Json.RoundTrip
import Minicomputer.Proofs.Program.Storage
import Minicomputer.Proofs.Instruction.Spelling
import Minicomputer.Proofs.Assembly.Respelling
import Minicomputer.Proofs.Assembly.Reassembly
import Minicomputer.Proofs.Assembly.TextOutput
import Minicomputer.Proofs.Machine.Composition
import Minicomputer.Proofs.Machine.Agreement
import Minicomputer.Proofs.Machine.Run
import Minicomputer.Proofs.Machine.Image
import Minicomputer.Proofs.Machine.Cycle
import Minicomputer.Proofs.Machine.Report
import Minicomputer.Proofs.Machine.Failure
import Minicomputer.Proofs.Machine.WordStack
import Minicomputer.Proofs.Monitor.Agreement
import Minicomputer.Proofs.Monitor.Frame
import Minicomputer.Proofs.Monitor.Slices
import Minicomputer.Proofs.Monitor.Breakpoints
import Minicomputer.Proofs.Monitor.Resumption
import Minicomputer.Proofs.Monitor.Lifecycle
import Minicomputer.Proofs.Monitor.Failure
import Minicomputer.Proofs.Monitor.Twin
import Minicomputer.Proofs.Monitor.Renewal
import Minicomputer.Proofs.Monitor.Report
import Minicomputer.Proofs.Monitor.Input
import Minicomputer.Proofs.Monitor.Conversation
import Minicomputer.Proofs.Command.Tracing
import Minicomputer.Proofs.Command.Conclusion
import Minicomputer.Proofs.Monitor.Printing
import Minicomputer.Proofs.Machine.Footprint
import Minicomputer.Proofs.Monitor.Footprint
import Minicomputer.Proofs.Assembly.Vocabulary
import Minicomputer.Proofs.Assembly.Recognition
import Minicomputer.Proofs.Assembly.Constants
import Minicomputer.Proofs.Assembly.Binding
import Minicomputer.Proofs.Assembly.Duplicates
import Minicomputer.Proofs.Assembly.Alignment
import Minicomputer.Proofs.Token.Replacement
import Minicomputer.Proofs.Assembly.Likeness
import Minicomputer.Proofs.Assembly.Displacement
import Minicomputer.Proofs.Assembly.Shorthand
import Minicomputer.Proofs.Machine.Rejection
import Minicomputer.Proofs.Monitor.Pausing
import Minicomputer.Proofs.Debugger.Ticks
import Minicomputer.Proofs.Instruction.Legibility
import Minicomputer.Proofs.Listing.Fetch
import Minicomputer.Proofs.Debugger.Stepping
import Minicomputer.Proofs.Debugger.Window
import Minicomputer.Proofs.Machine.TestFlag
import Minicomputer.Proofs.Machine.BlockCopy
import Minicomputer.Proofs.Monitor.BlockCopy
import Minicomputer.Proofs.Listing.Coverage
import Minicomputer.Proofs.Machine.Addressing
import Minicomputer.Proofs.Monitor.Formatting
import Minicomputer.Proofs.Program.DebugStrings
import Minicomputer.Proofs.Monitor.LeadingNumber
import Minicomputer.Proofs.Monitor.Randomness
import Minicomputer.Proofs.Machine.Nesting
import Minicomputer.Proofs.Listing.Annotations
import Minicomputer.Proofs.Debugger.Window
import Minicomputer.Proofs.Token.Numerals
import Minicomputer.Proofs.Assembly.Constants
