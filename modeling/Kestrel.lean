import Kestrel.Files.Tree
import Kestrel.Main
import Kestrel.Proofs.Bytecode.Correctness
import Kestrel.Proofs.Bytecode.Heights
import Kestrel.Proofs.Bytecode.Renaming
import Kestrel.Proofs.Bytecode.UnsetReads
import Kestrel.Proofs.CommandLine.Legality
import Kestrel.Proofs.Machine.Faults
import Kestrel.Proofs.Machine.Refusals
import Kestrel.Proofs.Program.Parsing
import Kestrel.Proofs.Run.Independence
import Kestrel.Proofs.Run.Neutrality
import Kestrel.Proofs.Run.Places
import Kestrel.Run.FromFile
import Kestrel.Proofs.Program.Heights
import Kestrel.Proofs.Program.Lookahead
import Kestrel.Proofs.Program.ViablePrefixes
import Kestrel.Proofs.Program.Placement
import Kestrel.Proofs.Program.SourceMap
import Kestrel.Proofs.Program.Shifting
import Kestrel.Proofs.Token.Excerpts
import Kestrel.Proofs.Program.Parentheses
import Kestrel.Proofs.Program.Reparsing
import Kestrel.Proofs.Text.Coordinates
import Kestrel.Proofs.Token.Lines
import Kestrel.Proofs.Program.ReadingBack
import Kestrel.Proofs.Program.Unambiguous
import Kestrel.Proofs.Report.Snippets
import Kestrel.Proofs.CommandLine.Compiling
