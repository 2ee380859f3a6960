import BeatNotation.Cursor.Probe
import BeatNotation.Report
import BeatNotation.Session
import BeatNotation.Settings.Environment
import BeatNotation.Proofs.Pieces
import BeatNotation.Proofs.SigilTable
import BeatNotation.Proofs.Dispatch
import BeatNotation.Proofs.Grammar
import BeatNotation.Proofs.Reading
import BeatNotation.Proofs.Decomposition
import BeatNotation.Proofs.Reference
import BeatNotation.Proofs.Lines
import BeatNotation.Proofs.Accounting
import BeatNotation.Proofs.Sequence
import BeatNotation.Proofs.RuleOrder
import BeatNotation.Proofs.Viability
import BeatNotation.Proofs.Spacing
import BeatNotation.Proofs.Stripping
import BeatNotation.Proofs.Progress
import BeatNotation.Proofs.Resumption
import BeatNotation.Proofs.Lookahead
import BeatNotation.Proofs.Extension
import BeatNotation.Proofs.Acceptance
import BeatNotation.Proofs.Keywords
import BeatNotation.Proofs.Renaming
import BeatNotation.Proofs.IdleReaders
import BeatNotation.Proofs.Decimal
import BeatNotation.Proofs.Encoding
import BeatNotation.Proofs.Numbers
import BeatNotation.Proofs.Rendering
import BeatNotation.Proofs.Loops
import BeatNotation.Proofs.Probes
