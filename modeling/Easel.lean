import Easel.CommandLine.Disk
import Easel.Main
import Easel.Proofs.FrameBytes
import Easel.Proofs.Independence
import Easel.Proofs.Joining
import Easel.Proofs.Lineage
import Easel.Proofs.LongMoves
import Easel.Proofs.Numbering
import Easel.Proofs.Overhang
import Easel.Proofs.Overpainting
import Easel.Proofs.Provenance
import Easel.Proofs.Refinement
import Easel.Proofs.Reprinting
import Easel.Proofs.RoundTrip
import Easel.Proofs.Seams
import Easel.Proofs.Sights
import Easel.Proofs.Spacing
import Easel.Proofs.Windows
