import Seepage.Main
import Seepage.Proofs.Alias.Provenance
import Seepage.Proofs.Alias.Elements
import Seepage.Proofs.Analysis.Ceiling
import Seepage.Proofs.Analysis.Inclusion
import Seepage.Proofs.Analysis.Range
import Seepage.Proofs.Analysis.Skipping
import Seepage.Proofs.Flow.Closed
import Seepage.Proofs.Flow.DeadCode
import Seepage.Proofs.Flow.Partition
import Seepage.Proofs.Flow.Uses
import Seepage.Proofs.Markup.Forest
import Seepage.Proofs.Output.Places
import Seepage.Proofs.Output.Tables
import Seepage.Proofs.Program.Adjacency
import Seepage.Proofs.Program.Canonical
import Seepage.Proofs.Scope.Completeness
import Seepage.Proofs.Scope.Visibility
import Seepage.Proofs.Structured.Paths
import Seepage.Proofs.Taint.Restriction
import Seepage.Proofs.Taint.Work
import Seepage.Proofs.Text.Lines
import Seepage.Proofs.Tree.Preorder
import Seepage.Proofs.Tree.Targets
import Seepage.Proofs.Workspace.Scripts
