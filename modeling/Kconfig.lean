import Kconfig.Main
import Kconfig.Action.Writer
import Kconfig.CommandLine.Directory
import Kconfig.Proofs.Action.Sink
import Kconfig.Proofs.Action.Writer
import Kconfig.Proofs.Writer.Room
import Kconfig.Proofs.Action.PropertyOrder
import Kconfig.Proofs.Condition.Placeholder
import Kconfig.Proofs.Interchange.RoundTrip
import Kconfig.Proofs.Interchange.Rearrangement
import Kconfig.Proofs.Menu.Preorder
import Kconfig.Proofs.Menu.Iteration
import Kconfig.Proofs.Model.Entries
import Kconfig.Proofs.Model.Closed
import Kconfig.Proofs.Model.FirstFault
import Kconfig.Proofs.Run.Plan
import Kconfig.Proofs.Constraint.Records
import Kconfig.Proofs.Constraint.Declaration
import Kconfig.Proofs.Constraint.ChoiceShape
import Kconfig.Proofs.Constraint.Lines
import Kconfig.Proofs.Constraint.Parts
import Kconfig.Proofs.Constraint.Blocks
import Kconfig.Proofs.Constraint.Independence
import Kconfig.Proofs.Constraint.InvalidChoice
import Kconfig.Proofs.Constraint.ReverseRules
import Kconfig.Proofs.Constraint.Warnings
import Kconfig.Proofs.Constraint.Defaults
import Kconfig.Proofs.Constraint.Framing
import Kconfig.Proofs.Constraint.Identifiers
import Kconfig.Proofs.Expr.Locality
import Kconfig.Proofs.Dump.ChoiceShape
import Kconfig.Proofs.Dump.Faults
import Kconfig.Proofs.Dump.Outline
import Kconfig.Proofs.Dump.Reader
import Kconfig.Proofs.Dump.Symbols
import Kconfig.Proofs.Condition.Respelling
import Kconfig.Proofs.Condition.Parentheses
import Kconfig.Proofs.CommandLine.Files
