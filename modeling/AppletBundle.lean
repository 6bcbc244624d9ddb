import AppletBundle.Description
import AppletBundle.Main
import AppletBundle.Proofs.Path.Components
import AppletBundle.Proofs.Path.Inner
import AppletBundle.Proofs.Path.Reduction
import AppletBundle.Proofs.Path.FileName
import AppletBundle.Proofs.Path.Key
import AppletBundle.Proofs.Path.Cancellation
import AppletBundle.Proofs.Json.Quotation
import AppletBundle.Proofs.Asset.Structure
import AppletBundle.Proofs.Asset.Tree
import AppletBundle.Proofs.Asset.Placement
import AppletBundle.Proofs.Asset.Addition
import AppletBundle.Proofs.Asset.Admission
import AppletBundle.Proofs.Asset.Growth
import AppletBundle.Proofs.Script.Liveness
import AppletBundle.Proofs.Script.Selection
import AppletBundle.Proofs.Script.Reannotation
import AppletBundle.Proofs.Script.FirstDeclaration
import AppletBundle.Proofs.Style.Insertion
import AppletBundle.Proofs.Style.Ownership
import AppletBundle.Proofs.Style.Reading
import AppletBundle.Proofs.Style.Preservation
import AppletBundle.Proofs.Style.Offset.Boundaries
import AppletBundle.Proofs.Bundle.Contributions
import AppletBundle.Proofs.Bundle.Composition
import AppletBundle.Proofs.Bundle.Traversal
import AppletBundle.Proofs.Bundle.Failing
import AppletBundle.Proofs.Bundle.Agreement
import AppletBundle.Proofs.Bundle.Record
import AppletBundle.Proofs.Bundle.Steps
import AppletBundle.Proofs.Bundle.Success
import AppletBundle.Proofs.Bundle.Repetition
import AppletBundle.Proofs.Bundle.ScriptValidity
import AppletBundle.Proofs.Bundle.Markup
import AppletBundle.Proofs.Schedule.Independence
import AppletBundle.Proofs.Project.Containment
import AppletBundle.Proofs.Project.Declaration
import AppletBundle.Proofs.Project.Graph
import AppletBundle.Proofs.Project.Found
import AppletBundle.Proofs.Project.Stack
import AppletBundle.Proofs.Project.Replicas
import AppletBundle.Proofs.Project.Cycle
import AppletBundle.Proofs.Config.Precedence
import AppletBundle.Proofs.Script.Resolution
import AppletBundle.Proofs.Script.External
import AppletBundle.Proofs.Script.Modes
import AppletBundle.Proofs.Script.Shaking
import AppletBundle.Proofs.Script.Recording
import AppletBundle.Proofs.Entry.Loading
import AppletBundle.Proofs.Entry.Runtime
import AppletBundle.Proofs.Script.WellFormed
import AppletBundle.Proofs.Project.Validation
import AppletBundle.Proofs.Project.Identities
import AppletBundle.Proofs.Style.Keyframes
import AppletBundle.Proofs.Style.Locality
import AppletBundle.Proofs.Style.Compaction
import AppletBundle.Proofs.Style.Retention
import AppletBundle.Proofs.Style.Deep
import AppletBundle.Proofs.Style.Placement
import AppletBundle.Proofs.Bundle.Context
import AppletBundle.Proofs.Bundle.Disk
import AppletBundle.Proofs.Script.Assembly
import AppletBundle.Proofs.Config.Extensions
import AppletBundle.Proofs.Text.LineEnding
import AppletBundle.Proofs.Script.Attribution
import AppletBundle.Proofs.Style.Splitting
import AppletBundle.Proofs.Style.Offset.Cuts
import AppletBundle.Proofs.Script.Reading.Module
