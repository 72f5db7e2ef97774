import RuleOff.Connection
import RuleOff.Main
import RuleOff.Workspace
import RuleOff.Proofs.Config.Block
import RuleOff.Proofs.Config.Entries
import RuleOff.Proofs.Config.JsonLevel
import RuleOff.Proofs.Command.Edit
import RuleOff.Proofs.OpenBuffer.Safety
import RuleOff.Proofs.Session.Snapshot
import RuleOff.Proofs.Command.Snapshot
import RuleOff.Proofs.Command.Report
import RuleOff.Proofs.Session.History
import RuleOff.Proofs.Command.Version
import RuleOff.Proofs.Config.ReadBack
import RuleOff.Proofs.Workspace.Failure
import RuleOff.Proofs.Session.Working
import RuleOff.Proofs.Session.Documents
import RuleOff.Proofs.Command.Indentation
import RuleOff.Proofs.Uri.Spelling
import RuleOff.Proofs.Session.Alike
import RuleOff.Proofs.Command.Buffer
import RuleOff.Proofs.Text.Rows
import RuleOff.Proofs.Config.LineEndings
import RuleOff.Proofs.Config.Grouping
import RuleOff.Proofs.Uri.Script
import RuleOff.Proofs.Command.QuickFix
import RuleOff.Proofs.Session.Refusal
import RuleOff.Proofs.Command.Unsent
import RuleOff.Proofs.Config.HeaderPattern
import RuleOff.Proofs.Command.Target
import RuleOff.Proofs.ClientEditor.Versions
