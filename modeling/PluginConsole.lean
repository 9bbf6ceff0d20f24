import PluginConsole.Json.Reader
import PluginConsole.Main
import PluginConsole.Proofs.Config.EnvName
import PluginConsole.Proofs.Config.KeyPosition
import PluginConsole.Proofs.Config.Reload
import PluginConsole.Proofs.Config.UnknownKey
import PluginConsole.Proofs.Config.Validation
import PluginConsole.Proofs.Console.Furnished
import PluginConsole.Proofs.Console.Lookup
import PluginConsole.Proofs.Console.Objects
import PluginConsole.Proofs.Console.Opening
import PluginConsole.Proofs.Console.Shutdown
import PluginConsole.Proofs.Console.Start
import PluginConsole.Proofs.Dict
import PluginConsole.Proofs.Directory
import PluginConsole.Proofs.Directory.Log
import PluginConsole.Proofs.Directory.Story
import PluginConsole.Proofs.LabelMap
import PluginConsole.Proofs.LabelMap.Frame
import PluginConsole.Proofs.LabelMap.Likeness
import PluginConsole.Proofs.LabelMap.Tree
import PluginConsole.Proofs.Lifecycle.Account
import PluginConsole.Proofs.Lifecycle.Consult
import PluginConsole.Proofs.Lifecycle.Course
import PluginConsole.Proofs.Lifecycle.Memo
import PluginConsole.Proofs.Lifecycle.Move
import PluginConsole.Proofs.Lifecycle.Recall
import PluginConsole.Proofs.Lifecycle.Respect
import PluginConsole.Proofs.Lifecycle.Seen
import PluginConsole.Proofs.Lifecycle.Service
import PluginConsole.Proofs.Lifecycle.Titled
import PluginConsole.Proofs.Lifecycle.Trace
import PluginConsole.Proofs.Registry.Activation
import PluginConsole.Proofs.Registry.Attend
import PluginConsole.Proofs.Registry.Binding
import PluginConsole.Proofs.Registry.Cold
import PluginConsole.Proofs.Registry.Containment
import PluginConsole.Proofs.Registry.Govern
import PluginConsole.Proofs.Registry.Holder
import PluginConsole.Proofs.Registry.Ledger
import PluginConsole.Proofs.Registry.Lifetime
import PluginConsole.Proofs.Registry.Listing
import PluginConsole.Proofs.Registry.Offer
import PluginConsole.Proofs.Registry.Operation
import PluginConsole.Proofs.Registry.Precedence
import PluginConsole.Proofs.Registry.Query
import PluginConsole.Proofs.Registry.Quiet
import PluginConsole.Proofs.Registry.Recall
import PluginConsole.Proofs.Registry.Registration
import PluginConsole.Proofs.Registry.Respect
import PluginConsole.Proofs.Registry.Retraction
import PluginConsole.Proofs.Registry.Retreat
import PluginConsole.Proofs.Registry.Settle
import PluginConsole.Proofs.Registry.Subscription
import PluginConsole.Proofs.Registry.Tidy
import PluginConsole.Proofs.Registry.Titles
import PluginConsole.Proofs.Registry.Translation
import PluginConsole.Proofs.Registry.Visit
import PluginConsole.Proofs.Registry.Withdrawal
import PluginConsole.Proofs.Site.Action
import PluginConsole.Proofs.Site.Alike
import PluginConsole.Proofs.Site.Backed
import PluginConsole.Proofs.Site.Holds
import PluginConsole.Proofs.Site.Listing
import PluginConsole.Proofs.Site.Outcome
import PluginConsole.Proofs.Site.Precedence
import PluginConsole.Proofs.Site.Standing
import PluginConsole.Proofs.Site.Stream
import PluginConsole.Proofs.Site.Usage
import PluginConsole.Proofs.Text
import PluginConsole.Scenario.Transcript
import PluginConsole.SourceKind
import PluginConsole.Text.Similarity
import PluginConsole.Proofs.Console.Messages
import PluginConsole.Proofs.Lifecycle.Report
