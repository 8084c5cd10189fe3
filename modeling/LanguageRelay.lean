import LanguageRelay.CommandLine.Arguments
import LanguageRelay.CommandLine.Run
import LanguageRelay.Datum.Basic
import LanguageRelay.Datum.Json
import LanguageRelay.Decimal.Binary64
import LanguageRelay.Decimal.Shortest
import LanguageRelay.Document.Change
import LanguageRelay.Document.File
import LanguageRelay.Document.Position
import LanguageRelay.Finder.Basic
import LanguageRelay.Finder.Context
import LanguageRelay.Finder.Locator
import LanguageRelay.Finder.Registry
import LanguageRelay.Frame.Reader
import LanguageRelay.Frame.Writer
import LanguageRelay.Host.Environment
import LanguageRelay.Host.FileSystem
import LanguageRelay.Host.IoError
import LanguageRelay.Http.Routes
import LanguageRelay.Json.Number
import LanguageRelay.Json.Printer
import LanguageRelay.Json.Reader
import LanguageRelay.Json.Syntax
import LanguageRelay.Json.Token
import LanguageRelay.Json.Value
import LanguageRelay.Keyed
import LanguageRelay.Launch.Entry
import LanguageRelay.Launch.Spec
import LanguageRelay.Listener.Chain
import LanguageRelay.Listener.Onboarding
import LanguageRelay.Listener.Scripted
import LanguageRelay.Listener.Shadow
import LanguageRelay.Main
import LanguageRelay.Message.Basic
import LanguageRelay.Message.Event
import LanguageRelay.Mirror.Plan
import LanguageRelay.Mirror.Writer
import LanguageRelay.Net.Address
import LanguageRelay.Path.Basic
import LanguageRelay.Path.Bytes
import LanguageRelay.Pattern.Basic
import LanguageRelay.Pattern.Classes
import LanguageRelay.Pattern.Parser
import LanguageRelay.Proofs.Datum.Readers
import LanguageRelay.Proofs.Document.Batch
import LanguageRelay.Proofs.Frame.Grammar
import LanguageRelay.Proofs.Frame.Limited
import LanguageRelay.Proofs.Frame.Resumption
import LanguageRelay.Proofs.Frame.RoundTrip
import LanguageRelay.Proofs.Http.Mounting
import LanguageRelay.Proofs.Json.ReadBack
import LanguageRelay.Proofs.Json.Scanning
import LanguageRelay.Proofs.Listener.Composition
import LanguageRelay.Proofs.Listener.Onboarding
import LanguageRelay.Proofs.Listener.Transparency
import LanguageRelay.Proofs.Message.Faithful
import LanguageRelay.Proofs.Mirror.Refinement
import LanguageRelay.Proofs.Relay.Bookkeeping
import LanguageRelay.Proofs.Relay.ClientOrder
import LanguageRelay.Proofs.Relay.Detached
import LanguageRelay.Proofs.Relay.Endings
import LanguageRelay.Proofs.Relay.Eviction
import LanguageRelay.Proofs.Relay.FanOut
import LanguageRelay.Proofs.Relay.Grace
import LanguageRelay.Proofs.Relay.LastWord
import LanguageRelay.Proofs.Relay.Loss
import LanguageRelay.Proofs.Relay.Shutdown
import LanguageRelay.Proofs.Relay.Snapshot
import LanguageRelay.Proofs.Relay.SocketLoop
import LanguageRelay.Proofs.Relay.Succession
import LanguageRelay.Proofs.Relay.Termination
import LanguageRelay.Proofs.Rehearsal.Runs
import LanguageRelay.Proofs.Settings.Accepted
import LanguageRelay.Proofs.Settings.Expanded
import LanguageRelay.Proofs.Settings.Sheltered
import LanguageRelay.Proofs.Status.RoundTrip
import LanguageRelay.Rehearsal.Client
import LanguageRelay.Rehearsal.Launch
import LanguageRelay.Rehearsal.Schedule
import LanguageRelay.Rehearsal.Stage
import LanguageRelay.Relay.Connection
import LanguageRelay.Relay.Delivery
import LanguageRelay.Relay.Machine
import LanguageRelay.Relay.Managing
import LanguageRelay.Relay.Refusal
import LanguageRelay.Relay.Server
import LanguageRelay.Relay.Session
import LanguageRelay.Relay.Sockets
import LanguageRelay.Relay.Starting
import LanguageRelay.Relay.Step
import LanguageRelay.Relay.Stopping
import LanguageRelay.Relay.Subscribing
import LanguageRelay.Relay.Task
import LanguageRelay.Settings.BaseUrl
import LanguageRelay.Settings.Basic
import LanguageRelay.Settings.Expansion
import LanguageRelay.Settings.Load
import LanguageRelay.Settings.ShadowDirectory
import LanguageRelay.Shell.Arithmetic
import LanguageRelay.Shell.Condition
import LanguageRelay.Shell.Expansion
import LanguageRelay.Shell.Format
import LanguageRelay.Shell.Grammar
import LanguageRelay.Shell.Image
import LanguageRelay.Shell.Process
import LanguageRelay.Shell.Step
import LanguageRelay.Shell.Syntax
import LanguageRelay.Shell.Token
import LanguageRelay.Shell.Transfer
import LanguageRelay.Status.Report
import LanguageRelay.Status.State
import LanguageRelay.Text.Blank
import LanguageRelay.Text.Bytes
import LanguageRelay.Text.Category
import LanguageRelay.Text.Lossy
import LanguageRelay.Text.Natural
import LanguageRelay.Text.Printable
import LanguageRelay.Text.Property
import LanguageRelay.Text.Quoted
import LanguageRelay.Text.Runs
import LanguageRelay.Text.Script
import LanguageRelay.Text.Split
import LanguageRelay.Text.Units
import LanguageRelay.Toml.Reader
import LanguageRelay.Toml.Scalar
import LanguageRelay.Toml.Text
import LanguageRelay.Toml.Tree
import LanguageRelay.Uri.FilePath
import LanguageRelay.Uri.Parser
