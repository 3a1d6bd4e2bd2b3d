import Shebang.CommandLine.Run
import Shebang.Config.Source
import Shebang.Detect
import Shebang.FileSystem.Tree
import Shebang.Injection
import Shebang.Input
import Shebang.Log.Format
import Shebang.Log.Root
import Shebang.Main
import Shebang.Markdown
import Shebang.Proofs.Acceptance
import Shebang.Proofs.Agreement
import Shebang.Proofs.Ambiguity
import Shebang.Proofs.Bounds
import Shebang.Proofs.ByteRanges
import Shebang.Proofs.Candidates
import Shebang.Proofs.Coloring
import Shebang.Proofs.Composition
import Shebang.Proofs.Decision
import Shebang.Proofs.Fields
import Shebang.Proofs.FirstLine
import Shebang.Proofs.Grammar
import Shebang.Proofs.Growth
import Shebang.Proofs.Layers
import Shebang.Proofs.LineEndings
import Shebang.Proofs.LineLimit
import Shebang.Proofs.Loading
import Shebang.Proofs.LogSetup
import Shebang.Proofs.Missing
import Shebang.Proofs.Partition
import Shebang.Proofs.Recognition
import Shebang.Proofs.Records
import Shebang.Proofs.Registration
import Shebang.Proofs.Regrouping
import Shebang.Proofs.Repetition
import Shebang.Proofs.Representation
import Shebang.Proofs.Rereading
import Shebang.Proofs.RoundTrip
import Shebang.Proofs.Splice
import Shebang.Proofs.Split
import Shebang.Proofs.Startup
import Shebang.Proofs.Summary
import Shebang.Proofs.Surfacing
import Shebang.Proofs.Tables
import Shebang.Proofs.Trails
import Shebang.Proofs.Unrecorded
import Shebang.Script.Json
import Shebang.Settings
import Shebang.Terminal.Console
import Shebang.Version
