import LineScript.Action
import LineScript.Binary64
import LineScript.Command
import LineScript.Command.Call
import LineScript.Command.Probe
import LineScript.Command.Standard
import LineScript.CommandLine.Arguments
import LineScript.CommandLine.Help
import LineScript.CommandLine.Session
import LineScript.Condition
import LineScript.Config
import LineScript.Config.Reader
import LineScript.Engine.Admission
import LineScript.Engine.Basic
import LineScript.Engine.Host
import LineScript.Engine.Machine
import LineScript.Engine.Runner
import LineScript.Engine.Statement
import LineScript.Expansion
import LineScript.Expr.Arithmetic
import LineScript.Expr.Evaluate
import LineScript.Expr.Function
import LineScript.Files.Error
import LineScript.Files.Tree
import LineScript.Files.Wildcard
import LineScript.Files.WildcardSize
import LineScript.History
import LineScript.Json.Basic
import LineScript.Json.Printer
import LineScript.Json.Reader
import LineScript.Line
import LineScript.Listing
import LineScript.Load.Builder
import LineScript.Load.Keyword
import LineScript.Load.Layout
import LineScript.Load.Problem
import LineScript.Load.Program
import LineScript.Load.Reference
import LineScript.Loop.Context
import LineScript.Loop.Fields
import LineScript.Loop.Folder
import LineScript.Loop.Keys
import LineScript.Loop.Lines
import LineScript.Main
import LineScript.Name
import LineScript.Problem
import LineScript.ProgramFile
import LineScript.Registry.Root
import LineScript.Registry.Store
import LineScript.Report
import LineScript.Scratch
import LineScript.Script
import LineScript.Statement
import LineScript.Text.Basic
import LineScript.Text.Fold
import LineScript.Text.Letter
import LineScript.Text.Lower
import LineScript.Text.Runs
import LineScript.Text.Scan
import LineScript.Text.Utf8
import LineScript.Thread
import LineScript.Timer
import LineScript.Token.Basic
import LineScript.Token.Lexer
import LineScript.Toml.Basic
import LineScript.Toml.Reader
import LineScript.Trigger
import LineScript.Value
import LineScript.Variables
import LineScript.Word
import LineScript.World
import LineScript.Proofs.Text.Offsets
import LineScript.Proofs.Load.Grammar
import LineScript.Proofs.Load.Reading
import LineScript.Proofs.Load.Links
import LineScript.Proofs.Load.Arranged
import LineScript.Proofs.Load.Acceptance
import LineScript.Proofs.Engine.Worked
import LineScript.Proofs.Engine.Outcome
import LineScript.Proofs.Engine.Unwinding
import LineScript.Proofs.Engine.Reachable
import LineScript.Proofs.Engine.Restored
import LineScript.Proofs.Load.Loaded
import LineScript.Proofs.Load.Enclosing
import LineScript.Proofs.Engine.Coverage
import LineScript.Proofs.Engine.Jumping
import LineScript.Proofs.Structured.Blind
import LineScript.Proofs.Structured.Simulation
import LineScript.Proofs.Structured.Tree
import LineScript.Proofs.Structured.Loading
import LineScript.Proofs.Structured.Meaning
import LineScript.Proofs.Load.WellLinked
import LineScript.Proofs.Load.JumpScope
import LineScript.Proofs.Engine.Spared
import LineScript.Proofs.Engine.Ended
import LineScript.Proofs.Engine.Logged
import LineScript.Proofs.Engine.Queue
import LineScript.Proofs.Engine.Stacked
import LineScript.Proofs.Engine.Bounds
import LineScript.Proofs.Expr.Climbing
import LineScript.Proofs.Expr.Scanning
import LineScript.Proofs.Expr.Naming
import LineScript.Proofs.Expr.Printing
import LineScript.Proofs.Load.References
import LineScript.Proofs.Engine.Room
import LineScript.Proofs.Engine.Touched
import LineScript.Proofs.Engine.Seen
import LineScript.Proofs.Engine.Alone
import LineScript.Proofs.Engine.Apart
import LineScript.Proofs.Engine.Transparent
import LineScript.Proofs.Load.Arguments
import LineScript.Proofs.Engine.Labels
import LineScript.Proofs.Load.Sites
import LineScript.Proofs.Load.InRange
import LineScript.Proofs.Engine.InRange
import LineScript.Proofs.Variables.Requests
import LineScript.Proofs.Variables.ReadOnly
import LineScript.Proofs.Text.Numbers
import LineScript.Proofs.Text.Pieces
import LineScript.Proofs.Variables.Names
import LineScript.Proofs.Engine.FreeText
import LineScript.Proofs.Engine.Ceiling
import LineScript.Proofs.Engine.Notations
import LineScript.Proofs.Loop.Kinds
import LineScript.Proofs.Engine.Failing
import LineScript.Proofs.Load.Declared
import LineScript.Proofs.Expr.Retracing
import LineScript.Proofs.Expr.Skipped
import LineScript.Proofs.Expr.Tiling
import LineScript.Proofs.Engine.Operands
import LineScript.Proofs.Registry.Filed
import LineScript.Proofs.Registry.Stored
import LineScript.Proofs.Loop.Draining
import LineScript.Proofs.Loop.Fields
import LineScript.Proofs.Condition.Lists
import LineScript.Proofs.Files.Paths
import LineScript.Proofs.Loop.Lines
import LineScript.Proofs.Loop.Tours
import LineScript.Proofs.Loop.Folders
import LineScript.Proofs.Registry.Asked
import LineScript.Proofs.Loop.Keys
import LineScript.Proofs.Text.Utf8
import LineScript.Proofs.Loop.Texts
import LineScript.Proofs.Timer.Spacing
import LineScript.Proofs.Engine.Planned
import LineScript.Proofs.Engine.Again
import LineScript.Proofs.Engine.Meeting
import LineScript.Proofs.Binary64.Nearest
import LineScript.Proofs.Binary64.Integers
import LineScript.Proofs.Binary64.Wholes
import LineScript.Proofs.Condition.Between
import LineScript.Proofs.Expr.Division
import LineScript.Proofs.Expr.Powers
import LineScript.Proofs.Text.Places
import LineScript.Proofs.Expr.Positions
import LineScript.Proofs.Expr.Rounding
import LineScript.Proofs.Engine.Suspending
