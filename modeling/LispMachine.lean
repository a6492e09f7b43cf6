import LispMachine.Decimal.Shortest
import LispMachine.Decimal.Nearest
import LispMachine.Decimal.Spelling
import LispMachine.Number
import LispMachine.Value
import LispMachine.Word
import LispMachine.Text.Blank
import LispMachine.Text.Printable
import LispMachine.Text.Rune
import LispMachine.Text.Quoted
import LispMachine.Text.Control
import LispMachine.Text.Integer
import LispMachine.Source.Cursor
import LispMachine.Source.Scanner
import LispMachine.Source.Form
import LispMachine.Source.Atom
import LispMachine.Heap.Cell
import LispMachine.Heap.Table
import LispMachine.Heap.Collect
import LispMachine.Machine.Stack
import LispMachine.Machine.State
import LispMachine.Machine.Alloc
import LispMachine.Machine.Collector
import LispMachine.Machine.Access
import LispMachine.Machine.Render
import LispMachine.Machine.Lists
import LispMachine.Machine.Errors
import LispMachine.Machine.Threads
import LispMachine.Machine.Scopes
import LispMachine.Machine.Params
import LispMachine.Eval.Core
import LispMachine.Eval.Forms
import LispMachine.Eval.Pairs
import LispMachine.Eval.Handlers
import LispMachine.Eval.Arithmetic
import LispMachine.Eval.Namespaces
import LispMachine.Eval.Primitives
import LispMachine.Eval.Evaluate
import LispMachine.Machine.Read
import LispMachine.Repl.Install
import LispMachine.Repl.Loop
import LispMachine.Repl.Pairs
import LispMachine.Repl.Prelude
import LispMachine.Calendar
import LispMachine.Stats.Cbor
import LispMachine.Stats.Codec
import LispMachine.Stats.Instant
import LispMachine.Stats.Item
import LispMachine.Stats.Report
import LispMachine.Machine.Settings
import LispMachine.Machine.Inspect
import LispMachine.Manifest.Path
import LispMachine.Manifest.Duration
import LispMachine.Manifest.Toml.Moment
import LispMachine.Manifest.Toml.Quoted
import LispMachine.Manifest.Toml.Term
import LispMachine.Manifest.Toml.Line
import LispMachine.Manifest.Toml.Draft
import LispMachine.Manifest.Toml.Field
import LispMachine.Manifest.Settings
import LispMachine.Command.Options
import LispMachine.Command.Line
import LispMachine.Command.Host
import LispMachine.Command.FileTree
import LispMachine.Command.Memory
import LispMachine.Command.Interactive
import LispMachine.Command.Run
import LispMachine.Main
import LispMachine.Proofs.Collection
import LispMachine.Proofs.Conformance
import LispMachine.Proofs.Likeness
import LispMachine.Proofs.Lists
import LispMachine.Proofs.Nesting
import LispMachine.Proofs.Simulation
import LispMachine.Proofs.Simulation.Access
import LispMachine.Proofs.Simulation.Lists
import LispMachine.Proofs.Simulation.Operations
import LispMachine.Proofs.Simulation.Params
import LispMachine.Proofs.Simulation.Primitives
import LispMachine.Proofs.Simulation.Read
import LispMachine.Proofs.Unobservable
import LispMachine.Proofs.Boxed
import LispMachine.Proofs.Retention
import LispMachine.Proofs.Balance
import LispMachine.Proofs.Hygiene
import LispMachine.Proofs.Catching
import LispMachine.Proofs.Words
import LispMachine.Proofs.Bookkeeping
import LispMachine.Proofs.Following
import LispMachine.Proofs.Handlers
import LispMachine.Proofs.Tokens
import LispMachine.Proofs.Scanning
import LispMachine.Proofs.Frames
import LispMachine.Proofs.Grammar
import LispMachine.Proofs.Runes
import LispMachine.Proofs.Consumption
import LispMachine.Proofs.Data
import LispMachine.Proofs.Rounding
import LispMachine.Proofs.Atoms
import LispMachine.Proofs.Numerals
import LispMachine.Proofs.Sequel
import LispMachine.Proofs.Building
import LispMachine.Proofs.Storing
import LispMachine.Proofs.Steps
import LispMachine.Proofs.Steps.Evaluation
import LispMachine.Proofs.Interning
import LispMachine.Proofs.Passes
import LispMachine.Proofs.Sharing
import LispMachine.Proofs.Printing
import LispMachine.Proofs.Rereading
import LispMachine.Proofs.Identity
import LispMachine.Proofs.Laying
import LispMachine.Proofs.Visibility
import LispMachine.Proofs.Arguments
import LispMachine.Proofs.Sections
import LispMachine.Proofs.Arithmetic
import LispMachine.Proofs.StackFrames
import LispMachine.Proofs.Promoting
import LispMachine.Proofs.Defining
import LispMachine.Proofs.Assigning
import LispMachine.Proofs.Exactness
import LispMachine.Proofs.Equality
import LispMachine.Proofs.Telling
import LispMachine.Proofs.Items
import LispMachine.Proofs.Reports
