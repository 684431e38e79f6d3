import Scriptlet.Heap.Observe
import Scriptlet.Main
import Scriptlet.Native.Toolkit
import Scriptlet.Proofs.Batch
import Scriptlet.Proofs.Blind
import Scriptlet.Proofs.Confinement
import Scriptlet.Proofs.Elements
import Scriptlet.Proofs.Fault.Code
import Scriptlet.Proofs.Fault.Located
import Scriptlet.Proofs.Fault.Sessions
import Scriptlet.Proofs.Footprint
import Scriptlet.Proofs.Handles
import Scriptlet.Proofs.Handles.Chains
import Scriptlet.Proofs.Handles.Evaluation
import Scriptlet.Proofs.Handles.Layers
import Scriptlet.Proofs.Handles.Spares
import Scriptlet.Proofs.Layout
import Scriptlet.Proofs.Lines
import Scriptlet.Proofs.Paint.Brackets
import Scriptlet.Proofs.Paint.Exact
import Scriptlet.Proofs.Paint.Exchange
import Scriptlet.Proofs.Paint.Mirror
import Scriptlet.Proofs.Paint.Pairs
import Scriptlet.Proofs.Paint.Runs
import Scriptlet.Proofs.Paint.Shared
import Scriptlet.Proofs.Paint.Shown
import Scriptlet.Proofs.Paint.Simulation
import Scriptlet.Proofs.Paint.Tags
import Scriptlet.Proofs.Paint.Tracked
import Scriptlet.Proofs.Paint.Visits
import Scriptlet.Proofs.Parts
import Scriptlet.Proofs.Positions
import Scriptlet.Proofs.Printing
import Scriptlet.Proofs.Reader.Blame
import Scriptlet.Proofs.Reader.Blind
import Scriptlet.Proofs.Reader.Bounds
import Scriptlet.Proofs.Reader.Complete
import Scriptlet.Proofs.Reader.Extents
import Scriptlet.Proofs.Reader.Failures
import Scriptlet.Proofs.Reader.Grammar
import Scriptlet.Proofs.Reader.Isolation
import Scriptlet.Proofs.Reader.Join
import Scriptlet.Proofs.Reader.Ladder
import Scriptlet.Proofs.Reader.Law
import Scriptlet.Proofs.Reader.Literals
import Scriptlet.Proofs.Reader.Modes
import Scriptlet.Proofs.Reader.Names
import Scriptlet.Proofs.Reader.Pieces
import Scriptlet.Proofs.Reader.Places
import Scriptlet.Proofs.Reader.Sentence
import Scriptlet.Proofs.Reader.Spans
import Scriptlet.Proofs.Reader.Walk
import Scriptlet.Proofs.Reader.Window
import Scriptlet.Proofs.Reader.Written
import Scriptlet.Proofs.Repetition
import Scriptlet.Proofs.Shape
import Scriptlet.Proofs.Sharing
import Scriptlet.Proofs.Spelling
import Scriptlet.Proofs.Stack
import Scriptlet.Proofs.Token.Coverage
import Scriptlet.Proofs.Token.Join
import Scriptlet.Proofs.Token.Lines
import Scriptlet.Proofs.Token.Rescan
import Scriptlet.Proofs.Token.Values
import Scriptlet.Proofs.Trace
import Scriptlet.Proofs.Trace.Bounds
import Scriptlet.Proofs.Trace.Laws
import Scriptlet.Proofs.Trace.Returns
import Scriptlet.Proofs.Trace.Steps
import Scriptlet.Proofs.Underline
import Scriptlet.Proofs.Watch
import Scriptlet.Tree.Form
