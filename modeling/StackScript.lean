import StackScript.Main
import StackScript.Proofs.Grammar.ViablePrefix
import StackScript.Proofs.Run.LimitedOutput
import StackScript.Proofs.Run.RaisedLimits
import StackScript.Proofs.Run.ScopeChain
import StackScript.Proofs.Run.StackFrame
import StackScript.Proofs.Scopes.Arena
import StackScript.Proofs.Source.Trees
import StackScript.Proofs.Lexis.Lines
import StackScript.Proofs.Grammar.Following
import StackScript.Proofs.Source.Joined
import StackScript.Proofs.Run.Unreached
import StackScript.Proofs.Renaming
import StackScript.Proofs.Heap
import StackScript.Proofs.Run.Session
import StackScript.Proofs.Run.Renaming
import StackScript.Proofs.Run.CallDepth
import StackScript.Proofs.Run.Values
import StackScript.Proofs.Run.Faults
import StackScript.Proofs.Run.Integers
import StackScript.Proofs.Run.TextSizes
import StackScript.Proofs.Run.Reached
import StackScript.Proofs.Run.Events
import StackScript.Proofs.Run.Loopless
import StackScript.Proofs.Run.LoopConditions
import StackScript.Proofs.Run.CallLog
import StackScript.Proofs.CommandLine
import StackScript.Proofs.CommandLine.Logging
import StackScript.Proofs.Run.EmptyScope
import StackScript.Proofs.Run.Conditionals
import StackScript.Proofs.Lexis.Division
import StackScript.Proofs.Source.ErrorLines
import StackScript.Proofs.Heap.Storing
import StackScript.Proofs.Run.StraightLine
import StackScript.Proofs.Heap.Loading
import StackScript.Proofs.Operation.FloorDivision
import StackScript.Proofs.Run.Remainder
import StackScript.Proofs.Run.Wrapping
import StackScript.Proofs.Operation.TextLimit
import StackScript.Proofs.Source.Edits
import StackScript.Proofs.Source.Recased
import StackScript.Proofs.Program
import StackScript.Proofs.Binary64.Text
import StackScript.Proofs.CommandLine.Options
