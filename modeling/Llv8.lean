import Llv8.Hydrogen
import Llv8.LLVMIR
import Llv8.Builder
import Llv8.Chunk
import Llv8.Parameter
import Llv8.Representation
import Llv8.Compare
import Llv8.Steps
import Llv8.Frame
import Llv8.Arithmetic
import Llv8.Triple
import Llv8.Environment
import Llv8.Materialize
import Llv8.Visits
import Llv8.ControlFlow
import Llv8.Sharing
import Llv8.Join
import Llv8.Semantics
import Llv8.Session
import Llv8.WellFormed
import Llv8.Execution
import Llv8.Replay
import Llv8.Completion
