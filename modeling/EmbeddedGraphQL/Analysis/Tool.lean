import EmbeddedGraphQL.Config.Find
import EmbeddedGraphQL.Json.Number
import EmbeddedGraphQL.Json.Read
import EmbeddedGraphQL.Position
import EmbeddedGraphQL.Text.Blank

/-!
# The analysis tool

Questions about the host language are put to another program. It is run in the root of the project
that a file belongs to, with the request, the file and a position, and prints one JSON value.

What the program answers is not decided here: a `Tool` says for each call how it turns out.

* `ToolCall`, `ToolOutcome`, `Tool`: running the program.
* `AnalysisError`: why there is no answer.
* `AnalysisSettings.run`: the value the program prints for a request.
-/

namespace EmbeddedGraphQL

/-- The requests the program understands. -/
inductive AnalysisRequest where
  /-- What is shown for the value at a position. -/
  | hover
  /-- Where the type of the value at a position is defined. -/
  | typeDefinition
deriving DecidableEq

/-- The name of a request on the command line. -/
def AnalysisRequest.name : AnalysisRequest → String
  | .hover => "hover"
  | .typeDefinition => "typeDefinition"

/-- A call of the program. -/
structure ToolCall where
  /-- The program. -/
  command : String
  /-- What it is asked for. -/
  request : AnalysisRequest
  /-- The file, as an absolute path. -/
  file : String
  /-- The position in the file. -/
  position : Position
  /-- The directory it is run in. -/
  directory : String
deriving DecidableEq

/-- How a call turns out. -/
inductive ToolOutcome where
  /-- The program cannot be started. -/
  | notStarted
  /-- The program does not end in time. -/
  | timedOut
  /-- The program ends with a status, having written two texts. -/
  | finished (status : Nat) (output errors : String)
deriving DecidableEq

/-- How calls of the program turn out. -/
abbrev Tool := ToolCall → ToolOutcome

/-- Why there is no answer. -/
inductive AnalysisError where
  /-- The program cannot be started. -/
  | notStarted
  /-- The program does not end within so many milliseconds. -/
  | timedOut (milliseconds : Nat)
  /-- The program fails with a status and a text. -/
  | failed (command : String) (status : Nat) (errors : String)
  /-- What the program prints is no answer. -/
  | badOutput
deriving DecidableEq

/-- A span of time: in milliseconds below a second, else in seconds, with as many decimal places
as it needs. -/
def timeSpan (milliseconds : Nat) : String :=
  if milliseconds < 1000 then toString milliseconds ++ "ms"
  else
    let digits := (toString (1000 + milliseconds % 1000)).toList.drop 1
    let places := (digits.reverse.dropWhile (· = '0')).reverse
    let fraction := if places.isEmpty then "" else "." ++ String.ofList places
    toString (milliseconds / 1000) ++ fraction ++ "s"

/-- The text of an error, if it has one of its own. -/
def AnalysisError.message : AnalysisError → Option String
  | .notStarted => none
  | .timedOut milliseconds => some ("Analysis command timed out after " ++ timeSpan milliseconds)
  | .failed command status errors =>
    some ("Analysis command failed: " ++ command ++ " exited with exit status: " ++
      toString status ++ ": " ++ Text.trimString errors)
  | .badOutput => none

/-- How many lists and objects may stand inside one another in what the program prints. -/
def outputDepth : Nat := 127

/-- The value the program prints. All of it has to be readable. -/
def outputValue (output : String) : Except AnalysisError Json :=
  match Json.parseWithin? outputDepth output >>= Json.settle? with
  | some value => .ok value
  | none => .error .badOutput

/-- The value the program prints for a request about a position in a file; none for a file outside
of any project. -/
def AnalysisSettings.run (settings : AnalysisSettings) (tool : Tool) (tree : FileTree)
    (request : AnalysisRequest) (file : String) (position : Position) :
    Except AnalysisError (Option Json) :=
  let file := tree.absolute file
  match tree.projectRoot? file settings.projectMarker with
  | none => .ok none
  | some root =>
    match tool ⟨settings.command, request, file, position, root⟩ with
    | .notStarted => .error .notStarted
    | .timedOut => .error (.timedOut settings.timeoutMs)
    | .finished status output errors =>
      if status = 0 then (outputValue output).map some
      else .error (.failed settings.command status errors)

end EmbeddedGraphQL
