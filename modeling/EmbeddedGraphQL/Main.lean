import EmbeddedGraphQL.CommandLine.Run

/-!
# Running the program

The files below the working directory, and what stands next to the directories above it, are read
into a file tree. The program runs on that tree; what it writes is printed or written to files. No
other program is started, so the analysis tool never answers.
-/

namespace EmbeddedGraphQL

/-- The text of a file, if its bytes form one. -/
def readTextAt (path : String) : IO (Option String) := do
  try return some (← IO.FS.readFile path) catch _ => return none

/-- How many levels of directories are read. -/
def maxTreeDepth : Nat := 64

/-- What stands at and below a path, at most so many levels down. -/
def readBelow : Nat → String → Place → IO (List (Place × FileEntry))
  | 0, _, _ => return []
  | depth + 1, path, place => do
    let real ← IO.FS.realPath path
    if ← real.isDir then
      let children ← real.readDir
      let inside ← children.toList.mapM fun child =>
        readBelow depth (path ++ "/" ++ child.fileName) (place ++ [child.fileName])
      return (place, .directory) :: inside.flatten
    else return [(place, .file (← readTextAt path))]

/-- What stands in a directory above the working directory. Only configuration files are read. -/
def readAbove (place : Place) : IO (List (Place × FileEntry)) := do
  let real ← IO.FS.realPath place.path
  let children ← real.readDir
  children.toList.mapM fun child => do
    let below := place ++ [child.fileName]
    if ← child.path.isDir then return (below, .directory)
    else if child.fileName ∈ configNames then return (below, .file (← readTextAt below.path))
    else return (below, .file none)

/-- The file tree that the program sees. -/
def readTree : IO FileTree := do
  let working := Place.ofPath [] (← IO.currentDir).toString
  let above ← (List.range working.length).mapM fun n => readAbove (working.take n)
  let below ← readBelow maxTreeDepth working.path working
  let outside := above.flatten.filter fun (place, _) => place != working
  return ⟨working, outside ++ below⟩

end EmbeddedGraphQL

open EmbeddedGraphQL in
/-- Runs the program. -/
def main (arguments : List String) : IO UInt32 := do
  let outcome := runProgram (← readTree) (fun _ => .notStarted) arguments
  for (path, text) in outcome.files do
    IO.FS.writeFile path text
  IO.print outcome.output
  IO.eprint outcome.problems
  return outcome.status.toUInt32
