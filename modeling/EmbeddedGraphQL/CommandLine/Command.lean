import EmbeddedGraphQL.Position

/-!
# Commands

What the program can be asked to do.
-/

namespace EmbeddedGraphQL

/-- How results are shown. -/
inductive OutputStyle where
  /-- For people. -/
  | human
  /-- As JSON. -/
  | json
deriving DecidableEq

/-- What the program can be asked to do. Lines and characters are those of the host file. -/
inductive Command where
  /-- List the regions of a file or of the files in a directory. -/
  | extract (path : String) (style : OutputStyle)
  /-- Describe the record of a path in the region at a position. -/
  | context (file : String) (position : Position) (record : String) (style : OutputStyle)
  /-- Describe the record that the analysis tool names at a position. -/
  | hover (file : String) (position : Position) (style : OutputStyle)
  /-- Reprint every region of a file, in place or not. -/
  | format (file : String) (write : Bool)
  /-- Add a field to the record of a path in the region at a position. -/
  | addField (file : String) (position : Position) (record field : String)
  /-- Move the selections on some lines of the region at a position into a fragment. -/
  | extractFragment (file : String) (position : Position) (lines : LineRange) (name : String)
  /-- Set up pagination of the record of a path in the region at a position. -/
  | paginate (file : String) (position : Position) (record : String)
deriving DecidableEq

/-- A request to the program. -/
inductive Request where
  /-- Show the version. -/
  | version
  /-- Carry out a command, with the configuration file that was given. -/
  | run (config : Option String) (command : Command)
deriving DecidableEq

end EmbeddedGraphQL
