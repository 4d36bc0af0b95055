import EmbeddedGraphQL.CommandLine.Arguments
import EmbeddedGraphQL.CommandLine.Context
import EmbeddedGraphQL.CommandLine.Edit

/-!
# The program

The program reads its arguments and carries out what they ask for. All it sees of the world are a
file tree and the analysis tool.

* `Command.run`: what a command leads to.
* `runProgram`: what arguments lead to.
-/

namespace EmbeddedGraphQL

/-- What the program says about its version. -/
def versionLine : String := "graphql-embed 0.1.1\n"

/-- What the program says about arguments it does not understand. -/
def usageLine : String := "Usage: graphql-embed [OPTIONS] <COMMAND>\n"

/-- What a command leads to. -/
def Command.run (tree : FileTree) (tool : Tool) (config : Option String) (command : Command) :
    Outcome :=
  .ofExcept <|
    match command with
    | .extract path style => extractCommand tree config path style
    | .context file position record style => contextCommand tree config file position record style
    | .hover file position style => hoverCommand tree tool config file position style
    | .format file write => formatCommand tree config file write
    | .addField file position record field =>
      addFieldCommand tree config file position record field
    | .extractFragment file position lines name =>
      extractFragmentCommand tree config file position lines name
    | .paginate file position record => paginateCommand tree config file position record

/-- What arguments lead to. -/
def runProgram (tree : FileTree) (tool : Tool) (arguments : List String) : Outcome :=
  match Request.parse? arguments with
  | none => { status := 2, problems := usageLine }
  | some .version => { output := versionLine }
  | some (.run config command) => command.run tree tool config

end EmbeddedGraphQL
