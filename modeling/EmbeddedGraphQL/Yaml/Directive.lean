import EmbeddedGraphQL.Text.Decimal
import EmbeddedGraphQL.Yaml.Property

/-!
# Directives of YAML

In front of a document may stand lines that start with a percent sign: one tells the version of the
format, the others tell what handles of tags stand for.

* `Directive.read?`: the directive on a line.
* `Directive.handles?`: the handles of a document with some directives.
-/

namespace EmbeddedGraphQL
namespace Yaml

/-- A directive. -/
inductive Directive where
  /-- The version of the format. -/
  | version (major minor : Nat)
  /-- What a handle of tags stands for. -/
  | handle (name meaning : String)
deriving DecidableEq

namespace Directive

/-- The most digits that a part of a version may have. -/
def maxVersionDigits : Nat := 9

/-- A part of a version. -/
def versionPart? (text : List Char) : Option (Nat × List Char) :=
  let digits := text.takeWhile Char.isDigit
  if digits.isEmpty || maxVersionDigits < digits.length then none
  else some (Decimal.digitsValue digits, text.dropWhile Char.isDigit)

/-- The version at the start of a text. -/
def version? (text : List Char) : Option (Directive × List Char) := do
  let (major, rest) ← versionPart? text
  match rest with
  | '.' :: rest =>
    let (minor, rest) ← versionPart? rest
    return (.version major minor, rest)
  | _ => none

/-- A handle and what it stands for, at the start of a text. -/
def handle? (text : List Char) : Option (Directive × List Char) := do
  let (name, rest) ← Property.handle? text
  if !(name = "!" || Property.isClosed name) || !rest.head?.any isBlank then none
  let (meaning, rest) ← Property.someTagChars? true (rest.dropWhile isBlank)
  if endsWord rest then some (.handle name meaning, rest) else none

/-- The directive after a percent sign. -/
def read? (text : List Char) : Option (Directive × List Char) :=
  let name := text.takeWhile Property.isNameChar
  let rest := text.dropWhile Property.isNameChar
  let value := rest.dropWhile isBlank
  if !endsWord rest then none
  else if name = ['Y', 'A', 'M', 'L'] then version? value
  else if name = ['T', 'A', 'G'] then handle? value
  else none

/-! ## The directives of a document -/

/-- Whether documents of a version can be read. -/
def isKnownVersion (major minor : Nat) : Bool := major = 1 && (minor = 1 || minor = 2)

/-- The version that a directive tells. -/
def versionOf? : Directive → Option (Nat × Nat)
  | .version major minor => some (major, minor)
  | .handle _ _ => none

/-- The handle that a directive is about, with what it stands for. -/
def handleOf? : Directive → Option (String × String)
  | .version _ _ => none
  | .handle name meaning => some (name, meaning)

/-- What handles stand for where no directive tells. -/
def defaultHandles : List (String × String) := [("!", "!"), ("!!", "tag:yaml.org,2002:")]

/-- What handles stand for in a document with some directives. There is one version at most, which
has to be known, and no handle is told about twice. -/
def handles? (directives : List Directive) : Option (List (String × String)) :=
  let versions := directives.filterMap versionOf?
  let told := directives.filterMap handleOf?
  let names := told.map (·.1)
  if versions.length ≤ 1 && versions.all (fun (major, minor) => isKnownVersion major minor) &&
      names.eraseDups.length = names.length then
    some (told ++ defaultHandles)
  else none

end Directive
end Yaml
end EmbeddedGraphQL
