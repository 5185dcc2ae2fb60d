import Requisite.Category
import Requisite.Text.Blank
import Requisite.Text.Quoted
import Requisite.Version

/-!
# Errors

Everything that can go wrong, by its cause, and the one place where causes are put into words.
-/
namespace Requisite

inductive Error where
  /-- A text is no version. -/
  | invalidVersion (text : String)
  /-- An entry of a catalog ends before it begins. -/
  | invertedRange (category : Category) (name : String) (min max : Version)
  /-- A text is not the name of a category. -/
  | unknownCategory (text : String)
  /-- A text is not the name of a symbol. -/
  | invalidName (text : String)
  /-- A text is no version filter. -/
  | invalidFilter (text : String)
  /-- The text of a catalog does not have its form. -/
  | malformedCatalog
  /-- The text of a syntax tree does not have its form. -/
  | malformedTree (path : String)
  /-- The text of a settings file does not have its form. -/
  | malformedSettings (path : String)
  /-- A file cannot be read. -/
  | unreadableFile (path : String) (reason : String)
  /-- The catalog could not be loaded. -/
  | catalogNotLoaded (path : String)
  /-- There is no catalog to look anything up in. -/
  | noCatalog
  /-- The threads that trees are loaded with cannot be started. -/
  | noThreadPool (reason : String)
  /-- The directory of the log cannot be made. -/
  | noLogDirectory (path : String)
deriving DecidableEq, Repr

namespace Error

/-- The wording of an error. -/
def message : Error → String
  | .invalidVersion text => s!"Invalid version string: {Text.quoted text}"
  | .invertedRange category name min max =>
    s!"Invalid range for {category} {name}: {min} is greater than {max}"
  | .unknownCategory text => s!"Unknown category: {Text.quoted text}"
  | .invalidName text => s!"Invalid name: {Text.quoted text}"
  | .invalidFilter text =>
    s!"Invalid version filter {Text.quoted text}, expected e.g. \">=5.4.0\""
  | .malformedCatalog => "Malformed catalog"
  | .malformedTree path => s!"Malformed syntax tree in {Text.quoted path}"
  | .malformedSettings path => s!"Invalid configuration in {Text.quoted path}"
  | .unreadableFile path reason => s!"I/O error while reading {Text.quoted path}: {reason}"
  | .catalogNotLoaded path => s!"Failed to load reference catalog {path}"
  | .noCatalog => "No reference catalog given, use --reference or a config file"
  | .noThreadPool reason => s!"Failed to build the loader thread pool: {reason}"
  | .noLogDirectory path => s!"Failed to create log directory {path}"

end Error

/-- Reads a version; the error shows the text as it was given. -/
def Version.parse (text : String) : Except Error Version :=
  match Version.parse? text with
  | some v => .ok v
  | none => .error (.invalidVersion text)

/-- Reads the name of a category in any case, with white space around it. -/
def Category.parse (text : String) : Except Error Category :=
  match Category.ofName? (Text.foldCase (Text.trim text)) with
  | some c => .ok c
  | none => .error (.unknownCategory text)

end Requisite
