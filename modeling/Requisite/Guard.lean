import Requisite.Category
import Requisite.Text.Ascii

/-!
# Existence guards

Calls that ask at run time whether an element exists. What such a call names need not be there.
-/
namespace Requisite

inductive Guard where
  | extensionLoaded
  | functionExists
  | classExists
  | interfaceExists
  | traitExists
  | defined
deriving DecidableEq, Repr, Inhabited

namespace Guard

def all : List Guard :=
  [.extensionLoaded, .functionExists, .classExists, .interfaceExists, .traitExists, .defined]

/-- The function that asks. -/
def function : Guard → String
  | .extensionLoaded => "extension_loaded"
  | .functionExists => "function_exists"
  | .classExists => "class_exists"
  | .interfaceExists => "interface_exists"
  | .traitExists => "trait_exists"
  | .defined => "defined"

/-- The category of what is asked for. -/
def category : Guard → Category
  | .extensionLoaded => .extensions
  | .functionExists => .functions
  | .classExists => .classes
  | .interfaceExists => .interfaces
  | .traitExists => .traits
  | .defined => .constants

/-- The guard that a call of `function` makes, in any case. -/
def ofFunction? (function : String) : Option Guard :=
  all.find? fun guard => Text.sameFold guard.function function

/-- The name of the condition that `element` exists. -/
def condition (guard : Guard) (element : String) : String :=
  guard.function ++ "(" ++ element ++ ")"

end Guard

end Requisite
