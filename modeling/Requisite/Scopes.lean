import Requisite.Aliases
import Requisite.Category
import Requisite.Range

/-!
# The stack of scopes

The declarations around a place in the code, innermost first, above the global namespace of the
file, which is never left. Namespaces, functions and methods keep locals of their own: what their
references require, and the aliases assigned in them. Classes, interfaces and traits share the
locals of what is around them.
-/
namespace Requisite

/-- The name of the namespace of code outside any namespace. -/
def globalNamespace : String := "+global"

/-- The extension that the global namespace belongs to. -/
def coreExtension : String := "Core"

structure Locals where
  /-- What the references in this scope require so far. -/
  accumulator : Range := .user
  aliases : Aliases := {}
deriving DecidableEq, Inhabited

structure Frame where
  category : Category
  name : String
  locals : Option Locals
deriving DecidableEq, Inhabited

namespace Frame

/-- Whether scopes of a category keep locals of their own. -/
def keepsLocals : Category → Bool
  | .namespaces | .functions | .methods => true
  | _ => false

/-- The frame of a scope that was just entered. -/
def enter (category : Category) (name : String) : Frame :=
  { category, name, locals := if keepsLocals category then some {} else none }

def ownsLocals (f : Frame) : Bool :=
  f.locals.isSome

end Frame

structure Scopes where
  /-- The locals of the file itself. -/
  global : Locals := {}
  /-- The frames above it, innermost first. -/
  frames : List Frame := []
deriving DecidableEq, Inhabited

namespace Scopes

def push (s : Scopes) (category : Category) (name : String) : Scopes :=
  { s with frames := .enter category name :: s.frames }

/-- The innermost frame and the stack without it. -/
def pop? (s : Scopes) : Option (Frame × Scopes) :=
  match s.frames with
  | [] => none
  | frame :: rest => some (frame, { s with frames := rest })

/-- Category and name of the innermost scope. -/
def current (s : Scopes) : Category × String :=
  match s.frames with
  | [] => (.namespaces, globalNamespace)
  | frame :: _ => (frame.category, frame.name)

/-- Whether the innermost scope keeps locals of its own. -/
def ownsLocals (s : Scopes) : Bool :=
  match s.frames with
  | [] => true
  | frame :: _ => frame.ownsLocals

/-- The locals of the innermost scope that has any. -/
def locals (s : Scopes) : Locals :=
  (s.frames.findSome? (·.locals)).getD s.global

/-- Changes the locals of the innermost frame that has any; `none` if there is no such frame. -/
def modifyFrames? (f : Locals → Locals) : List Frame → Option (List Frame)
  | [] => none
  | frame :: rest =>
    match frame.locals with
    | some locals => some ({ frame with locals := some (f locals) } :: rest)
    | none => (modifyFrames? f rest).map (frame :: ·)

/-- Changes the locals of the innermost scope that has any. -/
def modifyLocals (s : Scopes) (f : Locals → Locals) : Scopes :=
  match modifyFrames? f s.frames with
  | some frames => { s with frames }
  | none => { s with global := f s.global }

/-- Folds a range into the accumulator of the innermost scope that has one. -/
def accumulate (s : Scopes) (range : Range) : Scopes :=
  s.modifyLocals fun l => { l with accumulator := l.accumulator.merge range }

/-- Remembers an assignment in the innermost scope that has aliases. -/
def recordAssignment (s : Scopes) (target value : Code.Expr) : Scopes :=
  s.modifyLocals fun l => { l with aliases := l.aliases.record target value }

/-- The number of open scopes, the file included. -/
def depth (s : Scopes) : Nat :=
  s.frames.length + 1

/-- The locals of the file, and the stack with fresh ones in their place. -/
def takeGlobal (s : Scopes) : Locals × Scopes :=
  (s.global, { s with global := {} })

/-! ### What the operations do to the frames -/

@[simp] theorem frames_push (s : Scopes) (category : Category) (name : String) :
    (s.push category name).frames = .enter category name :: s.frames := rfl

@[simp] theorem pop?_push (s : Scopes) (category : Category) (name : String) :
    (s.push category name).pop? = some (.enter category name, s) := rfl

@[simp] theorem current_push (s : Scopes) (category : Category) (name : String) :
    (s.push category name).current = (category, name) := rfl

@[simp] theorem depth_push (s : Scopes) (category : Category) (name : String) :
    (s.push category name).depth = s.depth + 1 := rfl

theorem pop?_eq_none_iff {s : Scopes} : s.pop? = none ↔ s.depth = 1 := by
  obtain ⟨_, frames⟩ := s
  cases frames <;> simp [pop?, depth]

/-- Changing locals opens and closes nothing. -/
theorem length_modifyFrames? {f : Locals → Locals} {frames frames' : List Frame}
    (h : modifyFrames? f frames = some frames') : frames'.length = frames.length := by
  induction frames generalizing frames' with
  | nil => simp [modifyFrames?] at h
  | cons frame rest ih =>
    unfold modifyFrames? at h
    split at h
    · cases h; rfl
    · obtain ⟨rest', hrest, rfl⟩ := Option.map_eq_some_iff.1 h
      simp [ih hrest]

@[simp] theorem depth_modifyLocals (s : Scopes) (f : Locals → Locals) :
    (s.modifyLocals f).depth = s.depth := by
  unfold modifyLocals depth
  split
  · rename_i frames h
    rw [length_modifyFrames? h]
  · rfl

end Scopes

end Requisite
