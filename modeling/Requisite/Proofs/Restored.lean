import Requisite.Proofs.Follow

/-!
# Scopes are restored

Between entering a scope and leaving it again, other scopes may be entered and left, and locals may
be changed in any way. Which locals a change gets to depends on all scopes that are open then. But
over steps that leave every scope they enter (`WellNested`), all of it comes to one change of the
innermost locals there are at the beginning: the changes that are made while no scope with locals of
its own is open above them, one after the other (`run_eq`).

So a scope with locals of its own leaves no trace, and what is done in any other is done to the
innermost locals around it (`changesNearest_modifyLocals`).
-/
namespace Requisite

/-- The locals after some changes, one after the other. -/
def Locals.after (l : Locals) (changes : List (Locals → Locals)) : Locals :=
  changes.foldl (fun l change => change l) l

@[simp] theorem Locals.after_append (l : Locals) (changes more : List (Locals → Locals)) :
    l.after (changes ++ more) = (l.after changes).after more :=
  List.foldl_append

theorem Frame.keepsLocals_iff {category : Category} :
    keepsLocals category ↔ category ∈ [.namespaces, .functions, .methods] := by
  cases category <;> decide

namespace Scopes

/-! ### Steps -/

/-- What is done to a stack of scopes between two looks at it. A change is any change of the locals
of the innermost scope that has some, such as `accumulate` and `recordAssignment` make. -/
inductive Step where
  | push (category : Category) (name : String)
  | pop
  | change (f : Locals → Locals)

/-- The file itself is never left. -/
def step (s : Scopes) : Step → Scopes
  | .push category name => s.push category name
  | .pop => s.pop?.elim s (·.2)
  | .change f => s.modifyLocals f

def run (s : Scopes) (steps : List Step) : Scopes :=
  steps.foldl step s

/-- Steps that leave every scope they enter, and no other. -/
inductive WellNested : List Step → Prop where
  | done : WellNested []
  | change (f : Locals → Locals) {rest : List Step} (later : WellNested rest) :
    WellNested (.change f :: rest)
  | scope (category : Category) (name : String) {inner rest : List Step}
    (inside : WellNested inner) (later : WellNested rest) :
    WellNested (.push category name :: (inner ++ .pop :: rest))

/-- The changes that are made while no scope with locals of its own is open. The scopes that are
open are given by whether they have some, innermost first. -/
def shared (opened : List Bool) : List Step → List (Locals → Locals)
  | [] => []
  | .push category _ :: rest => shared (Frame.keepsLocals category :: opened) rest
  | .pop :: rest => shared opened.tail rest
  | .change f :: rest => if opened.any id then shared opened rest else f :: shared opened rest

/-- Steps that leave every scope they enter have no effect on which scopes are open after them. -/
theorem shared_append {steps : List Step} (nested : WellNested steps) (opened : List Bool)
    (rest : List Step) :
    shared opened (steps ++ rest)
      = (if opened.any id then [] else shared [] steps) ++ shared opened rest := by
  induction nested generalizing opened rest with
  | done => simp [shared]
  | change f later ih =>
    by_cases sheltered : opened.any id
    · simp [shared, sheltered, ih]
    · simp [shared, sheltered, ih]
  | scope category name inside later ihInside ihLater =>
    -- inside there is one more scope open, which is closed again before the rest
    cases own : Frame.keepsLocals category <;> by_cases sheltered : opened.any id
    all_goals simp [shared, own, sheltered, ihInside, ihLater]

theorem shared_scope (category : Category) (name : String) {inner : List Step}
    (inside : WellNested inner) (rest : List Step) :
    shared [] (.push category name :: (inner ++ .pop :: rest))
      = (if Frame.keepsLocals category then [] else shared [] inner) ++ shared [] rest := by
  cases own : Frame.keepsLocals category <;> simp [shared, own, shared_append inside]

/-! ### Runs -/

/-- Over steps that leave every scope they enter, only the innermost locals are changed. -/
theorem run_eq {steps : List Step} (nested : WellNested steps) (s : Scopes) :
    s.run steps = s.modifyLocals (·.after (shared [] steps)) := by
  induction nested generalizing s with
  | done => exact s.modifyLocals_id.symm
  | change f later ih => exact (ih (s.modifyLocals f)).trans (modifyLocals_modifyLocals s f _)
  | @scope category name inner rest inside later ihInside ihLater =>
    -- locals of its own are taken off with the frame, other locals stay changed below it
    have left : ((s.push category name).run inner).step .pop
        = if Frame.keepsLocals category then s
          else s.modifyLocals (·.after (shared [] inner)) := by
      rw [ihInside, step, pop?_modifyLocals_push]
      split <;> rfl
    have split : s.run (.push category name :: (inner ++ .pop :: rest))
        = (((s.push category name).run inner).step .pop).run rest := by
      simp [run, step]
    rw [split, left, ihLater, shared_scope category name inside]
    cases Frame.keepsLocals category with
    | true => rfl
    | false =>
      rw [if_neg Bool.false_ne_true, modifyLocals_modifyLocals]
      congr 1
      funext l
      simp

/-- What is found when the scope that was entered first is left. -/
theorem pop?_run_push {inner : List Step} (nested : WellNested inner) (s : Scopes)
    (category : Category) (name : String) :
    (s.run (.push category name :: inner)).pop? =
      if Frame.keepsLocals category then
        some (⟨category, name, some (Locals.after {} (shared [] inner))⟩, s)
      else some (⟨category, name, none⟩, s.modifyLocals (·.after (shared [] inner))) := by
  have entered : s.run (.push category name :: inner) = (s.push category name).run inner := rfl
  rw [entered, run_eq nested, pop?_modifyLocals_push]

/-- Two stacks are the same but for the innermost locals, which are changed by `f`: those of a frame
with only frames without locals above it, or those of the file if no frame has any. -/
inductive ChangesNearest (f : Locals → Locals) : Scopes → Scopes → Prop where
  | frame {global locals : Locals} (above : List Frame) {below : List Frame} {category : Category}
    {name : String} (sharing : ∀ frame ∈ above, frame.locals = none) :
    ChangesNearest f ⟨global, above ++ ⟨category, name, some locals⟩ :: below⟩
      ⟨global, above ++ ⟨category, name, some (f locals)⟩ :: below⟩
  | file {global : Locals} {frames : List Frame} (sharing : ∀ frame ∈ frames, frame.locals = none) :
    ChangesNearest f ⟨global, frames⟩ ⟨f global, frames⟩

theorem changesNearest_modifyLocals (s : Scopes) (f : Locals → Locals) :
    ChangesNearest f s (s.modifyLocals f) := by
  obtain ⟨global, frames⟩ := s
  induction frames with
  | nil => exact .file (by simp)
  | cons frame rest ih =>
    obtain ⟨category, name, _ | locals⟩ := frame
    · rw [modifyLocals_sharing]
      generalize modifyLocals ⟨global, rest⟩ f = changed at ih
      cases ih with
      | frame above sharing =>
        exact .frame (⟨category, name, none⟩ :: above) (List.forall_mem_cons.2 ⟨rfl, sharing⟩)
      | file sharing => exact .file (List.forall_mem_cons.2 ⟨rfl, sharing⟩)
    · exact .frame [] (by simp)

/-- Whatever happens between entering a scope and leaving it, as long as all scopes entered in
between are left: if it is a namespace, a function or a method, the stack is afterwards what it was
before, and the frame that is left has the changes made to its fresh locals while no other scope
with locals was open above it. If it is anything else, the stack differs in the innermost locals
around it, which have all changes made while no scope with locals was open above them. In either
case the changes are made in their order, and the frame that is left is the one that was entered. -/
theorem local_scopes_restored {inner : List Step} (nested : WellNested inner) (s : Scopes)
    (category : Category) (name : String) :
    let steps := .push category name :: (inner ++ [.pop])
    let popped := (s.run (.push category name :: inner)).pop?
    (category ∈ [.namespaces, .functions, .methods] →
        s.run steps = s
          ∧ popped = some (⟨category, name, some (Locals.after {} (shared [] inner))⟩, s))
      ∧ (category ∉ [.namespaces, .functions, .methods] →
        ChangesNearest (·.after (shared [] steps)) s (s.run steps)
          ∧ popped = some (⟨category, name, none⟩, s.run steps)) := by
  intro steps popped
  have ran : s.run steps = s.modifyLocals (·.after (shared [] steps)) :=
    run_eq (.scope category name nested .done) s
  have changes : shared [] steps = if Frame.keepsLocals category then [] else shared [] inner :=
    (shared_scope category name nested []).trans (List.append_nil _)
  constructor
  · intro own
    have keeps := Frame.keepsLocals_iff.2 own
    constructor
    · rw [ran, changes, if_pos keeps]
      exact s.modifyLocals_id
    · exact (pop?_run_push nested s category name).trans (if_pos keeps)
  · intro other
    have shares := mt Frame.keepsLocals_iff.1 other
    constructor
    · rw [ran]
      exact changesNearest_modifyLocals s _
    · rw [ran, changes, if_neg shares]
      exact (pop?_run_push nested s category name).trans (if_neg shares)

/-- A class in a function that needs 5.2: what is needed in the class and in a trait inside it is
needed by the function, and what a method needs is not. -/
theorem class_in_function_restored :
    let needs (minor : UInt32) : Step :=
      .change fun l => { l with accumulator := l.accumulator.require (.release 5 minor 0) }
    let s := (({} : Scopes).push .functions "f").step (needs 2)
    let inner := [needs 3, .push .methods "A::m", needs 6, .pop, .push .traits "T", needs 4, .pop]
    let steps := .push .classes "A" :: (inner ++ [.pop])
    WellNested inner
      ∧ ChangesNearest (·.after (shared [] steps)) s (s.run steps)
      ∧ (s.run (.push .classes "A" :: inner)).pop? = some (⟨.classes, "A", none⟩, s.run steps)
      ∧ s.run (.push .methods "A::m" :: ([needs 6] ++ [.pop])) = s
      ∧ (s.run steps).locals.accumulator.min = .release 5 4 0 := by
  intro needs s inner steps
  have short : WellNested [needs 6] := .change _ .done
  have nested : WellNested inner :=
    .change _ (@WellNested.scope _ _ [needs 6] _ short
      (@WellNested.scope _ _ [needs 4] [] (.change _ .done) .done))
  have shown := (local_scopes_restored nested s .classes "A").2 (by decide)
  exact ⟨nested, shown.1, shown.2,
    ((local_scopes_restored short s .methods "A::m").1 (by decide)).1, by decide⟩

end Scopes

end Requisite
