import Requisite.Command.Args
import Requisite.Json.Printer
import Requisite.Project
import Requisite.Report
import Requisite.Settings

/-!
# Commands

The two commands of the program: `analyze` reports what the trees of a project need, and `lookup`
shows what the catalog says of one symbol. A command is read from the words of the command line and
executed on the files it names, and what it does to the world is all in its `Effect`.
-/
namespace Requisite

/-- The files that a command can read; a file that cannot be read has a reason. -/
abbrev Files := String → Except String String

namespace Files

def ofList (files : List (String × Except String String)) : Files :=
  fun path => (files.lookup path).getD (.error "No such file or directory (os error 2)")

/-- The content of a file. -/
def read (files : Files) (path : String) : Except Error String :=
  (files path).mapError (.unreadableFile path)

end Files

namespace Command

inductive Format where
  | text
  | json
deriving DecidableEq, Repr, Inhabited

def Format.ofName? : String → Option Format
  | "text" => some .text
  | "json" => some .json
  | _ => none

structure Analyze where
  trees : List String := []
  reference : Option String := none
  config : Option String := none
  threads : Option Nat := none
  filter : Option String := none
  format : Option Format := none
  /-- Whether statistics are asked for, and the file they are written to. -/
  stats : Option (Option String) := none
  verbose : Bool := false
  logDir : Option String := none
deriving DecidableEq, Repr, Inhabited

structure Lookup where
  category : Option String := none
  name : Option String := none
  argCount : Option Nat := none
  reference : Option String := none
  config : Option String := none
  verbose : Bool := false
deriving DecidableEq, Repr, Inhabited

end Command

/-- A command with its arguments. -/
inductive Command where
  | analyze (args : Command.Analyze)
  | lookup (category name : String) (args : Command.Lookup)
deriving DecidableEq, Repr, Inhabited

namespace Command

/-! ### Reading the command line -/

/-- What is asked for instead of a command. -/
inductive Aside where
  | help
  | version
  /-- The command line is not understood. -/
  | refused
deriving DecidableEq, Repr, Inhabited

/-- The value of an option that was not given before. -/
def once {α : Type} (old : Option α) (new : Option α) : Except Aside (Option α) :=
  match old, new with
  | none, some value => .ok (some value)
  | _, _ => .error .refused

/-- A flag that was not given before. -/
def flag (old : Bool) : Except Aside Bool :=
  if old then .error .refused else .ok true

def analyzeSpecs : List Args.Spec :=
  [{ name := "reference", letter := some 'r', takes := .value },
    { name := "config", letter := some 'c', takes := .value },
    { name := "threads", letter := some 't', takes := .value },
    { name := "filter", letter := some 'f', takes := .value },
    { name := "format", takes := .value },
    { name := "stats", takes := .attached },
    { name := "verbose", letter := some 'v' },
    { name := "log-dir", takes := .value },
    { name := "help", letter := some 'h' }]

/-- Takes one more part of the command line into account. -/
def Analyze.add (args : Analyze) : Args.Item → Except Aside Analyze
  | .word text =>
    match Args.path? text with
    | some path => .ok { args with trees := args.trees ++ [path] }
    | none => .error .refused
  | .option "reference" value => do
    return { args with reference := ← once args.reference (value.bind Args.path?) }
  | .option "config" value => do
    return { args with config := ← once args.config (value.bind Args.path?) }
  | .option "threads" value => do
    return { args with threads := ← once args.threads (value.bind Args.count?) }
  | .option "filter" value => do
    return { args with filter := ← once args.filter value }
  | .option "format" value => do
    return { args with format := ← once args.format (value.bind Format.ofName?) }
  | .option "stats" none => do
    return { args with stats := ← once args.stats (some none) }
  | .option "stats" (some value) => do
    return { args with stats := ← once args.stats ((Args.path? value).map some) }
  | .option "verbose" _ => do
    return { args with verbose := ← flag args.verbose }
  | .option "log-dir" value => do
    return { args with logDir := ← once args.logDir (value.bind Args.path?) }
  | .option "help" _ => .error .help
  | _ => .error .refused

def parseAnalyze (words : List String) : Except Aside Command := do
  let args ← (Args.scan analyzeSpecs words).foldlM Analyze.add {}
  if args.trees.isEmpty then .error .refused else .ok (.analyze args)

def lookupSpecs : List Args.Spec :=
  [{ name := "args", takes := .value },
    { name := "reference", letter := some 'r', takes := .value },
    { name := "config", letter := some 'c', takes := .value },
    { name := "verbose", letter := some 'v' },
    { name := "help", letter := some 'h' }]

/-- Takes one more part of the command line into account. -/
def Lookup.add (args : Lookup) : Args.Item → Except Aside Lookup
  | .word text =>
    match args.category, args.name with
    | none, _ => .ok { args with category := some text }
    | some _, none => .ok { args with name := some text }
    | some _, some _ => .error .refused
  | .option "args" value => do
    return { args with argCount := ← once args.argCount (value.bind Args.count?) }
  | .option "reference" value => do
    return { args with reference := ← once args.reference (value.bind Args.path?) }
  | .option "config" value => do
    return { args with config := ← once args.config (value.bind Args.path?) }
  | .option "verbose" _ => do
    return { args with verbose := ← flag args.verbose }
  | .option "help" _ => .error .help
  | _ => .error .refused

def parseLookup (words : List String) : Except Aside Command := do
  let args ← (Args.scan lookupSpecs words).foldlM Lookup.add {}
  match args.category, args.name with
  | some category, some name => .ok (.lookup category name args)
  | _, _ => .error .refused

def programSpecs : List Args.Spec :=
  [{ name := "help", letter := some 'h' }, { name := "version", letter := some 'V' }]

/-- Reads a command line, without the name of the program. -/
def parse : List String → Except Aside Command
  | "analyze" :: words => parseAnalyze words
  | "lookup" :: words => parseLookup words
  | "help" :: topic =>
    if [[], ["analyze"], ["lookup"], ["help"]].contains topic then .error .help
    else .error .refused
  | word :: _ =>
    match Args.scan programSpecs [word] with
    | .option "help" _ :: _ => .error .help
    | .option "version" _ :: _ => .error .version
    | _ => .error .refused
  | [] => .error .refused

/-! ### Execution -/

/-- What a command does: what it prints, and the files it writes. -/
structure Effect where
  output : String
  written : List (String × String) := []
deriving DecidableEq, Repr, Inhabited

/-- The settings of a file, if one is named, with the options in place of its own. -/
def loadSettings (files : Files) (config reference : Option String) (threads : Option Nat)
    (filter : Option String) : Except Error Settings := do
  let settings ← match config with
    | none => pure {}
    | some path => Settings.ofToml path (← files.read path)
  return settings.override reference threads filter

/-- The catalog of a file. Whatever is wrong with it, the error only names the file. -/
def loadCatalog (files : Files) (path : String) : Except Error Catalog :=
  ((files.read path).bind Catalog.ofJsonText).mapError fun _ => .catalogNotLoaded path

def loadTree (files : Files) (path : String) : Except Error Code.Tree := do
  Code.Tree.ofJsonText path (← files.read path)

/-- Analyzes the trees and reports what they need. -/
def Analyze.execute (args : Analyze) (machine : Project.Machine) (files : Files) :
    Except Error Effect := do
  let settings ← loadSettings files args.config args.reference args.threads args.filter
  let filter ← settings.versionFilter
  let catalog ← match settings.reference with
    | none => pure {}
    | some path => loadCatalog files path
  let threads := Project.effectiveThreads machine settings.threads
  let outcome ← Project.run catalog.find? machine threads (loadTree files) args.trees
  let output := match args.format.getD .text with
    | .text => (Report.build outcome.metrics filter).render
    | .json => outcome.metrics.toJson.pretty
  let written := match args.stats with
    | some (some path) => [(path, outcome.toJson.pretty)]
    | _ => []
  return { output := output ++ "\n", written }

/-- Shows what the catalog says of a symbol. -/
def Lookup.execute (args : Lookup) (category name : String) (files : Files) :
    Except Error Effect := do
  let settings ← loadSettings files args.config args.reference none none
  let path ← match settings.reference with
    | none => .error .noCatalog
    | some path => pure path
  let category ← Category.parse category
  let catalog ← loadCatalog files path
  let range := catalog.find category name args.argCount
  let output :=
    if range.isUser then s!"{category.title} {name} is not a built-in symbol"
    else range.toJson.pretty
  return { output := output ++ "\n" }

def execute (command : Command) (machine : Project.Machine) (files : Files) :
    Except Error Effect :=
  match command with
  | .analyze args => args.execute machine files
  | .lookup category name args => args.execute category name files

/-- The name of the program and its version. -/
def versionLine : String := "compatinfo 0.1.0"

/-! ### Files and directories -/

/-- The directory that a command makes for its log, before it reads anything. -/
def logDir? : Command → Option String
  | .analyze args => args.logDir
  | .lookup .. => none

/-- The settings file of a command. -/
def config : Command → Option String
  | .analyze args => args.config
  | .lookup _ _ args => args.config

/-- The files that a command names, its settings file first. -/
def named : Command → List String
  | .analyze args => args.config.toList ++ args.reference.toList ++ args.trees
  | .lookup _ _ args => args.config.toList ++ args.reference.toList

/-- The file that the settings of a command name. -/
def namedInSettings (command : Command) (files : Files) : List String :=
  match loadSettings files command.config none none none with
  | .ok settings => settings.reference.toList
  | .error _ => []

end Command

end Requisite
