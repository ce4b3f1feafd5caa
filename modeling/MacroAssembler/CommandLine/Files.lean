/-
This module holds the files around the program as far as it looks at them, and the spelling of
their paths.
-/
import MacroAssembler.Association
import MacroAssembler.Text.Quoted

namespace MacroAssembler.CommandLine

inductive Entry
  | file (content : String)
  | directory
deriving DecidableEq, Repr

inductive FileProblem
  | missing
  | belowFile
  | directory
  | nameTooLong
deriving DecidableEq, Repr

def FileProblem.message (path : String) : FileProblem → String
  | .missing => "[Errno 2] No such file or directory: " ++ Text.quoted path
  | .belowFile => "[Errno 20] Not a directory: " ++ Text.quoted path
  | .directory => "[Errno 21] Is a directory: " ++ Text.quoted path
  | .nameTooLong => "[Errno 36] File name too long: " ++ Text.quoted path

/-- The files around the program. -/
structure Surroundings where
  /-- What there is at a path, or why it leads nowhere. -/
  look : String → Except FileProblem Entry

def Surroundings.entry? (surroundings : Surroundings) (path : String) : Option Entry :=
  (surroundings.look path).toOption

namespace Path

def isIdle (component : String) : Bool := component = "" || component = "."

def longestName : Nat := 255

def longestPath : Nat := 4095

def components (path : String) : List String :=
  (path.splitOn "/").filter fun component => !isIdle component

/-- The start of an absolute path. Two slashes are kept, and any other number of them is one. -/
def root (path : String) : String :=
  match path.toList with
  | '/' :: '/' :: '/' :: _ => "/"
  | '/' :: '/' :: _ => "//"
  | '/' :: _ => "/"
  | _ => ""

def join (root : String) (components : List String) : String :=
  if root = "" ∧ components = [] then "." else root ++ "/".intercalate components

def shown (path : String) : String := join (root path) (components path)

def fileName (path : String) : String := (components path).getLast?.getD ""

def parent (path : String) : String := join (root path) (components path).dropLast

end Path

/-! ### Places -/

/-- A place that a path leads to. Steps are given with the last one first. -/
inductive Place
  /-- The place that steps down from the working directory lead to. -/
  | inside (steps : List String)
  /-- The parent of the working directory, or the directory so many levels above it. -/
  | above (levels : Nat)
  /-- The place that steps down from the root lead to. -/
  | rooted (steps : List String)
deriving DecidableEq, Repr

namespace Place

/-- The place that a component leads to from a directory. Two dots lead to the parent, and from
the root nowhere else. Of the directories above the working directory nothing is known but that
they are there. -/
def enter : Place → String → Option Place
  | .inside [], ".." => some (.above 0)
  | .inside (_ :: outer), ".." => some (.inside outer)
  | .above levels, ".." => some (.above (levels + 1))
  | .rooted steps, ".." => some (.rooted steps.tail)
  | .inside steps, name => some (.inside (name :: steps))
  | .above _, _ => none
  | .rooted steps, name => some (.rooted (name :: steps))

end Place

/-- The entries below the root that every system has: some directories, and a file that is always
empty. -/
def standardEntries : List (String × Entry) :=
  [("", .directory), ("bin", .directory), ("dev", .directory), ("dev/null", .file ""),
   ("etc", .directory), ("home", .directory), ("lib", .directory), ("proc", .directory),
   ("root", .directory), ("sys", .directory), ("tmp", .directory), ("usr", .directory),
   ("var", .directory)]

namespace Surroundings

/-- What there is at the end of steps from the working directory: one of the given files, or a
directory that some of them lie in. -/
def entryInside? (files : List (String × String)) (components : List String) : Option Entry :=
  match files.find? fun file => decide (Path.components file.1 = components) with
  | some (_, content) => some (.file content)
  | none =>
    let isPassed := files.any fun file => components.isPrefixOf (Path.components file.1)
    if components.isEmpty || isPassed then some .directory else none

def entryAt? (files : List (String × String)) : Place → Option Entry
  | .inside steps => entryInside? files steps.reverse
  | .above _ => some .directory
  | .rooted steps => Association.get? standardEntries ("/".intercalate steps.reverse)

/-- The place that components lead to from a place. A step is possible only from a directory. -/
def walk (files : List (String × String)) : Place → List String → Except FileProblem Place
  | place, [] => .ok place
  | place, component :: rest =>
    match entryAt? files place with
    | none => .error .missing
    | some (.file _) => .error .belowFile
    | some .directory =>
      if Path.isIdle component then walk files place rest
      else if Path.longestName < (Text.released component).utf8ByteSize then .error .nameTooLong
      else
        match place.enter component with
        | none => .error .missing
        | some next => walk files next rest

def placeOf (files : List (String × String)) (path : String) : Except FileProblem Place :=
  if path = "" then .error .missing
  else if Path.longestPath < (Text.released path).utf8ByteSize then .error .nameTooLong
  else walk files (if Path.root path = "" then .inside [] else .rooted []) (path.splitOn "/")

/-- The name, from the working directory, of the file that a path leads to, if it lies there. -/
def nameInside? (files : List (String × String)) (path : String) : Option String :=
  match placeOf files path with
  | .ok (.inside steps) => some ("/".intercalate steps.reverse)
  | _ => none

/-- The surroundings in which the given files lie in the working directory. -/
def ofFiles (files : List (String × String)) : Surroundings where
  look path := do
    let place ← placeOf files path
    match entryAt? files place with
    | some entry => return entry
    | none => .error .missing

def ofEntries (entries : List (String × Except FileProblem Entry)) : Surroundings where
  look path := (Association.get? entries path).getD (.error .missing)

end Surroundings

end MacroAssembler.CommandLine
