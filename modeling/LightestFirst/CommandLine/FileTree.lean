import LightestFirst.Failure
-- A tree of files, and what a path leads to in it.
namespace LightestFirst

inductive FileTree where
  | file (contents : ByteArray)
  | directory (entries : List (String × FileTree))
  | link (target : String)

namespace FileTree

abbrev Directory := List (String × FileTree)

-- The longest name of an entry and the longest path, in bytes, and the number of links that are
-- followed on one path.
def longestName : Nat := 255

def longestPath : Nat := 4095

def mostLinks : Nat := 40

structure Place where
  names : List String
  entries : Directory

def pathSize (names : List String) : Nat := names.foldr (fun name size => name.utf8ByteSize + 1 + size) 0

def child? (directory : Directory) (name : String) : Option FileTree :=
  (directory.find? (fun entry => entry.1 = name)).map (·.2)

-- Where a path starts, with the directories around it, innermost first. Outside the tree there is
-- nothing to find.
def begin (tree : Directory) (path : String) : List Place :=
  if path.startsWith "/" then [] else [⟨[], tree⟩]

def outside : Place := ⟨[], []⟩

def parts (path : String) : List String := path.splitOn "/"

-- Why nothing is found behind a file: it is no directory, but a path that is too long is not even
-- looked up.
def behindFile (names : List String) : List String → PathError
  | [] => .notDirectory
  | part :: rest =>
    if part = "" ∨ part = "." then behindFile names rest
    else if part ≠ ".." ∧ longestPath < pathSize (part :: names) then .nameTooLong
    else .notDirectory

-- Follows the parts of a path. A file is only reached by the last of them: even an empty part
-- behind it asks for a directory.
def follow (tree : Directory) (links : Nat) (trail : List Place) :
    List String → Except PathError FileTree
  | [] => .ok (.directory (trail.headD outside).entries)
  | part :: rest =>
    if part = "" ∨ part = "." then follow tree links trail rest
    else if part = ".." then follow tree links trail.tail rest
    else
      let names := part :: (trail.headD outside).names
      if longestPath < pathSize names ∨ longestName < part.utf8ByteSize then .error .nameTooLong
      else match child? (trail.headD outside).entries part with
        | none => .error .notFound
        | some (.directory entries) => follow tree links (⟨names, entries⟩ :: trail) rest
        | some (.file contents) =>
          if rest.isEmpty then .ok (.file contents) else .error (behindFile names rest)
        | some (.link target) =>
          match links with
          | 0 => .error .tooManyLinks
          | links + 1 =>
            follow tree links (if target.startsWith "/" then [] else trail) (parts target ++ rest)
termination_by path => (links, path.length)

def read (tree : Directory) (path : String) : Except Failure ByteArray :=
  if path.toList.contains (Char.ofNat 0) then .error (.invalidPath path .nulByte)
  else match follow tree mostLinks (begin tree path) (parts path) with
    | .error cause => .error (.invalidPath path cause)
    | .ok (.file contents) => .ok contents
    | .ok _ => .error (.notRegular path)

def inside : Option FileTree → Directory
  | some (.directory entries) => entries
  | _ => []

-- The names under which the entry of a path comes to stand. Links are followed, the last one too:
-- what is written to a link is written where it leads.
def names? (tree : Directory) (links : Nat) (trail : List Place) : List String → Option (List String)
  | [] => trail.head?.map (·.names.reverse)
  | part :: rest =>
    if part = "" ∨ part = "." then names? tree links trail rest
    else if part = ".." then names? tree links trail.tail rest
    else match trail with
      | [] => none
      | here :: _ =>
        match child? here.entries part, links with
        | some (.link target), links + 1 =>
          names? tree links (if target.startsWith "/" then [] else trail) (parts target ++ rest)
        | found, links => names? tree links (⟨part :: here.names, inside found⟩ :: trail) rest
termination_by path => (links, path.length)

def replace (directory : Directory) (name : String) (entry : FileTree) : Directory :=
  directory.filter (fun held => held.1 ≠ name) ++ [(name, entry)]

-- Puts an entry under its names, with the directories on the way. A directory that is there stays.
def put (entry : FileTree) : List String → Directory → Directory
  | [], entries => entries
  | [name], entries =>
    match entry, child? entries name with
    | .directory _, some (.directory _) => entries
    | entry, _ => replace entries name entry
  | name :: path, entries =>
    replace entries name (.directory (put entry path (inside (child? entries name))))

def add (entry : FileTree) (path : String) (tree : Directory) : Directory :=
  match names? tree mostLinks (begin tree path) (parts path) with
  | none => tree
  | some names => put entry names tree

end FileTree
end LightestFirst
