import EvmListing.Files.Basic

/-! A working directory that holds given files and the directories they are in, and nothing else.
Above it and at the root there are directories only. -/
namespace EvmListing

/-- The parts of a path between its slashes. -/
def pathParts (path : String) : List String :=
  (path.toList.foldr (fun c parts =>
    match c, parts with
    | '/', parts => [] :: parts
    | c, part :: parts => (c :: part) :: parts
    | c, [] => [[c]]) [[]]).map String.ofList

/-- The files with their paths, part by part from the working directory. -/
structure FileTree where
  files : List (List String × Bytes)

namespace FileTree

def ofList (files : List (String × Bytes)) : FileTree :=
  ⟨files.map fun file =>
    ((pathParts file.1).filter fun part => !(part == "" || part == "."), file.2)⟩

/-- A directory on the way along a path. -/
inductive Directory where
  /-- One that lies above the working directory, or the root. -/
  | above
  | within (parts : List String)
  deriving DecidableEq, Repr

def Directory.parent : Directory → Directory
  | above => above
  | within [] => above
  | within parts => within parts.dropLast

/-- What a name in a directory stands for. -/
inductive Entry where
  | file (content : Bytes)
  | directory (directory : Directory)
  | nothing

def entry (tree : FileTree) (name : String) : Directory → Entry
  | .above => .nothing
  | .within parts =>
    let path := parts ++ [name]
    match tree.files.find? fun file => file.1 == path with
    | some file => .file file.2
    | none =>
      if tree.files.any fun file => path.isPrefixOf file.1 then .directory (.within path)
      else .nothing

/-- The longest name of one part, in bytes. -/
def longestName : Nat := 255

/-- The longest path, in bytes. -/
def longestPath : Nat := 4095

/-- Follows the parts of a path from a directory. Only the last part may name a file. -/
def follow (tree : FileTree) (directory : Directory) : List String → Except FileFault Bytes
  | [] => .error .isDirectory
  | part :: parts =>
    if part = "" ∨ part = "." then tree.follow directory parts
    else if part = ".." then tree.follow directory.parent parts
    else if longestName < part.utf8ByteSize then .error .nameTooLong
    else match tree.entry part directory with
      | .file content => if parts.isEmpty then .ok content else .error .notDirectory
      | .directory directory => tree.follow directory parts
      | .nothing => .error .notFound

def lookup (tree : FileTree) : Files := fun path =>
  if path = "" then .error .notFound
  else if longestPath < path.utf8ByteSize then .error .nameTooLong
  else
    let parts := pathParts path
    tree.follow (if parts.head? = some "" then .above else .within []) parts

end FileTree
end EvmListing
