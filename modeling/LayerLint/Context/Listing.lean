import LayerLint.Dict
import LayerLint.Path.Basic

/-! # Directory listings

For each directory that was walked, the names of the directories and files in it. Listings are made
from the paths alone, so that nobody has to look at the file system again.
-/

namespace LayerLint

/-- The names in one directory. -/
structure Children where
  directories : Dict Unit
  files : Dict Unit
  deriving DecidableEq

namespace Children

/-- The names in an empty directory. -/
def empty : Children := ⟨.empty, .empty⟩

/-- The names of the directories, in order. -/
def directoryNames (children : Children) : List String :=
  children.directories.toList.map Prod.fst

/-- The names of the files, in order. -/
def fileNames (children : Children) : List String :=
  children.files.toList.map Prod.fst

/-- Adds the name of a directory. -/
def addDirectory (name : String) (children : Children) : Children :=
  { children with directories := children.directories.insert name () }

/-- Adds the name of a file. -/
def addFile (name : String) (children : Children) : Children :=
  { children with files := children.files.insert name () }

end Children

/-- The listings of directories, each given by the key of its path. -/
structure Listing where
  entries : List (Path.Key × Children)

namespace Listing

/-- The listing without directories. -/
def empty : Listing := ⟨[]⟩

/-- What is in a directory; `none` if it is not listed. -/
def children? (listing : Listing) (directory : Path) : Option Children :=
  listing.entries.lookup directory.key

/-- Lists a directory, without anything in it unless it is listed already. -/
def openAt (listing : Listing) (key : Path.Key) : Listing :=
  if (listing.entries.lookup key).isSome then listing else ⟨(key, .empty) :: listing.entries⟩

/-- Changes what is in the directory of a key, if it is listed. -/
def changeEntry (key : Path.Key) (update : Children → Children) :
    List (Path.Key × Children) → List (Path.Key × Children)
  | [] => []
  | entry :: rest =>
      if entry.1 = key then (key, update entry.2) :: rest else entry :: changeEntry key update rest

/-- Changes what is in a directory, if it is listed. -/
def changeAt (listing : Listing) (key : Path.Key) (update : Children → Children) : Listing :=
  ⟨changeEntry key update listing.entries⟩

/-- Lists a directory. -/
def openDirectory (listing : Listing) (directory : Path) : Listing :=
  listing.openAt directory.key

/-- Enters a directory into the listing of the directory above it, if that is listed. -/
def enterDirectory (listing : Listing) (directory : Path) : Listing :=
  match directory.entry? with
  | some (above, name) => listing.changeAt above (.addDirectory name)
  | none => listing

/-- Enters a file into the listing of the directory it is in. -/
def enterFile (listing : Listing) (file : Path) : Listing :=
  match file.entry? with
  | some (above, name) => (listing.openAt above).changeAt above (.addFile name)
  | none => listing

/-- The listings of some directories and files. -/
def ofPaths (directories files : List Path) : Listing :=
  files.foldl enterFile (directories.foldl enterDirectory (directories.foldl openDirectory empty))

end Listing

end LayerLint
