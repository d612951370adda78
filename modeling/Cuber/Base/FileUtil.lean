import Cuber.Base.Text

/-!
# The file system as the static handler sees it

Path names lead to regular files, to directories, or nowhere.  `FileStat`
keeps the `stat` record of the path it was built from; its second `isfile`
overload looks at another path without replacing that record.
-/

namespace Cuber.FileUtil

open Cuber.Text

inductive FileNode where
  | regular (content : Bytes) (readable : Bool)
  | directory (size : ℕ)
  deriving DecidableEq

/-- What is found under each name.  Maps that no kernel has are not excluded, as one with a
regular file at a name that ends in a slash, or at one longer than `PATH_MAX`. -/
abbrev FileSystem := Bytes → Option FileNode

/-- `FileStat::isfile(filename)`. -/
def isfile (files : FileSystem) (path : Bytes) : Bool :=
  match files (cStr path) with
  | some (.regular _ _) => true
  | _ => false

/-- `FileStat::size` of a record filled by `stat` on `path`.  When `stat`
failed the record was never written, and `uninitialised` is what it holds. -/
def statSize (files : FileSystem) (uninitialised : ℕ) (path : Bytes) : ℕ :=
  match files (cStr path) with
  | some (.regular content _) => content.length
  | some (.directory size) => size
  | none => uninitialised

/-- `open(path, O_RDONLY)`: the content of the file, if it may be read. -/
def openFile (files : FileSystem) (path : Bytes) : Option Bytes :=
  match files (cStr path) with
  | some (.regular content true) => some content
  | _ => none

def pageSize : ℕ := 4096

inductive Mapping where
  | failed
  | bytes (content : Bytes)
  | busError
  deriving DecidableEq

/-- Map `size` bytes of a file and copy them.  An empty mapping is refused;
past the end of the file the last page reads as zeros, and touching a later
page raises `SIGBUS`. -/
def mmapCopy (content : Bytes) (size : ℕ) : Mapping :=
  if size = 0 then .failed
  else if size ≤ (content.length + pageSize - 1) / pageSize * pageSize then
    .bytes (content.take size ++ List.replicate (size - content.length) NUL)
  else .busError

end Cuber.FileUtil
