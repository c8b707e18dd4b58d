import NativeHeaders.Archive
import NativeHeaders.FileSystem

/-! # Found class files

What a search for a class gives, and why it may fail. A search goes through places and ends at the first one that
does not hold nothing; `Search.comesTo` says whether it gets as far as a place of some kind. -/

namespace NativeHeaders

/-- A class file that was found. -/
structure ClassSource where
  /-- The contents. -/
  bytes : ByteArray
  /-- Where it was found. -/
  origin : Path
deriving DecidableEq

/-- Why a search fails. -/
inductive ResolveError where
  /-- A file or directory cannot be read. -/
  | unreadable (path : Path) (cause : IoError)
  /-- The content of a file in an archive is damaged. -/
  | damaged (archive : Path)
  /-- An archive or a file in it is refused. -/
  | refused (archive : Path) (cause : ArchiveError)
deriving DecidableEq, Repr

namespace ResolveError

/-- What is wrong with the file. -/
def cause : ResolveError → String
  | .unreadable _ cause => cause.message
  | .damaged _ => "Invalid checksum"
  | .refused _ cause => cause.message

/-- The start of the sentence that reports the error, up to the path. -/
def summary : ResolveError → String
  | .unreadable path _ => s!"IO error while reading {path.text}"
  | .damaged archive => s!"IO error while reading {archive.text}"
  | .refused archive _ => s!"ZIP error while reading {archive.text}"

/-- The sentence that reports the error. -/
def message (error : ResolveError) : String := error.summary ++ ": " ++ error.cause

end ResolveError

/-- Whether a search through places comes to one of a kind. It goes on behind a place only if this holds nothing. -/
def Search.comesTo {ε α β : Type} (search : α → Except ε (Option β)) (isSuch : α → Bool) : List α → Bool
  | [] => false
  | place :: places =>
    isSuch place || match search place with
      | .ok none => comesTo search isSuch places
      | _ => false

end NativeHeaders
