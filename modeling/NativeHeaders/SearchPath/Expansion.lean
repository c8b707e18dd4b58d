import NativeHeaders.FileSystem
import NativeHeaders.Text.Blank

/-! # Written search paths

A search path is written as entries separated by colons. In a class path, a star in the place of the last name
stands for all archives of a directory. -/

namespace NativeHeaders.Expansion

/-- The entries of written search paths, without blank ones. -/
def entries (written : List String) : List String :=
  (written.flatMap (Text.pieces ':')).filter (!Text.isAllBlank ·)

/-- The directory whose archives an entry stands for, if it ends in a star. -/
def wildcardDirectory? (entry : String) : Option Path :=
  match entry.toList.reverse with
  | '*' :: '/' :: before =>
    some ⟨if before.isEmpty then "/" else String.ofList before.reverse⟩
  | _ => none

/-- The archives in a directory, none if it cannot be read. -/
def archivesIn (files : FileSystem) (directory : Path) : List Path :=
  (files.filesIn directory ["jar"]).toOption.getD []

/-- The paths that an entry of a class path stands for. -/
def classPathEntry (files : FileSystem) (entry : String) : List Path :=
  match wildcardDirectory? entry with
  | some directory => archivesIn files directory
  | none => [⟨entry⟩]

/-- The paths that written class paths stand for. -/
def classPath (files : FileSystem) (written : List String) : List Path :=
  (entries written).flatMap (classPathEntry files)

/-- The paths that written module paths stand for. -/
def modulePath (written : List String) : List Path := (entries written).map Path.mk

end NativeHeaders.Expansion
