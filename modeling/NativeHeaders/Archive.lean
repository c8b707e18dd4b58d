import NativeHeaders.Archive.Directory

/-! # Archives

An archive maps names to files. It is opened by reading its directory; the content of a file is read only when
it is asked for, from the bytes that the archive then has. -/

namespace NativeHeaders

/-- Why an archive, or a file in it, is refused before any content is read. -/
inductive ArchiveError where
  /-- The bytes are no archive. -/
  | noDirectory
  /-- A password is needed. -/
  | encrypted
  /-- The content is packed in a way that is not supported. -/
  | unsupportedMethod
deriving DecidableEq, Repr

/-- The sentence that reports the error. -/
def ArchiveError.message : ArchiveError → String
  | .noDirectory => "invalid Zip archive: Could not find EOCD"
  | .encrypted => "unsupported Zip archive: Password required to decrypt file"
  | .unsupportedMethod => "unsupported Zip archive: Compression method not supported"

/-- The directory of an archive. -/
structure Archive where
  /-- The entries in the order of the directory. Of several entries with one name the last counts. -/
  entries : List Archive.Entry

namespace Archive

/-- The archive with the given bytes. -/
def ofBytes (bytes : ByteArray) : Except ArchiveError Archive :=
  match entries? bytes with
  | none => .error .noDirectory
  | some entries => .ok { entries }

/-- The names of all entries. -/
def names (archive : Archive) : List String := archive.entries.map Entry.name

/-- The entry with a name. -/
def find? (archive : Archive) (name : String) : Option Entry :=
  archive.entries.reverse.find? (·.name = name)

/-- The entry with a name, if there is one; it must be readable. -/
def readable? (archive : Archive) (name : String) : Except ArchiveError (Option Entry) :=
  match archive.find? name with
  | none => .ok none
  | some entry =>
    if entry.isEncrypted then .error .encrypted
    else if entry.isReadable then .ok (some entry)
    else .error .unsupportedMethod

end Archive

end NativeHeaders
