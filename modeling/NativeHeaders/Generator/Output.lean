import NativeHeaders.Generator.Error

/-! # Output files

Headers go into one file, or into a directory with a file for each class. A file that has the right text already
is left alone, so that nothing that depends on it looks out of date. -/

namespace NativeHeaders

/-- Where headers go. -/
inductive OutputTarget where
  /-- All into one file. -/
  | singleFile (path : Path)
  /-- Each into a file of its own in a directory. -/
  | perClass (directory : Path)
deriving DecidableEq, Repr

/-- The target for the given choices; without a choice it is the working directory, and both choices at once have
no target. -/
def OutputTarget.ofOptions? (file directory : Option Path) : Option OutputTarget :=
  match file, directory with
  | some _, some _ => none
  | some file, none => some (.singleFile file)
  | none, some directory => some (.perClass directory)
  | none, none => some (.perClass ⟨"."⟩)

/-- What became of an output file. -/
inductive WriteOutcome where
  /-- It was written. -/
  | written
  /-- It had the right text. -/
  | unchanged
deriving DecidableEq, Repr

namespace FileSystem

/-- Whether a file has to be written to hold a text. -/
def needsWriting (files : FileSystem) (path : Path) (text : String) : Except GenerationError Bool :=
  match files.read path with
  | .ok content => .ok (content ≠ text.toUTF8)
  | .error .notFound => .ok true
  | .error cause => .error (.file path cause)

/-- Makes the directory in which a file is to stand. -/
def prepareParent (files : FileSystem) (path : Path) : Except GenerationError Unit × FileSystem :=
  match path.parent? with
  | none => (.ok (), files)
  | some parent =>
    if parent.text.isEmpty then (.ok (), files)
    else
      let (result, files) := files.createDirectories parent
      (result.mapError (.file parent), files)

/-- Makes a file hold a text, together with the directories above it; it is not touched if it holds the text
already. -/
def writeIfChanged (files : FileSystem) (path : Path) (text : String) :
    Except GenerationError WriteOutcome × FileSystem :=
  match files.needsWriting path text with
  | .error error => (.error error, files)
  | .ok false => (.ok .unchanged, files)
  | .ok true =>
    match files.prepareParent path with
    | (.error error, files) => (.error error, files)
    | (.ok (), files) =>
      match files.write path text.toUTF8 with
      | .error cause => (.error (.file path cause), files)
      | .ok files => (.ok .written, files)

end FileSystem

end NativeHeaders
