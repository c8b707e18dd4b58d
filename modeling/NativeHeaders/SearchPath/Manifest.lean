import NativeHeaders.Text.AsciiCase
import NativeHeaders.Text.Blank
import NativeHeaders.Text.Segments

/-! # Manifests

A manifest consists of headers, each a key, a colon and a value. A line that starts with a blank continues the
one before it, and the main section ends at the first empty line. The one header of interest says whether there
are versions of class files for later releases. -/

namespace NativeHeaders.Manifest

/-- Where the manifest stands. -/
def path : String := "META-INF/MANIFEST.MF"

/-- The directory of the versions for later releases, each below its number. -/
def versionsPath : String := "META-INF/versions/"

/-- The key of the header of interest. -/
def multiReleaseKey : String := "Multi-Release"

/-- The value that turns it on. -/
def multiReleaseValue : String := "true"

/-- The line without carriage returns at its end. -/
def withoutReturns (line : List Char) : List Char :=
  (line.reverse.dropWhile (· = '\r')).reverse

/-- The lines of the main section. -/
def mainLines (text : String) : List (List Char) :=
  ((Text.segments '\n' text.toList).map withoutReturns).takeWhile (!·.isEmpty)

/-- What lines at the front add to the line before them, and the headers of the other lines. -/
def continued : List (List Char) → List Char × List (List Char)
  | [] => ([], [])
  | (' ' :: more) :: lines => (more ++ (continued lines).1, (continued lines).2)
  | line :: lines => ([], (line ++ (continued lines).1) :: (continued lines).2)

/-- The headers of lines. The first line starts one in any case. -/
def headers : List (List Char) → List (List Char)
  | [] => []
  | line :: lines => (line ++ (continued lines).1) :: (continued lines).2

/-- Whether a header says that there are versions for later releases. -/
def saysMultiRelease (header : List Char) : Bool :=
  match Text.cutFirst ':' header with
  | none => false
  | some (key, value) =>
    Text.equalIgnoringCase (String.ofList (Text.trimmedChars key)) multiReleaseKey &&
      Text.equalIgnoringCase (String.ofList (Text.trimmedChars value)) multiReleaseValue

/-- Whether a manifest says that there are versions for later releases. -/
def isMultiRelease (text : String) : Bool := (headers (mainLines text)).any saysMultiRelease

end NativeHeaders.Manifest
