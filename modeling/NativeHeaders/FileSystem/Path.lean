import NativeHeaders.Text.AsciiCase
import NativeHeaders.Text.Segments

/-! # Paths

A path is a text whose parts are separated by slashes; it is absolute if it starts with one. Empty parts and
single dots say nothing about where a path leads, apart from a dot at its start, and the functions on parts pass
over them. A path keeps the spelling it was given. -/

namespace NativeHeaders

/-- The text that leads to a file or directory. -/
structure Path where
  /-- The spelling. -/
  text : String
deriving DecidableEq, Repr

namespace Path

/-- The parts between the slashes, the empty ones included. -/
def parts (path : Path) : List String := Text.pieces '/' path.text

/-- Whether the path starts at the root directory. -/
def isAbsolute (path : Path) : Bool := path.text.toList.head? = some '/'

/-- Whether a part says nothing about where the path leads. -/
def isIdle (part : String) : Bool := part = "" || part = "."

/-- The path of something below `path`; an absolute `relative` stands for itself. -/
def join (path : Path) (relative : String) : Path :=
  if relative.toList.head? = some '/' then ⟨relative⟩
  else match path.text.toList.getLast? with
    | none => ⟨relative⟩
    | some '/' => ⟨path.text ++ relative⟩
    | some _ => ⟨path.text ++ "/" ++ relative⟩

/-- The parts without idle ones at the end. -/
def withoutIdleEnd (parts : List String) : List String := (parts.reverse.dropWhile isIdle).reverse

/-- The parts at the start that count although they are idle: the root or the leading dot, and the others. -/
def splitLead (path : Path) : List String × List String :=
  match path.parts with
  | "" :: rest => if path.isAbsolute then ([""], rest) else ([], "" :: rest)
  | "." :: rest => (["."], rest)
  | parts => ([], parts)

/-- The path of the directory that the path leads through last; none for the root and for the empty path. -/
def parent? (path : Path) : Option Path :=
  let (lead, rest) := path.splitLead
  match withoutIdleEnd rest with
  | [] => if lead = ["."] then some ⟨""⟩ else none
  | kept =>
    match lead ++ withoutIdleEnd kept.dropLast with
    | [""] => some ⟨"/"⟩
    | parts => some ⟨"/".intercalate parts⟩

/-- The paths from the given one upwards, as many as asked for at most. -/
def ancestorsUpTo : Nat → Path → List Path
  | 0, _ => []
  | count + 1, path =>
    path :: match path.parent? with
      | none => []
      | some parent => ancestorsUpTo count parent

/-- The path, its parent, the parent of that, and so on. -/
def ancestors (path : Path) : List Path := ancestorsUpTo (path.parts.length + 1) path

/-- The name of the file or directory the path leads to. -/
def fileName? (path : Path) : Option String :=
  match (path.parts.filter (!isIdle ·)).getLast? with
  | some ".." => none
  | name => name

/-- The text before and after the last dot; a dot at the start does not count. -/
def splitExtension (name : String) : String × Option String :=
  let reversed := name.toList.reverse
  match reversed.dropWhile (· ≠ '.') with
  | '.' :: c :: before =>
    (String.ofList (c :: before).reverse,
      some (String.ofList (reversed.takeWhile (· ≠ '.')).reverse))
  | _ => (name, none)

/-- The file name without its extension. -/
def stem (path : Path) : String := (path.fileName?.map fun name => (splitExtension name).1).getD ""

/-- Whether the extension is one of the given ones, in any case. -/
def hasExtension (path : Path) (extensions : List String) : Bool :=
  match path.fileName?.bind fun name => (splitExtension name).2 with
  | none => false
  | some extension => extensions.any (Text.equalIgnoringCase extension)

end Path

end NativeHeaders
