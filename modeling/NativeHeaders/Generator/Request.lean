import NativeHeaders.ClassName
import NativeHeaders.FileSystem

/-! # Requests

What a header is asked for: a class that has to be looked for, or a class file. A text that is the path of a file
asks for this file. -/

namespace NativeHeaders

/-- A class for which a header is asked. -/
inductive ClassRequest where
  /-- The class with a name. -/
  | named (name : ClassName)
  /-- The class in a file. -/
  | file (path : Path)
deriving DecidableEq, Repr

namespace ClassRequest

/-- What a text asks for. -/
def parse (files : FileSystem) (input : String) : Except NameError ClassRequest :=
  if files.isFile ⟨input⟩ then .ok (.file ⟨input⟩) else (ClassName.parse input).map .named

/-- The words for the request. -/
def display : ClassRequest → String
  | .named name => name.display
  | .file path => path.text

end ClassRequest

end NativeHeaders
