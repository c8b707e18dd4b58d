import NativeHeaders.Descriptor.Reader

/-! # Reading bytes of a class file

A `Reader` takes bytes off the front of what is left of a class file, or fails. Numbers are stored with the
highest byte first. What is left is always an end of the file, so a reader that succeeds does the same on a
longer file. -/

namespace NativeHeaders

/-- Why a class file cannot be read. -/
inductive ClassFileError where
  /-- The file ends too early. -/
  | unexpectedEnd
  /-- The file does not start like a class file. -/
  | invalidMagic
  /-- The version is outside the supported range. -/
  | unsupportedVersion (major minor : Nat)
  /-- The constant pool has an entry of an unknown kind. -/
  | unsupportedConstant (tag : Nat)
  /-- The constant pool has no entry of the required kind at an index. -/
  | invalidConstantIndex (index : Nat)
  /-- A text in the constant pool is not encoded correctly. -/
  | invalidText (index : Nat)
  /-- A native method has an illegal name. -/
  | invalidMethodName (name : String)
  /-- A native method has an illegal descriptor. -/
  | invalidDescriptor (error : DescriptorError)
deriving DecidableEq, Repr

/-- The sentence that reports the error. -/
def ClassFileError.message : ClassFileError → String
  | .unexpectedEnd => "unexpected end of class file"
  | .invalidMagic => "invalid class file magic header"
  | .unsupportedVersion major minor => s!"unsupported class file version {major}.{minor}"
  | .unsupportedConstant tag => s!"unsupported constant pool tag {tag}"
  | .invalidConstantIndex index => s!"invalid constant pool index {index}"
  | .invalidText index => s!"invalid modified UTF-8 in constant pool entry {index}"
  | .invalidMethodName name => s!"illegal native method name '{name}'"
  | .invalidDescriptor error => error.message

namespace ClassFile

/-- A step that takes bytes off the front of a class file. -/
abbrev Reader := StateT (List UInt8) (Except ClassFileError)

/-- The next bytes, exactly as many as asked for. -/
def takeBytes (count : Nat) : Reader (List UInt8) := fun bytes =>
  let taken := bytes.take count
  if taken.length = count then .ok (taken, bytes.drop count) else .error .unexpectedEnd

/-- The number that bytes stand for. -/
def bigEndian (bytes : List UInt8) : Nat := bytes.foldl (fun number byte => number * 256 + byte.toNat) 0

/-- The next bytes as a number. -/
def readNumber (count : Nat) : Reader Nat := do return bigEndian (← takeBytes count)

/-- The next byte. -/
def readByte : Reader Nat := readNumber 1

/-- The next two bytes, which hold an index, a count or flags. -/
def readShort : Reader Nat := readNumber 2

/-- The next four bytes, which hold a length or a value. -/
def readWord : Reader Nat := readNumber 4

/-- Passes over bytes. -/
def skip (count : Nat) : Reader Unit := do let _ ← takeBytes count

/-- What a reader finds the given number of times. -/
def readTimes {α : Type} (reader : Reader α) : Nat → Reader (List α)
  | 0 => return []
  | count + 1 => do
    let first ← reader
    let rest ← readTimes reader count
    return first :: rest

end ClassFile

end NativeHeaders
