import NativeHeaders.ClassFile.ConstantPool
import NativeHeaders.ClassName
import NativeHeaders.ClassSummary

/-! # Class files

`ClassFile.read` finds in one pass over a class file what a header needs: the names of the class and of its
superclass, the values of constant static fields, and the native methods. Everything else is passed over by its
length, and the bytes behind the last attribute do not matter. -/

namespace NativeHeaders.ClassFile

/-- The number every class file starts with. -/
def magic : Nat := 0xCAFEBABE

/-- The least supported major version. -/
def leastMajor : Nat := 45

/-- The greatest supported major version. -/
def greatestMajor : Nat := 69

/-- The name of the attribute that holds the value of a constant field. -/
def constantValueAttribute : String := "ConstantValue"

/-- Whether flags mark a static member. -/
def isStatic (flags : Nat) : Bool := flags.testBit 3

/-- Whether flags mark a native method. -/
def isNative (flags : Nat) : Bool := flags.testBit 8

/-! ### Attributes -/

/-- An attribute of a field, a method or a class. -/
structure Attribute where
  /-- The index of the name. -/
  nameIndex : Nat
  /-- The contents. -/
  body : List UInt8
deriving DecidableEq, Repr

/-- Reads an attribute. -/
def readAttribute : Reader Attribute := do
  let nameIndex ← readShort
  let length ← readWord
  let body ← takeBytes length
  return { nameIndex, body }

/-- Reads a count and as many attributes. -/
def readAttributes : Reader (List Attribute) := do
  let count ← readShort
  readTimes readAttribute count

/-! ### Fields -/

/-- The constant that an attribute gives to a field, if the field is static, the attribute has two bytes and the
right name, and the constant is a number. -/
def fieldConstant? (pool : ConstantPool) (flags nameIndex : Nat) (entry : Attribute) :
    Except ClassFileError (Option ConstantField) := do
  if !isStatic flags || entry.body.length ≠ 2 then return none
  if (← pool.text entry.nameIndex) ≠ constantValueAttribute then return none
  match ← pool.number? (bigEndian entry.body) with
  | none => return none
  | some value => return some { name := ← pool.text nameIndex, value }

/-- Reads a field: its constants. -/
def readField (pool : ConstantPool) : Reader (List ConstantField) := do
  let flags ← readShort
  let nameIndex ← readShort
  skip 2
  let count ← readShort
  let constants ← readTimes (do fieldConstant? pool flags nameIndex (← readAttribute)) count
  return constants.filterMap id

/-! ### Methods -/

/-- The native method with the given flags, name and descriptor. -/
def nativeMethod (pool : ConstantPool) (flags nameIndex descriptorIndex : Nat) :
    Except ClassFileError NativeMethod := do
  let name ← pool.text nameIndex
  if !ClassName.isMethod name || name.toList.head? = some '<' then throw (.invalidMethodName name)
  match MethodDescriptor.parse (← pool.text descriptorIndex) with
  | .error error => throw (.invalidDescriptor error)
  | .ok types => return { name, types, isStatic := isStatic flags }

/-- Reads a method: itself if it is native. -/
def readMethod (pool : ConstantPool) : Reader (Option NativeMethod) := do
  let flags ← readShort
  let nameIndex ← readShort
  let descriptorIndex ← readShort
  let count ← readShort
  let method ←
    if isNative flags then some <$> nativeMethod pool flags nameIndex descriptorIndex
    else pure none
  let _ ← readTimes readAttribute count
  return method

/-! ### Classes -/

/-- Reads the number and the version in front of a class file. -/
def readHead : Reader Unit := do
  if (← readWord) ≠ magic then throw .invalidMagic
  let minor ← readShort
  let major ← readShort
  if major < leastMajor ∨ greatestMajor < major then throw (.unsupportedVersion major minor)

/-- Reads the flags, the names and the interfaces of a class: the summary without members. -/
def readNames (pool : ConstantPool) : Reader ClassSummary := do
  skip 2
  let thisIndex ← readShort
  let superIndex ← readShort
  let interfaces ← readShort
  skip (2 * interfaces)
  let name ← pool.className thisIndex
  let superName ← if superIndex = 0 then pure none else some <$> pool.className superIndex
  return { name, superName }

/-- Reads a class. -/
def readClass : Reader ClassSummary := do
  readHead
  let pool ← readPool
  let summary ← readNames pool
  let constants ← readTimes (readField pool) (← readShort)
  let methods ← readTimes (readMethod pool) (← readShort)
  let _ ← readAttributes
  return summary.withMembers constants.flatten (methods.filterMap id)

/-- The summary of the class whose file starts with the given bytes. -/
def read (bytes : List UInt8) : Except ClassFileError ClassSummary := do
  let (summary, _) ← readClass.run bytes
  return summary

end NativeHeaders.ClassFile
