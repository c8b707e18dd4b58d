import NativeHeaders.ClassFile.Reader
import NativeHeaders.Constant
import NativeHeaders.Text.ModifiedUtf8

/-! # The constant pool

The other parts of a class file refer to the constant pool by index. Slot 0 is never used, and a constant of
eight bytes takes two slots of which the second is not used either. Only texts, numbers and classes are kept;
entries of other kinds are passed over. -/

namespace NativeHeaders.ClassFile

/-- What a slot of the pool holds. -/
inductive Constant where
  /-- A text. -/
  | utf8 (text : String)
  /-- A number. -/
  | number (value : ConstantValue)
  /-- A class, with the index of its name. -/
  | classRef (nameIndex : Nat)
  /-- A constant of another kind. -/
  | other
  /-- Nothing. -/
  | unusable
deriving DecidableEq, Repr

/-- The slots that a constant takes. -/
def Constant.slots : Constant → List Constant
  | .number (.long value) => [.number (.long value), .unusable]
  | .number (.double bits) => [.number (.double bits), .unusable]
  | constant => [constant]

/-- Every constant takes up at least one slot of the pool. -/
theorem Constant.length_slots_pos (constant : Constant) : 0 < constant.slots.length := by
  unfold slots
  split <;> simp

/-- Reads the entry that starts at the slot with the given index. -/
def readConstant (index : Nat) : Reader Constant := do
  match ← readByte with
  | 1 =>
    let length ← readShort
    let bytes ← takeBytes length
    match Text.ModifiedUtf8.decode? bytes with
    | some text => return .utf8 text
    | none => throw (.invalidText index)
  | 3 => return .number (.int (UInt32.ofNat (← readWord)).toInt32)
  | 4 => return .number (.float (UInt32.ofNat (← readWord)))
  | 5 => return .number (.long (UInt64.ofNat (← readNumber 8)).toInt64)
  | 6 => return .number (.double (UInt64.ofNat (← readNumber 8)))
  | 7 => return .classRef (← readShort)
  | 8 | 16 | 19 | 20 => skip 2; return .other
  | 15 => skip 3; return .other
  | 9 | 10 | 11 | 12 | 17 | 18 => skip 4; return .other
  | tag => throw (.unsupportedConstant tag)

/-- The slots of a pool by index. -/
abbrev ConstantPool := Array Constant

/-- Reads entries until the pool has `count` slots; a constant of eight bytes may end one slot further. -/
def readSlots (count : Nat) (pool : ConstantPool) : Reader ConstantPool :=
  if pool.size < count then do
    let constant ← readConstant pool.size
    readSlots count (pool ++ constant.slots)
  else return pool
termination_by count - pool.size
decreasing_by
  have := constant.length_slots_pos
  have : (pool ++ constant.slots).size = pool.size + constant.slots.length := by
    simp [← Array.length_toList]
  omega

/-- Reads a pool. -/
def readPool : Reader ConstantPool := do
  let count ← readShort
  readSlots count #[.unusable]

namespace ConstantPool

/-- What the pool holds at an index. -/
def slot (pool : ConstantPool) (index : Nat) : Except ClassFileError Constant :=
  match pool[index]? with
  | some constant => .ok constant
  | none => .error (.invalidConstantIndex index)

/-- The text at an index. -/
def text (pool : ConstantPool) (index : Nat) : Except ClassFileError String := do
  match ← pool.slot index with
  | .utf8 text => return text
  | _ => throw (.invalidConstantIndex index)

/-- The name of the class at an index. -/
def className (pool : ConstantPool) (index : Nat) : Except ClassFileError String := do
  match ← pool.slot index with
  | .classRef nameIndex => pool.text nameIndex
  | _ => throw (.invalidConstantIndex index)

/-- The number at an index; nothing if a constant of another kind stands there. -/
def number? (pool : ConstantPool) (index : Nat) : Except ClassFileError (Option ConstantValue) := do
  match ← pool.slot index with
  | .number value => return some value
  | .unusable => throw (.invalidConstantIndex index)
  | _ => return none

end ConstantPool

end NativeHeaders.ClassFile
