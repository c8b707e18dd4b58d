import Mathlib.Algebra.Group.Nat.Defs
import Mathlib.Data.List.Forall2
import NativeHeaders.ClassFile

/-! # The format of class files

The parts of a class file as data (`File`), how they are written (`File.encode`), when they can be
written (`File.WellFormed`), and which facts a header needs of them (`File.Extracts`). Nothing here
reads bytes, and no index is followed by position in a table of slots: `entryAt?` counts the slots
that entries take, so that the second slot of a wide constant is the slot of no entry. -/

namespace NativeHeaders.ClassFile.Format

/-! ### Numbers and lists -/

/-- The last `width` bytes of a number, the highest first. -/
def numberBytes : Nat → Nat → List UInt8
  | 0, _ => []
  | width + 1, number => numberBytes width (number / 256) ++ [UInt8.ofNat number]

/-- Things one after the other, with their number in front. -/
def counted {X : Type} (encode : X → List UInt8) (items : List X) : List UInt8 :=
  numberBytes 2 items.length ++ items.flatMap encode

/-- The number of things that can stand in front of them. -/
def IsShort {X : Type} (items : List X) : Prop := items.length < 2 ^ 16

/-! ### The constant pool -/

/-- An entry of the constant pool. -/
inductive Entry where
  /-- A text in modified UTF-8. -/
  | utf8 (bytes : List UInt8)
  /-- An integer of 32 bits. -/
  | integer (bits : UInt32)
  /-- A floating point number of 32 bits. -/
  | float (bits : UInt32)
  /-- An integer of 64 bits. -/
  | long (bits : UInt64)
  /-- A floating point number of 64 bits. -/
  | double (bits : UInt64)
  /-- A class, with the index of its name. -/
  | classRef (nameIndex : UInt16)
  /-- An entry of another kind, with the bytes behind the tag. -/
  | other (tag : Nat) (payload : List UInt8)
deriving DecidableEq, Repr

namespace Entry

/-- The number of bytes behind the tag of an entry of another kind. -/
def otherLength? : Nat → Option Nat
  | 8 | 16 | 19 | 20 => some 2
  | 15 => some 3
  | 9 | 10 | 11 | 12 | 17 | 18 => some 4
  | _ => none

/-- The number that tells the kind of the entry. -/
def tag : Entry → Nat
  | .utf8 _ => 1
  | .integer _ => 3
  | .float _ => 4
  | .long _ => 5
  | .double _ => 6
  | .classRef _ => 7
  | .other tag _ => tag

/-- The bytes behind the tag. -/
def payload : Entry → List UInt8
  | .utf8 bytes => numberBytes 2 bytes.length ++ bytes
  | .integer bits | .float bits => numberBytes 4 bits.toNat
  | .long bits | .double bits => numberBytes 8 bits.toNat
  | .classRef nameIndex => numberBytes 2 nameIndex.toNat
  | .other _ payload => payload

/-- How the entry is written. -/
def encode (entry : Entry) : List UInt8 := numberBytes 1 entry.tag ++ entry.payload

/-- The slots that the entry takes: constants of eight bytes take two. -/
def width : Entry → Nat
  | .long _ | .double _ => 2
  | _ => 1

/-- The text of the entry, if it is one. -/
def text? : Entry → Option String
  | .utf8 bytes => Text.ModifiedUtf8.decode? bytes
  | _ => none

/-- The number that the entry is, if it is one. -/
def number? : Entry → Option ConstantValue
  | .integer bits => some (.int bits.toInt32)
  | .float bits => some (.float bits)
  | .long bits => some (.long bits.toInt64)
  | .double bits => some (.double bits)
  | _ => none

/-- The entry can be written: a text is encoded correctly and is not too long, and an entry of
another kind has a known tag and the right number of bytes. -/
def WellFormed : Entry → Prop
  | .utf8 bytes => IsShort bytes ∧ (Text.ModifiedUtf8.decode? bytes).isSome
  | .other tag payload => otherLength? tag = some payload.length
  | _ => True

end Entry

/-- The entries, of which the first one stands at `slot`, are exactly those that start below
`count`: each one does, and behind the last one no slot below `count` is left. -/
def Fill (count : Nat) : Nat → List Entry → Prop
  | slot, [] => count ≤ slot
  | slot, entry :: entries => slot < count ∧ Fill count (slot + entry.width) entries

/-- The entry whose first slot has the given index, where the first of the entries stands at `slot`.
-/
def entryFrom? : Nat → List Entry → Nat → Option Entry
  | _, [], _ => none
  | slot, entry :: entries, index =>
    if index = slot then some entry else entryFrom? (slot + entry.width) entries index

/-- The entry of a pool at an index. Slot 0 is the slot of no entry. -/
def entryAt? (entries : List Entry) (index : UInt16) : Option Entry :=
  entryFrom? 1 entries index.toNat

/-- The text of a pool at an index. -/
def textAt? (entries : List Entry) (index : UInt16) : Option String :=
  (entryAt? entries index).bind Entry.text?

/-- The name of the class of a pool at an index. -/
def classAt? (entries : List Entry) (index : UInt16) : Option String :=
  match entryAt? entries index with
  | some (.classRef nameIndex) => textAt? entries nameIndex
  | _ => none

/-! ### Members -/

/-- An attribute of a member or of a class. -/
structure Attribute where
  /-- The index of the name. -/
  nameIndex : UInt16
  /-- The contents. -/
  body : List UInt8
deriving DecidableEq, Repr

/-- How the attribute is written. -/
def Attribute.encode (item : Attribute) : List UInt8 :=
  numberBytes 2 item.nameIndex.toNat ++ numberBytes 4 item.body.length ++ item.body

/-- The attribute is not too long to be written. -/
def Attribute.WellFormed (item : Attribute) : Prop := item.body.length < 2 ^ 32

/-- A field or a method. -/
structure Member where
  /-- The flags. -/
  flags : UInt16
  /-- The index of the name. -/
  nameIndex : UInt16
  /-- The index of the descriptor. -/
  descriptorIndex : UInt16
  /-- The attributes. -/
  attributes : List Attribute
deriving DecidableEq, Repr

/-- How the member is written. -/
def Member.encode (member : Member) : List UInt8 :=
  numberBytes 2 member.flags.toNat ++ numberBytes 2 member.nameIndex.toNat ++
    numberBytes 2 member.descriptorIndex.toNat ++ counted Attribute.encode member.attributes

/-- The member can be written. -/
def Member.WellFormed (member : Member) : Prop :=
  IsShort member.attributes ∧ ∀ item ∈ member.attributes, item.WellFormed

/-! ### Files -/

/-- The parts of a class file. -/
structure File where
  /-- The minor version. -/
  minor : UInt16
  /-- The major version. -/
  major : UInt16
  /-- The stored number of slots of the constant pool, the one with index 0 included. -/
  poolCount : UInt16
  /-- The entries of the constant pool. -/
  entries : List Entry
  /-- The flags of the class. -/
  flags : UInt16
  /-- The index of the class itself. -/
  thisIndex : UInt16
  /-- The index of the superclass, or 0. -/
  superIndex : UInt16
  /-- The indices of the interfaces. -/
  interfaces : List UInt16
  /-- The fields. -/
  fields : List Member
  /-- The methods. -/
  methods : List Member
  /-- The attributes of the class. -/
  attributes : List Attribute
deriving DecidableEq, Repr

namespace File

/-- How the file is written. -/
def encode (file : File) : List UInt8 :=
  numberBytes 4 magic ++ numberBytes 2 file.minor.toNat ++ numberBytes 2 file.major.toNat ++
    (numberBytes 2 file.poolCount.toNat ++ file.entries.flatMap Entry.encode) ++
    (numberBytes 2 file.flags.toNat ++ numberBytes 2 file.thisIndex.toNat ++
      numberBytes 2 file.superIndex.toNat ++
      counted (fun index : UInt16 => numberBytes 2 index.toNat) file.interfaces) ++
    counted Member.encode file.fields ++ counted Member.encode file.methods ++
    counted Attribute.encode file.attributes

/-- The file can be written, in a supported version. -/
structure WellFormed (file : File) : Prop where
  /-- The version is supported. -/
  supported : leastMajor ≤ file.major.toNat ∧ file.major.toNat ≤ greatestMajor
  /-- The entries are those that the stored number of slots asks for. -/
  fill : Fill file.poolCount.toNat 1 file.entries
  /-- The entries can be written. -/
  entries : ∀ entry ∈ file.entries, entry.WellFormed
  /-- The interfaces can be counted. -/
  interfaces : IsShort file.interfaces
  /-- The fields can be counted and written. -/
  fields : IsShort file.fields ∧ ∀ field ∈ file.fields, field.WellFormed
  /-- The methods can be counted and written. -/
  methods : IsShort file.methods ∧ ∀ method ∈ file.methods, method.WellFormed
  /-- The attributes can be counted and written. -/
  attributes : IsShort file.attributes ∧ ∀ item ∈ file.attributes, item.WellFormed

end File

/-! ### What a header needs -/

variable (entries : List Entry)

/-- The constant that an attribute gives to a field, if any. -/
inductive FieldConstant (field : Member) : Attribute → Option ConstantField → Prop where
  /-- The field is not static, or the attribute does not have two bytes: its name does not matter.
  -/
  | passedOver {item : Attribute}
      (h : ¬(isStatic field.flags.toNat = true ∧ item.body.length = 2)) :
      FieldConstant field item none
  /-- The attribute has another name. -/
  | otherName {item : Attribute} {name : String} (hstatic : isStatic field.flags.toNat = true)
      (hlength : item.body.length = 2)
      (hname : textAt? entries item.nameIndex = some name)
      (hne : name ≠ constantValueAttribute) : FieldConstant field item none
  /-- The constant is no number. -/
  | notNumeric {nameIndex index : UInt16} {entry : Entry}
      (hstatic : isStatic field.flags.toNat = true)
      (hname : textAt? entries nameIndex = some constantValueAttribute)
      (hentry : entryAt? entries index = some entry) (hnumber : entry.number? = none) :
      FieldConstant field { nameIndex, body := numberBytes 2 index.toNat } none
  /-- The constant is a number. -/
  | numeric {nameIndex index : UInt16} {entry : Entry} {value : ConstantValue} {fieldName : String}
      (hstatic : isStatic field.flags.toNat = true)
      (hname : textAt? entries nameIndex = some constantValueAttribute)
      (hentry : entryAt? entries index = some entry) (hnumber : entry.number? = some value)
      (hfield : textAt? entries field.nameIndex = some fieldName) :
      FieldConstant field { nameIndex, body := numberBytes 2 index.toNat }
        (some { name := fieldName, value })

/-- The native method that a method is, if it is one. -/
inductive NativeEntry : Member → Option NativeMethod → Prop where
  /-- The method is not native: neither its name nor its descriptor matters. -/
  | notNative {method : Member} (h : isNative method.flags.toNat = false) : NativeEntry method none
  /-- The method is native, and has a legal name and a descriptor. -/
  | native {method : Member} {name descriptor : String} {types : MethodDescriptor}
      (h : isNative method.flags.toNat = true)
      (hname : textAt? entries method.nameIndex = some name)
      (hmethod : ClassName.isMethod name = true) (hhead : name.toList.head? ≠ some '<')
      (hdescriptor : textAt? entries method.descriptorIndex = some descriptor)
      (htypes : MethodDescriptor.parse descriptor = .ok types) :
      NativeEntry method (some { name, types, isStatic := isStatic method.flags.toNat })

/-- The name of the superclass, where the index 0 stands for none. -/
inductive SuperName : UInt16 → Option String → Prop where
  /-- There is no superclass. -/
  | root : SuperName 0 none
  /-- There is a superclass. -/
  | named {index : UInt16} {name : String} (hindex : index ≠ 0)
      (h : classAt? entries index = some name) : SuperName index (some name)

/-- What a header needs of a class file: the names, the numeric constants of static fields in the
order of the fields, and the native methods, added in their order. -/
inductive File.Extracts (file : File) : ClassSummary → Prop where
  /-- Each part is found. -/
  | intro {name : String} {superName : Option String}
      {constants : List (List (Option ConstantField))} {methods : List (Option NativeMethod)}
      (hname : classAt? file.entries file.thisIndex = some name)
      (hsuper : SuperName file.entries file.superIndex superName)
      (hconstants : List.Forall₂
        (fun field => List.Forall₂ (FieldConstant file.entries field) field.attributes)
        file.fields constants)
      (hmethods : List.Forall₂ (NativeEntry file.entries) file.methods methods) :
      file.Extracts (({ name, superName } : ClassSummary).withMembers
        (constants.flatten.filterMap id) (methods.filterMap id))

end NativeHeaders.ClassFile.Format
