import ClassCensus.Decimal.Shortest
import ClassCensus.Text.Quoted

/-!
# Constants

The entries of a constant pool. Links between entries stay indices: a link may point forward, to itself or nowhere,
and only following it shows that.

* (words) a floating-point constant is its bit pattern, so every pattern survives reading;
* (slots) `Constant.unusable` fills slot 0 and the slot after an eight-byte constant (`Constant.isWide`);
* (text) `Constant.describe` is the form in which messages show a constant.
-/

namespace ClassCensus

/-- The kinds of member that a member reference names. -/
inductive MemberKind where
  | field
  | method
  | interfaceMethod
deriving DecidableEq

/-- An entry of a constant pool. -/
inductive Constant where
  /-- A slot that holds no entry of its own. -/
  | unusable
  | utf8 (text : String)
  | integer (value : Int32)
  | float (bits : UInt32)
  | long (value : Int64)
  | double (bits : UInt64)
  | classInfo (name : UInt16)
  | string (text : UInt16)
  | memberRef (kind : MemberKind) (owner nameAndType : UInt16)
  | nameAndType (name descriptor : UInt16)
  | methodHandle (kind : UInt8) (reference : UInt16)
  | methodType (descriptor : UInt16)
  | dynamic (bootstrap nameAndType : UInt16)
  | invokeDynamic (bootstrap nameAndType : UInt16)
  /-- A module or package entry, of which only the tag is kept. -/
  | undecoded (tag : UInt8)
deriving DecidableEq

namespace Constant

/-- The constant takes two slots. -/
def isWide : Constant → Bool
  | .long _ | .double _ => true
  | _ => false

/-- A constant with a name and the values of its unnamed parts. -/
private def tuple (name : String) (value : String) : String :=
  name ++ "(" ++ value ++ ")"

/-- A constant with a name and its parts under their own names. -/
private def withParts (name : String) (parts : List (String × String)) : String :=
  name ++ " \x7b " ++ ", ".intercalate (parts.map fun part => part.1 ++ ": " ++ part.2) ++ " \x7d"

/-- Numbers stand positionally from 0.0001 up to below 10^16. -/
def numberStyle : Decimal.Style where
  leastPositional := -4
  leastLarge := 16
  notANumber := "NaN"
  infinity := "inf"

/-- The form in which messages show a member kind. -/
def describeKind : MemberKind → String
  | .field => "Field"
  | .method => "Method"
  | .interfaceMethod => "InterfaceMethod"

/-- The form in which messages show a constant. -/
def describe : Constant → String
  | .unusable => "Unusable"
  | .utf8 text => tuple "Utf8" (Text.quote text)
  | .integer value => tuple "Integer" (toString value.toInt)
  | .float bits => tuple "Float" (numberStyle.render (BinaryFormat.single.decode bits.toNat))
  | .long value => tuple "Long" (toString value.toInt)
  | .double bits => tuple "Double" (numberStyle.render (BinaryFormat.double.decode bits.toNat))
  | .classInfo name => withParts "Class" [("name_index", toString name.toNat)]
  | .string text => withParts "String" [("string_index", toString text.toNat)]
  | .memberRef kind owner member =>
    withParts "MemberRef" [("kind", describeKind kind), ("class_index", toString owner.toNat),
      ("name_and_type_index", toString member.toNat)]
  | .nameAndType name descriptor =>
    withParts "NameAndType" [("name_index", toString name.toNat), ("descriptor_index", toString descriptor.toNat)]
  | .methodHandle kind reference =>
    withParts "MethodHandle" [("reference_kind", toString kind.toNat), ("reference_index", toString reference.toNat)]
  | .methodType descriptor => withParts "MethodType" [("descriptor_index", toString descriptor.toNat)]
  | .dynamic bootstrap member =>
    withParts "Dynamic" [("bootstrap_method_attr_index", toString bootstrap.toNat),
      ("name_and_type_index", toString member.toNat)]
  | .invokeDynamic bootstrap member =>
    withParts "InvokeDynamic" [("bootstrap_method_attr_index", toString bootstrap.toNat),
      ("name_and_type_index", toString member.toNat)]
  | .undecoded tag => withParts "Opaque" [("tag", toString tag.toNat)]

end Constant

end ClassCensus
