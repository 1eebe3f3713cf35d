import ClassCensus.TypeText.Signature

/-!
# Class names

Class files write the name of a class with slashes between its packages; reports write it with dots.

* (entries) a class entry holds a class name, or an array type whose element type may name a class;
* (platform) the classes below `java.` belong to the platform and are left out of reports.
-/

namespace ClassCensus

/-- The form of a class name that reports use. -/
def canonicalName (internal : String) : String :=
  String.ofList (internal.toList.map fun c => if c = '/' then '.' else c)

/-- The first part of the names of platform classes. -/
def platformRoot : String := "java."

/-- The name belongs to the platform. -/
def isPlatformName (name : String) : Bool :=
  platformRoot.toList.isPrefixOf name.toList

/-- The classes that a descriptor names, from left to right. -/
def descriptorClasses (text : String) : Except FormatError (List String) :=
  Descriptor.classNames <$> Descriptor.parse text

/-- The classes that a signature names, each after the classes in its own type arguments. -/
def signatureClasses (text : String) : Except FormatError (List String) :=
  Signature.classNames <$> Signature.parse text

/-- The class that the text of a class entry names, if any. -/
def entryClass? (text : String) : Except FormatError (Option String) :=
  match text.toList with
  | [] => .error .emptyClassName
  | '[' :: _ => FieldType.className? <$> FieldType.parse text
  | _ => .ok (some text)

end ClassCensus
