import ClassCensus.TypeText.Descriptor

/-!
# Signatures

A signature is the generic type of a class, a method or a field: types with type arguments, after optional type
parameters with their bounds.

* (nested classes) a class type is a sequence of segments, each with its own arguments; the segments joined by `$` are
  the name of the class (`TypeSignature.namesOnto`);
* (order) a class comes after the classes in its own type arguments;
* (depth) type arguments are nested at most 255 deep (`maxArgumentDepth`); the fault shows at the opening bracket.
-/

namespace ClassCensus

/-- The greatest depth of type arguments. -/
def maxArgumentDepth : Nat := 255

mutual

/-- A generic type: an element type under a number of array dimensions. -/
structure TypeSignature where
  dimensions : Nat
  element : ElementSignature

/-- A generic type that is not an array type. -/
inductive ElementSignature where
  | primitive (type : PrimitiveType)
  | variable (name : String)
  /-- A class, and the classes nested in one another that lead to it. -/
  | classType (outermost : ClassSegment) (nested : List ClassSegment)

/-- A part of the name of a class type, with or without type arguments. -/
inductive ClassSegment where
  | plain (name : String)
  | applied (name : String) (arguments : List TypeArgument)

/-- A type argument: any type, or a type as it is, as an upper bound or as a lower bound. -/
inductive TypeArgument where
  | any
  | exactly (type : TypeSignature)
  | atMost (type : TypeSignature)
  | atLeast (type : TypeSignature)

end

/-- A type parameter with its bounds. -/
structure TypeParameter where
  name : String
  classBound? : Option TypeSignature
  interfaceBounds : List TypeSignature

/-- The part of a signature after the type parameters. -/
inductive SignatureBody where
  | method (parameters : List TypeSignature) (result? : Option TypeSignature) (thrown : List TypeSignature)
  /-- The type of a field, or the superclass and the interfaces of a class. -/
  | types (types : List TypeSignature)

/-- A signature; a list of type parameters may be present and empty. -/
structure Signature where
  typeParameters? : Option (List TypeParameter)
  body : SignatureBody

namespace TypeParser

/-- The segment of a class type ahead, whose arguments `arguments` reads. -/
def segment (arguments : TypeParser (List TypeArgument)) : TypeParser ClassSegment := do
  let name ← identifier fun c => c = '<' || c = '.' || c = ';'
  if (← peek) = some '<' then return .applied name (← arguments)
  else return .plain name

/-- The class type ahead, after its leading letter. -/
def classType (bound : Nat) (arguments : TypeParser (List TypeArgument)) : TypeParser ElementSignature := do
  let outermost ← segment arguments
  let nested ← repeatWhile bound (· = some '.') do
    advance
    segment arguments
  if (← peek) ≠ some ';' then throw .malformedClassType
  advance
  return .classType outermost nested

/-- The generic element type ahead, whose type arguments `arguments` reads. -/
def elementSignature (bound : Nat) (arguments : TypeParser (List TypeArgument)) : TypeParser ElementSignature := do
  match ← peek with
  | none => throw .endOfSignature
  | some c =>
    match PrimitiveType.ofLetter? c with
    | some type =>
      advance
      return .primitive type
    | none =>
      if c = 'T' then
        advance
        let name ← identifier (· = ';')
        advance
        return .variable name
      else if c = 'L' then
        advance
        classType bound arguments
      else throw .invalidTypeSignature

/-- The generic type ahead, whose type arguments `arguments` reads. -/
def typeSignature (bound : Nat) (arguments : TypeParser (List TypeArgument)) : TypeParser TypeSignature := do
  let dimensions ← dimensions
  let element ← elementSignature bound arguments
  return ⟨dimensions, element⟩

/-- The type argument ahead, whose type `type` reads. -/
def typeArgument (type : TypeParser TypeSignature) : TypeParser TypeArgument := do
  match ← peek with
  | none => throw .unterminatedArguments
  | some '*' =>
    advance
    return .any
  | some '+' =>
    advance
    return .atMost (← type)
  | some '-' =>
    advance
    return .atLeast (← type)
  | some _ => return .exactly (← type)

/-- The type arguments ahead with their brackets, if `levels` allow them. -/
def typeArguments (bound : Nat) : (levels : Nat) → TypeParser (List TypeArgument)
  | 0 => throw .argumentsTooDeep
  | levels + 1 => do
    advance
    let arguments ← repeatWhile bound (· ≠ some '>') (typeArgument (typeSignature bound (typeArguments bound levels)))
    advance
    return arguments

/-- The generic type ahead, outside of type arguments. -/
def outerType (bound : Nat) : TypeParser TypeSignature :=
  typeSignature bound (typeArguments bound maxArgumentDepth)

/-- The type parameter ahead. -/
def typeParameter (bound : Nat) : TypeParser TypeParameter := do
  if (← peek) = none then throw .unterminatedParameters
  let name ← identifier (· = ':')
  advance
  let next ← peek
  let classBound? ← if next = some ':' ∨ next = some '>' then pure none else some <$> outerType bound
  let interfaceBounds ← repeatWhile bound (· = some ':') do
    advance
    outerType bound
  return ⟨name, classBound?, interfaceBounds⟩

/-- The type parameters ahead with their brackets, if there are any. -/
def typeParameters? (bound : Nat) : TypeParser (Option (List TypeParameter)) := do
  if (← peek) = some '<' then
    advance
    let parameters ← repeatWhile bound (· ≠ some '>') (typeParameter bound)
    advance
    return some parameters
  else return none

/-- The part of a signature after the type parameters. -/
def signatureBody (bound : Nat) : TypeParser SignatureBody := do
  if (← peek) = some '(' then
    advance
    let parameters ← repeatWhile bound (· ≠ some ')') (outerType bound)
    advance
    let result? ← result (outerType bound)
    let thrown ← repeatWhile bound (· = some '^') do
      advance
      outerType bound
    return .method parameters result? thrown
  else return .types (← repeatWhile bound Option.isSome (outerType bound))

/-- A class, method or field signature. -/
def signature (bound : Nat) : TypeParser Signature := do
  let typeParameters? ← typeParameters? bound
  let body ← signatureBody bound
  return ⟨typeParameters?, body⟩

end TypeParser

/-- The name of a segment. -/
def ClassSegment.name : ClassSegment → String
  | .plain name | .applied name _ => name

mutual

/-- The classes that a type names, after the names `found` (latest first). -/
def TypeSignature.namesOnto (found : List String) : TypeSignature → List String
  | ⟨_, element⟩ => element.namesOnto found

/-- The classes that an element type names, after the names `found` (latest first). -/
def ElementSignature.namesOnto (found : List String) : ElementSignature → List String
  | .primitive _ | .variable _ => found
  | .classType outermost nested =>
    "$".intercalate (outermost.name :: nested.map ClassSegment.name) ::
      segmentNamesOnto (outermost.namesOnto found) nested

/-- The classes that the arguments of segments name, after the names `found` (latest first). -/
def segmentNamesOnto (found : List String) : List ClassSegment → List String
  | [] => found
  | segment :: segments => segmentNamesOnto (segment.namesOnto found) segments

/-- The classes that the arguments of a segment name, after the names `found` (latest first). -/
def ClassSegment.namesOnto (found : List String) : ClassSegment → List String
  | .plain _ => found
  | .applied _ arguments => argumentNamesOnto found arguments

/-- The classes that type arguments name, after the names `found` (latest first). -/
def argumentNamesOnto (found : List String) : List TypeArgument → List String
  | [] => found
  | argument :: arguments => argumentNamesOnto (argument.namesOnto found) arguments

/-- The classes that a type argument names, after the names `found` (latest first). -/
def TypeArgument.namesOnto (found : List String) : TypeArgument → List String
  | .any => found
  | .exactly type | .atMost type | .atLeast type => type.namesOnto found

end

/-- The types of the bounds of a type parameter, in order. -/
def TypeParameter.bounds (p : TypeParameter) : List TypeSignature :=
  p.classBound?.toList ++ p.interfaceBounds

/-- The outermost types of the part after the type parameters, in order. -/
def SignatureBody.outerTypes : SignatureBody → List TypeSignature
  | .method parameters result? thrown => parameters ++ result?.toList ++ thrown
  | .types outer => outer

/-- The outermost types of a signature, in order. -/
def Signature.outerTypes (s : Signature) : List TypeSignature :=
  (s.typeParameters?.getD []).flatMap TypeParameter.bounds ++ s.body.outerTypes

/-- The classes that a signature names, each after the classes in its own type arguments. -/
def Signature.classNames (s : Signature) : List String :=
  (s.outerTypes.foldl TypeSignature.namesOnto []).reverse

/-- The signature that a text spells. -/
def Signature.parse (text : String) : Except FormatError Signature :=
  TypeParser.parse TypeParser.signature text

end ClassCensus
