import ClassCensus.Proofs.Machine.TextReader
import ClassCensus.Proofs.TypeText.SignatureGrammar
import ClassCensus.TypeText.ClassName

/-!
# Reading type texts without faults

The readings of descriptors and signatures by bytes, and that they follow those by characters; so no descriptor, no
signature and no class entry makes the machine fault (`descriptorClasses_eq`, `signatureClasses_eq`, `entryClass?_eq`).

* (readings) each reading has the name of the parser that it follows and that says what is read;
* (places) every character that is passed over has just been seen, or has stopped a name or a repetition;
* (rounds) that a repetition moves forward is known from the grammar: nothing that it repeats is spelled without a
  character.
-/

namespace ClassCensus.Machine

open View TextReader

namespace TextReader

/-! ### Descriptors -/

/-- The array brackets ahead, as their number, after `counted` others; `allowed` more are allowed. -/
def dimensionsOnto (counted : Nat) : (allowed : Nat) → TextReading Nat
  | 0 => do
    if (← peek) = some '[' then refuse .tooManyDimensions
    else return counted
  | allowed + 1 => do
    if (← peek) = some '[' then
      advance
      dimensionsOnto (counted + 1) allowed
    else return counted

def dimensions : TextReading Nat :=
  dimensionsOnto 0 maxDimensions

def elementType : TextReading ElementType := do
  match ← peek with
  | none => refuse .endOfDescriptor
  | some c =>
    match PrimitiveType.ofLetter? c with
    | some type =>
      advance
      return .primitive type
    | none =>
      if c ≠ 'L' then refuse .invalidType
      advance
      let name ← identifier (· = ';')
      advance
      return .object name

def fieldType : TextReading FieldType := do
  let dimensions ← dimensions
  let element ← elementType
  return ⟨dimensions, element⟩

def result {α : Type} (type : TextReading α) : TextReading (Option α) := do
  if (← peek) = some 'V' then
    advance
    return none
  else return some (← type)

def descriptor (rounds : Nat) : TextReading Descriptor := do
  if (← peek) = some '(' then
    advance
    let parameters ← repeatWhile rounds (· ≠ some ')') fieldType
    advance
    return .method parameters (← result fieldType)
  else return .field (← fieldType)

/-! ### Signatures -/

def segment (arguments : TextReading (List TypeArgument)) : TextReading ClassSegment := do
  let name ← identifier fun c => c = '<' || c = '.' || c = ';'
  if (← peek) = some '<' then return .applied name (← arguments)
  else return .plain name

def classType (rounds : Nat) (arguments : TextReading (List TypeArgument)) : TextReading ElementSignature := do
  let outermost ← segment arguments
  let nested ← repeatWhile rounds (· = some '.') do
    advance
    segment arguments
  if (← peek) ≠ some ';' then refuse .malformedClassType
  advance
  return .classType outermost nested

def elementSignature (rounds : Nat) (arguments : TextReading (List TypeArgument)) : TextReading ElementSignature := do
  match ← peek with
  | none => refuse .endOfSignature
  | some c =>
    match PrimitiveType.ofLetter? c with
    | some type =>
      advance
      return .primitive type
    | none =>
      if c = 'T' then
        advance
        let name ← identifier (· = ';')
        advance
        return .variable name
      else if c = 'L' then
        advance
        classType rounds arguments
      else refuse .invalidTypeSignature

def typeSignature (rounds : Nat) (arguments : TextReading (List TypeArgument)) : TextReading TypeSignature := do
  let dimensions ← dimensions
  let element ← elementSignature rounds arguments
  return ⟨dimensions, element⟩

def typeArgument (type : TextReading TypeSignature) : TextReading TypeArgument := do
  match ← peek with
  | none => refuse .unterminatedArguments
  | some '*' =>
    advance
    return .any
  | some '+' =>
    advance
    return .atMost (← type)
  | some '-' =>
    advance
    return .atLeast (← type)
  | some _ => return .exactly (← type)

def typeArguments (rounds : Nat) : (levels : Nat) → TextReading (List TypeArgument)
  | 0 => refuse .argumentsTooDeep
  | levels + 1 => do
    advance
    let arguments ← repeatWhile rounds (· ≠ some '>')
      (typeArgument (typeSignature rounds (typeArguments rounds levels)))
    advance
    return arguments

def outerType (rounds : Nat) : TextReading TypeSignature :=
  typeSignature rounds (typeArguments rounds maxArgumentDepth)

def typeParameter (rounds : Nat) : TextReading TypeParameter := do
  if (← peek) = none then refuse .unterminatedParameters
  let name ← identifier (· = ':')
  advance
  let next ← peek
  let classBound? ← if next = some ':' ∨ next = some '>' then pure none else some <$> outerType rounds
  let interfaceBounds ← repeatWhile rounds (· = some ':') do
    advance
    outerType rounds
  return ⟨name, classBound?, interfaceBounds⟩

def typeParameters? (rounds : Nat) : TextReading (Option (List TypeParameter)) := do
  if (← peek) = some '<' then
    advance
    let parameters ← repeatWhile rounds (· ≠ some '>') (typeParameter rounds)
    advance
    return some parameters
  else return none

def signatureBody (rounds : Nat) : TextReading SignatureBody := do
  if (← peek) = some '(' then
    advance
    let parameters ← repeatWhile rounds (· ≠ some ')') (outerType rounds)
    advance
    let result? ← result (outerType rounds)
    let thrown ← repeatWhile rounds (· = some '^') do
      advance
      outerType rounds
    return .method parameters result? thrown
  else return .types (← repeatWhile rounds Option.isSome (outerType rounds))

def signature (rounds : Nat) : TextReading Signature := do
  let typeParameters? ← typeParameters? rounds
  let body ← signatureBody rounds
  return ⟨typeParameters?, body⟩

/-! ### Descriptors follow -/

variable {text : String} {bound : Nat}

/-- The brackets ahead, after `counted` others, if there are at most `allowed`. -/
private def bracketsOnto (counted allowed : Nat) : TypeParser Nat := fun cursor =>
  let brackets := (cursor.rest.takeWhile (· = '[')).length
  if brackets ≤ allowed then .ok (counted + brackets) ⟨cursor.position + brackets, cursor.rest.drop brackets⟩
  else .error .tooManyDimensions ⟨cursor.position + allowed, cursor.rest.drop allowed⟩

private theorem bracketsOnto_of_ne {counted allowed : Nat} {cursor : TypeCursor}
    (other : cursor.rest.head? ≠ some '[') : bracketsOnto counted allowed cursor = .ok counted cursor := by
  have none : cursor.rest.takeWhile (· = '[') = [] := by
    cases rest : cursor.rest with
    | nil => rfl
    | cons c behind =>
      rw [rest] at other
      exact List.takeWhile_cons_of_neg (by simpa using other)
  simp [bracketsOnto, none]

private theorem bracketsOnto_succ {counted allowed : Nat} {cursor : TypeCursor}
    (bracket : cursor.rest.head? = some '[') :
    bracketsOnto counted (allowed + 1) cursor =
      (TypeParser.advance >>= fun _ => bracketsOnto (counted + 1) allowed) cursor := by
  obtain ⟨position, rest⟩ := cursor
  obtain ⟨behind, rfl⟩ : ∃ behind, rest = '[' :: behind := ⟨rest.tail, (List.cons_head?_tail bracket).symm⟩
  have passed : (TypeParser.advance >>= fun _ => bracketsOnto (counted + 1) allowed) ⟨position, '[' :: behind⟩ =
      bracketsOnto (counted + 1) allowed ⟨position + 1, behind⟩ := rfl
  rw [passed]
  simp only [bracketsOnto, List.takeWhile_cons, decide_true, if_true, List.length_cons, Nat.add_le_add_iff_right,
    List.drop_succ_cons, Nat.add_right_comm _ 1]
  rfl

private theorem bracketsOnto_zero {counted : Nat} {cursor : TypeCursor} (bracket : cursor.rest.head? = some '[') :
    bracketsOnto counted 0 cursor = .error .tooManyDimensions cursor := by
  obtain ⟨position, rest⟩ := cursor
  obtain ⟨behind, rfl⟩ : ∃ behind, rest = '[' :: behind := ⟨rest.tail, (List.cons_head?_tail bracket).symm⟩
  simp [bracketsOnto]

private theorem follows_dimensionsOnto (counted allowed : Nat) :
    (onText text).Follows (dimensionsOnto counted allowed) (bracketsOnto counted allowed) := by
  induction allowed generalizing counted with
  | zero =>
    intro cursor valid
    refine followsAt_look ((blind_next (by decide)).ite _ _) valid fun next ahead => ?_
    by_cases bracket : next = some '['
    · rw [if_pos bracket]
      exact followsAt_of_error (bracketsOnto_zero (ahead.trans bracket)) rfl
    · rw [if_neg bracket]
      exact followsAt_of_ok (bracketsOnto_of_ne (ahead ▸ bracket)) valid rfl
  | succ allowed ih =>
    intro cursor valid
    refine followsAt_look ((blind_next (by decide)).ite _ _) valid fun next ahead => ?_
    by_cases bracket : next = some '['
    · rw [if_pos bracket]
      have passed := followsAt_advance (by decide) (ahead.trans bracket) valid
      exact (passed.bind fun _ after _ valid => ih (counted + 1) after valid).congr
        (bracketsOnto_succ (ahead.trans bracket))
    · rw [if_neg bracket]
      exact followsAt_of_ok (bracketsOnto_of_ne (ahead ▸ bracket)) valid rfl

private theorem follows_dimensions : (onText text).Follows dimensions TypeParser.dimensions := by
  have same : TypeParser.dimensions = bracketsOnto 0 maxDimensions := by
    funext cursor
    simp only [TypeParser.dimensions, bracketsOnto, Nat.zero_add]
  rw [same]
  exact follows_dimensionsOnto 0 maxDimensions

private theorem ascii_letter {c : Char} {type : PrimitiveType} (h : PrimitiveType.ofLetter? c = some type) :
    c.toNat < 0x80 := by
  rw [PrimitiveType.ofLetter?_eq_some_iff.1 h]
  cases type <;> decide

private theorem ofLetter?_of_large {c : Char} (large : 0x80 ≤ c.toNat) : PrimitiveType.ofLetter? c = none := by
  cases letter : PrimitiveType.ofLetter? c with
  | none => rfl
  | some type => exact absurd (ascii_letter letter) (by omega)

private theorem stopsAscii {x : Char} (ascii : x.toNat < 0x80) : StopsAscii fun c => decide (c = x) := by
  intro c stops
  rw [of_decide_eq_true stops]
  exact ascii

/-- A name up to the character `stop`, which is passed over. -/
private theorem follows_name {α : Type} {stop : Char} (ascii : stop.toNat < 0x80) (f : String → α) :
    (onText text).Follows (do
        let name ← identifier (· = stop)
        advance
        return f name) (do
        let name ← TypeParser.identifier (· = stop)
        TypeParser.advance
        return f name) := by
  intro cursor valid
  refine followsAt_identifier_bind (stopsAscii ascii) valid fun name after c valid ahead stops => ?_
  obtain rfl := of_decide_eq_true stops
  exact (followsAt_advance ascii ahead valid).bind fun _ _ _ valid => .pure _ valid

private theorem follows_elementType : (onText text).Follows elementType TypeParser.elementType := by
  intro cursor valid
  refine followsAt_peek (fun c c' large large' => ?_) valid fun next ahead => ?_
  · simp [ofLetter?_of_large large, ofLetter?_of_large large', ne_of_large large (show 'L'.toNat < 0x80 by decide),
      ne_of_large large' (show 'L'.toNat < 0x80 by decide)]
  cases next with
  | none => exact followsAt_refuse _ _
  | some c =>
    dsimp only
    cases letter : PrimitiveType.ofLetter? c with
    | some type =>
      exact (followsAt_advance (ascii_letter letter) ahead valid).bind fun _ _ _ valid => .pure _ valid
    | none =>
      by_cases isClass : c = 'L'
      · subst isClass
        exact (followsAt_advance (by decide) ahead valid).bind fun _ _ _ valid =>
          follows_name (by decide) ElementType.object _ valid
      · exact .ite (fun _ => followsAt_refuse_bind _ _ _ _) fun other => absurd isClass other

private theorem follows_fieldType : (onText text).Follows fieldType TypeParser.fieldType :=
  follows_dimensions.bind fun _ => follows_elementType.bind fun _ => .pure _

private theorem follows_result {α : Type} {m : TextReading α} {p : TypeParser α} (h : (onText text).Follows m p) :
    (onText text).Follows (result m) (TypeParser.result p) :=
  follows_ifNext (by decide) (.pure _) (h.bind fun _ => .pure _)

private theorem follows_descriptor (few : text.toList.length < bound) :
    (onText text).Follows (descriptor bound) (TypeParser.descriptor bound) := by
  refine follows_ifNext (by decide) (fun cursor valid => ?_) (follows_fieldType.bind fun _ => .pure _)
  exact followsAt_repeatUntil_bind (by decide) follows_fieldType TypeParser.reads_fieldType
    (fun _ _ type spelt => spelt.1 ▸ type.spell_ne_nil) few valid
    fun _ => (follows_result follows_fieldType).bind fun _ => .pure _

/-! ### Signatures follow -/

section Generic

variable {levels : Nat} {m : TextReading (List TypeArgument)} {p : TypeParser (List TypeArgument)}

private theorem stopsAscii_segment : StopsAscii fun c => c = '<' || c = '.' || c = ';' := by
  intro c stops
  simp only [Bool.or_eq_true, decide_eq_true_eq] at stops
  obtain (rfl | rfl) | rfl := stops <;> decide

/-- Arguments follow where they begin with an opening bracket. -/
def FollowsArguments (text : String) (m : TextReading (List TypeArgument)) (p : TypeParser (List TypeArgument)) :
    Prop :=
  ∀ cursor, (onText text).Valid cursor → cursor.rest.head? = some '<' → (onText text).FollowsAt m p cursor

private theorem follows_segment (h : FollowsArguments text m p) :
    (onText text).Follows (segment m) (TypeParser.segment p) := by
  intro cursor valid
  refine followsAt_identifier_bind stopsAscii_segment valid fun name after _ valid _ _ => ?_
  refine followsAt_peek ((blind_next (by decide)).ite _ _) valid fun next ahead =>
    .ite (fun opens => ?_) fun _ => .pure _ valid
  exact (h after valid (ahead.trans opens)).bind fun _ _ _ valid => .pure _ valid

/-- What is read behind an announcing character. -/
private theorem followsWhile_behind {α : Type} {x : Char} (ascii : x.toNat < 0x80) {m : TextReading α}
    {p : TypeParser α} (h : (onText text).Follows m p) :
    FollowsWhile text (· = some x) (advance >>= fun _ => m) (TypeParser.advance >>= fun _ => p) := by
  intro cursor valid announced
  exact (followsAt_advance ascii (of_decide_eq_true announced) valid).bind fun _ after _ valid => h after valid

/-- What takes a character takes one behind another, too. -/
private theorem ne_nil_of_advance {α : Type} {S : Phrase α} (given : ∀ taken rest a, S taken rest a → taken ≠ [])
    (taken rest : List Char) (a : α)
    (h : (∃ c behind, taken = c :: behind ∧ S behind rest a) ∨ taken ++ rest = [] ∧ S [] rest a) : taken ≠ [] := by
  rcases h with ⟨c, behind, rfl, -⟩ | ⟨-, spelt⟩
  · exact List.cons_ne_nil _ _
  · exact absurd rfl (given [] rest a spelt)

private theorem follows_classType (h : FollowsArguments text m p)
    (reads : TypeParser.ReadsArguments bound levels p) (few : text.toList.length < bound) :
    (onText text).Follows (classType bound m) (TypeParser.classType bound p) := by
  refine (follows_segment h).bind fun outermost cursor valid => ?_
  have given : ∀ taken (rest : List Char) (s : ClassSegment),
      taken = s.spell ∧ s.Legal levels ∧ TypeParser.EndsSegment rest s → taken ≠ [] :=
    fun _ _ _ spelt => spelt.1 ▸ ClassSegment.spell_ne_nil spelt.2.1
  refine followsAt_repeatWhile_bind (followsWhile_behind (by decide) (follows_segment h))
    (TypeParser.reads_segment reads).advance (ne_nil_of_advance given) (blind_next (by decide)).decide few valid
    fun nested after valid _ => ?_
  refine followsAt_peek ((blind_next (by decide)).not.ite _ _) valid fun next ahead => ?_
  refine .ite (fun _ => followsAt_refuse_bind _ _ _ _) fun closes => ?_
  exact (followsAt_advance (by decide) (ahead.trans (not_not.1 closes)) valid).bind fun _ _ _ valid => .pure _ valid

private theorem follows_elementSignature (h : FollowsArguments text m p)
    (reads : TypeParser.ReadsArguments bound levels p) (few : text.toList.length < bound) :
    (onText text).Follows (elementSignature bound m) (TypeParser.elementSignature bound p) := by
  intro cursor valid
  refine followsAt_peek (fun c c' large large' => ?_) valid fun next ahead => ?_
  · simp [ofLetter?_of_large large, ofLetter?_of_large large', ne_of_large large (show 'T'.toNat < 0x80 by decide),
      ne_of_large large' (show 'T'.toNat < 0x80 by decide), ne_of_large large (show 'L'.toNat < 0x80 by decide),
      ne_of_large large' (show 'L'.toNat < 0x80 by decide)]
  cases next with
  | none => exact followsAt_refuse _ _
  | some c =>
    dsimp only
    cases letter : PrimitiveType.ofLetter? c with
    | some type =>
      exact (followsAt_advance (ascii_letter letter) ahead valid).bind fun _ _ _ valid => .pure _ valid
    | none =>
      refine .ite (fun isVariable => ?_) fun _ => .ite (fun isClass => ?_) fun _ => followsAt_refuse _ _
      · subst isVariable
        exact (followsAt_advance (by decide) ahead valid).bind fun _ _ _ valid =>
          follows_name (by decide) ElementSignature.variable _ valid
      · subst isClass
        exact (followsAt_advance (by decide) ahead valid).bind fun _ after _ valid =>
          follows_classType h reads few after valid

private theorem follows_typeSignature (h : FollowsArguments text m p)
    (reads : TypeParser.ReadsArguments bound levels p) (few : text.toList.length < bound) :
    (onText text).Follows (typeSignature bound m) (TypeParser.typeSignature bound p) :=
  follows_dimensions.bind fun _ => (follows_elementSignature h reads few).bind fun _ => .pure _

/-- Outside of ASCII, a type argument is a type. -/
private theorem typeArgument_of_large {m : TextReading TypeSignature} {c : Char} (large : 0x80 ≤ c.toNat) :
    (match some c with
      | none => refuse .unterminatedArguments
      | some '*' => do
        advance
        return .any
      | some '+' => do
        advance
        return .atMost (← m)
      | some '-' => do
        advance
        return .atLeast (← m)
      | some _ => return .exactly (← m) : TextReading TypeArgument) = (do return .exactly (← m)) := by
  split
  case h_1 absent => cases absent
  case h_2 same => exact absurd (Option.some.inj same) (ne_of_large large (by decide))
  case h_3 same => exact absurd (Option.some.inj same) (ne_of_large large (by decide))
  case h_4 same => exact absurd (Option.some.inj same) (ne_of_large large (by decide))
  case h_5 => rfl

private theorem follows_typeArgument {m : TextReading TypeSignature} {p : TypeParser TypeSignature}
    (h : (onText text).Follows m p) : (onText text).Follows (typeArgument m) (TypeParser.typeArgument p) := by
  intro cursor valid
  refine followsAt_peek (fun c c' large large' => ?_) valid fun next ahead => ?_
  · exact (typeArgument_of_large large).trans (typeArgument_of_large large').symm
  split
  case h_1 => exact followsAt_refuse _ _
  case h_2 =>
    exact (followsAt_advance (by decide) ahead valid).bind fun _ _ _ valid => .pure _ valid
  case h_3 =>
    exact (followsAt_advance (by decide) ahead valid).bind fun _ after _ valid => (h.bind fun _ => .pure _) after valid
  case h_4 =>
    exact (followsAt_advance (by decide) ahead valid).bind fun _ after _ valid => (h.bind fun _ => .pure _) after valid
  case h_5 =>
    repeat' split
    all_goals first | exact (h.bind fun _ => .pure _) cursor valid | simp_all

/-- Type arguments follow at each level, by the arguments at the level below. -/
private theorem follows_typeArguments (few : text.toList.length < bound) (levels : Nat) :
    FollowsArguments text (typeArguments bound levels) (TypeParser.typeArguments bound levels) := by
  induction levels with
  | zero => exact fun cursor _ _ => followsAt_refuse _ cursor
  | succ levels ih =>
    intro cursor valid opens
    have reads := @TypeParser.readsArguments_typeArguments bound levels
    have each := follows_typeArgument (follows_typeSignature ih reads few)
    refine (followsAt_advance (by decide) opens valid).bind fun _ _ _ valid => ?_
    exact followsAt_repeatUntil_bind (by decide) each
      (TypeParser.reads_typeArgument (TypeParser.reads_typeSignature reads))
      (fun _ _ argument spelt => spelt.1 ▸ argument.spell_ne_nil) few valid fun _ => .pure _

end Generic

private theorem follows_outerType (few : text.toList.length < bound) :
    (onText text).Follows (outerType bound) (TypeParser.outerType bound) :=
  follows_typeSignature (follows_typeArguments few _) (TypeParser.readsArguments_typeArguments _) few

private theorem typeTaken_ne_nil (taken _ : List Char) (type : TypeSignature)
    (spelt : taken = type.spell ∧ type.Legal maxArgumentDepth) : taken ≠ [] :=
  spelt.1 ▸ type.spell_ne_nil

/-- The types behind an announcing character each. -/
private theorem follows_typesBehind {α : Type} {x : Char} (ascii : x.toNat < 0x80) (few : text.toList.length < bound)
    (f : List TypeSignature → α) : (onText text).Follows
      (do
        let types ← repeatWhile bound (· = some x) do
          advance
          outerType bound
        return f types)
      (do
        let types ← TypeParser.repeatWhile bound (· = some x) do
          TypeParser.advance
          TypeParser.outerType bound
        return f types) := by
  intro cursor valid
  exact followsAt_repeatWhile_bind (followsWhile_behind ascii (follows_outerType few))
    TypeParser.reads_outerType.advance (ne_nil_of_advance typeTaken_ne_nil) (blind_next ascii).decide few valid
    fun types after valid _ => .pure _ valid

private theorem follows_typeParameter (few : text.toList.length < bound) :
    (onText text).Follows (typeParameter bound) (TypeParser.typeParameter bound) := by
  intro cursor valid
  refine followsAt_peek (fun c c' _ _ => by simp) valid fun next _ =>
    .ite (fun _ => followsAt_refuse_bind _ _ _ _) fun _ => ?_
  refine followsAt_identifier_bind (stopsAscii (by decide)) valid fun name after c valid ahead stops => ?_
  obtain rfl := of_decide_eq_true stops
  refine (followsAt_advance (by decide) ahead valid).bind fun _ after _ valid => ?_
  have decides : Blind fun next => next = some ':' ∨ next = some '>' :=
    (blind_next (by decide)).or (blind_next (by decide))
  refine followsAt_peek (fun c c' large large' => ?_) valid fun next _ => ?_
  · simp only [decides c c' large large']
  have bounds (classBound? : Option TypeSignature) :=
    follows_typesBehind (x := ':') (by decide) few (TypeParameter.mk name classBound?)
  refine .ite (fun _ => ?_) fun _ => ?_
  · exact (FollowsAt.pure none valid).bind fun classBound? after _ valid => bounds classBound? after valid
  · exact ((follows_outerType few).map some).bind bounds after valid

private theorem follows_typeParameters? (few : text.toList.length < bound) :
    (onText text).Follows (typeParameters? bound) (TypeParser.typeParameters? bound) := by
  refine follows_ifNext (by decide) (fun cursor valid => ?_) (.pure _)
  exact followsAt_repeatUntil_bind (by decide) (follows_typeParameter few) TypeParser.reads_typeParameter
    (fun _ _ parameter spelt => by simp [spelt.1, TypeParameter.spell]) few valid fun _ => .pure _

private theorem follows_signatureBody (few : text.toList.length < bound) :
    (onText text).Follows (signatureBody bound) (TypeParser.signatureBody bound) := by
  refine follows_ifNext (by decide) (fun cursor valid => ?_) fun cursor valid => ?_
  · exact followsAt_repeatUntil_bind (by decide) (follows_outerType few) TypeParser.reads_outerType typeTaken_ne_nil
      few valid fun parameters => (follows_result (follows_outerType few)).bind fun result? =>
        follows_typesBehind (by decide) few (SignatureBody.method parameters result?)
  · exact followsAt_repeatWhile_bind (fun cursor valid _ => follows_outerType few cursor valid)
      TypeParser.reads_outerType typeTaken_ne_nil (fun _ _ _ _ => rfl) few valid fun _ _ valid _ => .pure _ valid

private theorem follows_signature (few : text.toList.length < bound) :
    (onText text).Follows (signature bound) (TypeParser.signature bound) :=
  (follows_typeParameters? few).bind fun _ => (follows_signatureBody few).bind fun _ => .pure _

end TextReader

/-! ### The classes of a text -/

def descriptorClasses (text : String) : Checked (List String) :=
  Descriptor.classNames <$> TextReader.parse TextReader.descriptor text

def signatureClasses (text : String) : Checked (List String) :=
  Signature.classNames <$> TextReader.parse TextReader.signature text

def entryClass? (text : String) : Checked (Option String) :=
  match text.toList with
  | [] => throw .emptyClassName
  | '[' :: _ => FieldType.className? <$> TextReader.parse (fun _ => TextReader.fieldType) text
  | _ => return some text

theorem descriptorClasses_eq (text : String) : descriptorClasses text = total (ClassCensus.descriptorClasses text) := by
  rw [descriptorClasses, ClassCensus.descriptorClasses, parse_eq fun _ => follows_descriptor, total_map]
  rfl

theorem signatureClasses_eq (text : String) : signatureClasses text = total (ClassCensus.signatureClasses text) := by
  rw [signatureClasses, ClassCensus.signatureClasses, parse_eq fun _ => follows_signature, total_map]
  rfl

theorem entryClass?_eq (text : String) : entryClass? text = total (ClassCensus.entryClass? text) := by
  rw [entryClass?, ClassCensus.entryClass?, parse_eq fun _ _ => follows_fieldType, ← total_map]
  generalize text.toList = chars
  split
  case h_1 => rfl
  case h_2 => rfl
  case h_3 =>
    repeat' split
    all_goals first | rfl | simp_all

end ClassCensus.Machine
