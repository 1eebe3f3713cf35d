import ClassCensus.Proofs.Layout.SpelledTag

/-!
# Constructs as they are spelled

Tags, comments, sections of character data and processing instructions, each with what may stand in it.  After the `<`
each of them is read as the one construct that it is, whatever follows (`IsConstruct`).

* (marks) a construct that a mark closes must not have that mark inside; the search for the mark then stops at its end
  and not before (`splitMarkOnto_encode`);
* (end tags) the name in an end tag is found without the blanks after it (`isConstruct_closing`).
-/

namespace ClassCensus.Layout

open Text.Utf8 (encode)

/-- A comment, by what stands between its marks. -/
structure Comment where
  chars : List Char
  inside : ¬ ['-', '-'] <:+: chars
  last : chars.getLast? ≠ some '-'

/-- A section of character data, by what stands between its marks. -/
structure CharacterData where
  chars : List Char
  inside : ¬ [']', ']', '>'] <:+: chars

/-- A processing instruction, by its target and what follows that. -/
structure Instruction where
  target : Name
  data : List Char
  apart : ∀ c ∈ data.head?, c ∈ blankChars
  inside : ¬ ['?', '>'] <:+: data

/-- What is between the brackets of a comment. -/
def Comment.content (comment : Comment) : List Char :=
  ['!', '-', '-'] ++ (comment.chars ++ ['-', '-'])

/-- What is between the brackets of a section. -/
def CharacterData.content (data : CharacterData) : List Char :=
  ['!', '[', 'C', 'D', 'A', 'T', 'A', '['] ++ (data.chars ++ [']', ']'])

/-- What is between the brackets of an instruction. -/
def Instruction.content (instruction : Instruction) : List Char :=
  ['?'] ++ ((instruction.target.chars ++ instruction.data) ++ ['?'])

/-- After a `<`, the bytes are exactly the rest of a construct with the given event. -/
def IsConstruct (bytes : List UInt8) (event : Event) : Prop :=
  ∀ offset rest, ∃ past, construct offset (bytes ++ rest) = .ok (⟨event, offset, past⟩, rest)

/-- A construct, from the parts that its reading has. -/
theorem IsConstruct.of_content {kind : Construct} {content : List UInt8} {event : Event}
    (start : ∀ rest, Construct.ofStart (content ++ ascii '>' :: rest) = .ok kind)
    (split : ∀ rest, kind.split? (content ++ ascii '>' :: rest) = some (content, rest))
    (means : kind.toEvent content = .ok event) : IsConstruct (content ++ [ascii '>']) event := by
  intro offset rest
  rw [List.append_assoc, List.singleton_append, construct, start]
  simp only [split, means]
  exact ⟨_, rfl⟩

/-! ### Constructs that a mark closes -/

private theorem splitMarkOnto_eq {closes : List UInt8 → Bool} {content read : List UInt8}
    (closed : closes (content.reverse ++ read) = true)
    (inside : ∀ left right, content = left ++ ascii '>' :: right → closes (left.reverse ++ read) = false)
    (rest : List UInt8) :
    Construct.splitMarkOnto closes read (content ++ ascii '>' :: rest) = some (read.reverse ++ content, rest) := by
  induction content generalizing read with
  | nil =>
    rw [List.nil_append, Construct.splitMarkOnto, if_pos ⟨rfl, closed⟩, List.append_nil]
  | cons b content ih =>
    have early : ¬ (b = ascii '>' ∧ closes read = true) := by
      rintro ⟨rfl, early⟩
      exact Bool.false_ne_true ((inside [] content rfl).symm.trans early)
    rw [List.cons_append, Construct.splitMarkOnto, if_neg early, ih (by simpa using closed)]
    · simp
    · intro left right e
      simpa using inside (b :: left) right (congrArg (b :: ·) e)

/-- What stands neither in the opening of a construct nor in its mark stands between them. -/
private theorem split_between {x : Char} {opening chars mark before after : List Char}
    (h : opening ++ (chars ++ mark) = before ++ x :: after) (notOpening : x ∉ opening) (notMark : x ∉ mark) :
    ∃ inside behind, chars = inside ++ x :: behind ∧ before = opening ++ inside ∧ after = behind ++ mark := by
  -- if it comes right after the first part, the second part starts with it
  have atEnd {left right : List Char} (e : x :: after = left ++ (right ++ mark)) (outside : x ∉ left) :
      ∃ behind, right = x :: behind ∧ left = [] ∧ after = behind ++ mark := by
    cases left with
    | cons c left => exact absurd (by rw [(List.cons.inj e).1]; exact List.mem_cons_self) outside
    | nil =>
      cases right with
      | nil => exact absurd (by rw [← show x :: after = mark from e]; exact List.mem_cons_self) notMark
      | cons c right => exact ⟨right, by rw [(List.cons.inj e).1], rfl, (List.cons.inj e).2⟩
  rcases List.append_eq_append_iff.1 h with ⟨inside, opened, e⟩ | ⟨inside, opened, e⟩
  · rcases List.append_eq_append_iff.1 e with ⟨more, -, e⟩ | ⟨more, split, e⟩
    · exact absurd (by rw [e]; simp) notMark
    · obtain ⟨behind, rfl, -, rest⟩ := @atEnd [] more e (List.not_mem_nil)
      exact ⟨inside, behind, split, opened, rest⟩
  · obtain ⟨behind, rfl, rfl, rest⟩ := atEnd e fun mem => notOpening (by rw [opened]; exact List.mem_append_right _ mem)
    exact ⟨[], behind, rfl, by rw [opened, List.append_nil, List.append_nil], rest⟩

/-- The search for a mark passes over the content of a construct, unless the mark stands before a `>` inside. -/
theorem splitMarkOnto_encode {closes : List UInt8 → Bool} {opening chars mark : List Char}
    (notOpening : '>' ∉ opening) (notMark : '>' ∉ mark)
    (closed : closes (encode (opening ++ (chars ++ mark))).reverse = true)
    (inside : ∀ before after, chars = before ++ '>' :: after → closes (encode (opening ++ before)).reverse = false)
    (rest : List UInt8) :
    Construct.splitMarkOnto closes [] (encode (opening ++ (chars ++ mark)) ++ ascii '>' :: rest) =
      some (encode (opening ++ (chars ++ mark)), rest) := by
  refine splitMarkOnto_eq (by rwa [List.append_nil]) ?_ rest
  intro left right split
  obtain ⟨before, after, e, rfl, -⟩ := @Text.Utf8.eq_append_of_encode '>' (by decide) _ _ _ split
  obtain ⟨before, behind, between, rfl, -⟩ := split_between e notOpening notMark
  rw [List.append_nil]
  exact inside before behind between

/-- A mark at the end of what has been read is a mark at the end of the text. -/
private theorem suffix_of_isPrefixOf {x : Char} {mark chars : List Char} (ascii : x.toNat < 0x80)
    (h : (encode (x :: mark)).reverse.isPrefixOf (encode chars).reverse = true) : x :: mark <:+ chars :=
  Text.Utf8.suffix_of_encode ascii (List.reverse_prefix.1 (List.isPrefixOf_iff_prefix.1 h))

private theorem isPrefixOf_of_suffix (chars mark : List Char) :
    (encode mark).reverse.isPrefixOf (encode (chars ++ mark)).reverse = true := by
  simp

/-- A mark of two characters before a `>`, after an opening with which it cannot start. -/
private theorem infix_of_suffix {x : Char} {opening before : List Char} (h : [x, x] <:+ opening ++ before)
    (long : 2 ≤ before.length) (after : List Char) : [x, x, '>'] <:+: before ++ '>' :: after := by
  obtain ⟨front, e⟩ := List.suffix_of_suffix_length_le h (List.suffix_append opening before) long
  exact ⟨front, after, by rw [← e]; simp⟩

theorem closesComment_encode {before : List Char}
    (h : Construct.closesComment (encode (['!', '-', '-'] ++ before)).reverse = true) :
    ['-', '-'] <:+ ['!', '-', '-'] ++ before ∧ 2 ≤ before.length := by
  obtain ⟨marked, long⟩ := Bool.and_eq_true_iff.1 h
  have suffix : ['-', '-'] <:+ ['!', '-', '-'] ++ before := @suffix_of_isPrefixOf '-' ['-'] _ (by decide) marked
  refine ⟨suffix, ?_⟩
  match before with
  | [] => cases long
  | [c] =>
    obtain ⟨front, e⟩ := suffix
    have last := (@List.append_inj' _ front ['-', '-'] ['!', '-'] ['-', c] e rfl).2
    cases last
    cases long
  | _ :: _ :: rest => simp

/-- A comment ends at its mark. -/
theorem isConstruct_comment (comment : Comment) :
    IsConstruct (encode (comment.content ++ ['>'])) .comment := by
  rw [Text.Utf8.encode_append]
  refine @IsConstruct.of_content .comment _ _ (fun _ => rfl) ?_ rfl
  refine splitMarkOnto_encode (by decide) (by decide) ?_ ?_
  · have long : 5 ≤ (encode comment.content).reverse.length := by
      simp only [Comment.content, Text.Utf8.encode_append, List.length_reverse, List.length_append]
      exact Nat.add_le_add (Nat.le_refl 3) (Nat.le_add_left 2 _)
    refine Bool.and_eq_true_iff.2 ⟨?_, decide_eq_true ?_⟩
    · exact isPrefixOf_of_suffix (['!', '-', '-'] ++ comment.chars) ['-', '-']
    · rw [List.length_take]
      exact Nat.le_min.2 ⟨Nat.le_refl 5, long⟩
  · intro before after e
    rw [← Bool.not_eq_true]
    intro early
    obtain ⟨suffix, long⟩ := closesComment_encode early
    have marked := infix_of_suffix suffix long after
    rw [← e] at marked
    exact comment.inside (List.IsInfix.trans ⟨[], ['>'], rfl⟩ marked)

/-- A section of character data ends at its mark. -/
theorem isConstruct_cdata (data : CharacterData) : IsConstruct (encode (data.content ++ ['>'])) .cdata := by
  rw [Text.Utf8.encode_append]
  refine @IsConstruct.of_content .cdata _ _ (fun _ => rfl) ?_ rfl
  refine splitMarkOnto_encode (by decide) (by decide) ?_ ?_
  · exact isPrefixOf_of_suffix (['!', '[', 'C', 'D', 'A', 'T', 'A', '['] ++ data.chars) [']', ']']
  · intro before after e
    rw [← Bool.not_eq_true]
    intro early
    have suffix : [']', ']'] <:+ ['!', '[', 'C', 'D', 'A', 'T', 'A', '['] ++ before :=
      @suffix_of_isPrefixOf ']' [']'] _ (by decide) early
    have long : 2 ≤ before.length := by
      match before with
      | [] => exact absurd suffix (by decide)
      | [c] =>
        obtain ⟨front, e⟩ := suffix
        have last := (@List.append_inj' _ front [']', ']'] ['!', '[', 'C', 'D', 'A', 'T', 'A'] ['[', c] e rfl).2
        cases last
      | _ :: _ :: rest => simp
    have marked := infix_of_suffix suffix long after
    rw [← e] at marked
    exact data.inside marked

/-- A processing instruction ends at its mark; it may be an XML declaration. -/
theorem isConstruct_instruction (instruction : Instruction) :
    IsConstruct (encode (instruction.content ++ ['>'])) .instruction ∨
      IsConstruct (encode (instruction.content ++ ['>'])) .declaration := by
  have split : ∀ rest, Construct.splitMarkOnto Construct.closesInstruction []
      (encode instruction.content ++ ascii '>' :: rest) = some (encode instruction.content, rest) := by
    refine splitMarkOnto_encode (by decide) (by decide) ?_ ?_
    · exact isPrefixOf_of_suffix (['?'] ++ (instruction.target.chars ++ instruction.data)) ['?']
    · intro before after e
      rw [← Bool.not_eq_true]
      intro early
      have suffix : ['?'] <:+ ['?'] ++ before := @suffix_of_isPrefixOf '?' [] _ (by decide) early
      cases before with
      | nil =>
        have first : instruction.target.first = '>' := (List.cons.inj e).1
        exact instruction.target.notMem (by decide : isNameChar '>' = false) (first ▸ List.mem_cons_self)
      | cons c before =>
        obtain ⟨front, marked⟩ := List.suffix_of_suffix_length_le suffix (List.suffix_append ['?'] _) (by simp)
        rw [← marked, List.append_assoc, ← List.append_nil (instruction.target.chars ++ _), List.append_assoc] at e
        obtain ⟨inside, behind, data, -, rest⟩ := split_between e (instruction.target.notMem (by decide)) (by simp)
        refine instruction.inside ⟨inside, after, ?_⟩
        rw [data, ← List.append_nil behind, ← rest]
        simp
  have means : Construct.instruction.toEvent (encode instruction.content) = .ok .instruction ∨
      Construct.instruction.toEvent (encode instruction.content) = .ok .declaration := by
    have long : ¬ (encode instruction.content).length ≤ 1 := by
      simp only [Instruction.content, Text.Utf8.encode_append, List.length_append]
      exact Nat.not_le.2 (Nat.add_le_add (Nat.le_refl 1) (Nat.le_add_left 1 _))
    rw [Construct.toEvent, if_neg long, Construct.instructionEvent]
    split
    · exact .inr rfl
    · exact .inl rfl
  rw [Text.Utf8.encode_append]
  rcases means with means | means
  · exact .inl (.of_content (fun _ => rfl) split means)
  · exact .inr (.of_content (fun _ => rfl) split means)

/-! ### Tags -/

/-- What starts with a name is a tag. -/
private theorem ofStart_tag (name : Name) (rest : List UInt8) :
    Construct.ofStart (encode name.chars ++ rest) = .ok .tag := by
  obtain ⟨first, others, written⟩ := name.exists_encode_eq_cons
  have ne {c : Char} (mark : c.toNat < 0x80 ∧ isNameChar c = false) : ascii c ≠ first := by
    rintro rfl
    exact name.ascii_notMem mark (by rw [written]; exact List.mem_cons_self)
  have slash := @ne '/' (by decide)
  have question := @ne '?' (by decide)
  have exclamation := @ne '!' (by decide)
  rw [written]
  simp [Construct.ofStart, asciiText, slash, question, exclamation]

private theorem eq_of_suffix {x c : Char} {chars : List Char} (h : [x] <:+ chars ++ [c]) : x = c := by
  obtain ⟨front, e⟩ := h
  exact (List.cons.inj (List.append_inj' e rfl).2).1

/-- A tag ends with a character of its name, a quote or a blank. -/
private theorem not_slash_suffix (tag : SpelledTag) : ¬ ['/'] <:+ tag.chars := by
  intro suffix
  rw [SpelledTag.chars, SpelledTag.attributeChars] at suffix
  rcases List.eq_nil_or_concat tag.after.chars with noBlanks | ⟨blanks, last, blank⟩
  · rw [noBlanks, List.append_nil] at suffix
    rcases List.eq_nil_or_concat tag.attributes with none | ⟨attributes, attr, some⟩
    · rw [none, List.flatMap_nil, List.append_nil] at suffix
      exact tag.name.notMem (by decide : isNameChar '/' = false) (suffix.subset List.mem_cons_self)
    · rw [some, List.concat_eq_append, List.flatMap_append, List.flatMap_singleton, SpelledAttribute.chars,
        SpelledAttribute.quoted] at suffix
      simp only [← List.append_assoc, ← List.cons_append] at suffix
      have ne : '/' ≠ attr.quote.char := by
        cases attr.quote
        all_goals decide
      exact ne (eq_of_suffix suffix)
  · rw [blank, List.concat_eq_append, ← List.append_assoc, ← List.append_assoc] at suffix
    have slash := tag.after.blank last (by simp [blank])
    rw [← eq_of_suffix suffix] at slash
    exact absurd slash (by decide)

theorem SpelledTag.getLast?_ne (tag : SpelledTag) : (encode tag.chars).getLast? ≠ some (ascii '/') := by
  intro last
  obtain ⟨front, e⟩ := List.getLast?_eq_some_iff.1 last
  exact not_slash_suffix tag (@Text.Utf8.suffix_of_encode '/' (by decide) [] _ ⟨front, e.symm⟩)

theorem isConstruct_opening (tag : SpelledTag) :
    IsConstruct (encode (tag.chars ++ ['>'])) (.opening (encode tag.chars)) := by
  rw [Text.Utf8.encode_append]
  refine @IsConstruct.of_content .tag _ _ ?_ (PassedInTag.spelledTag tag).split ?_
  · intro rest
    rw [SpelledTag.chars, Text.Utf8.encode_append, List.append_assoc]
    exact ofStart_tag tag.name _
  · rw [Construct.toEvent, if_neg tag.getLast?_ne]

theorem isConstruct_empty (tag : SpelledTag) :
    IsConstruct (encode (tag.chars ++ ['/', '>'])) (.empty (encode tag.chars)) := by
  have slash : PassedInTag (encode ['/']) := .of_notMem (List.all_iff_forall_prop.1 (by decide))
  rw [show ['/', '>'] = ['/'] ++ ['>'] from rfl, ← List.append_assoc, Text.Utf8.encode_append,
    Text.Utf8.encode_append]
  refine @IsConstruct.of_content .tag _ _ ?_ ((PassedInTag.spelledTag tag).append slash).split ?_
  · intro rest
    rw [SpelledTag.chars, Text.Utf8.encode_append, List.append_assoc, List.append_assoc]
    exact ofStart_tag tag.name _
  · rw [show encode ['/'] = [ascii '/'] from rfl, Construct.toEvent, if_pos List.getLast?_concat, List.dropLast_concat]

/-- Of the content of an end tag, the blanks at the end do not belong to the name. -/
private theorem endTagName_encode (name : Name) (blanks : Blanks) :
    Construct.endTagName (encode name.chars ++ encode blanks.chars) = encode name.chars := by
  have some : ¬ (encode name.chars ++ encode blanks.chars).all isBlank = true := by
    obtain ⟨first, others, written⟩ := name.exists_encode_eq_cons
    have firm := name.isBlank_of_mem first (by rw [written]; exact List.mem_cons_self)
    simp [written, firm]
  rw [Construct.endTagName, if_neg some, trimEnd_append blanks.isBlank_of_mem]
  rcases List.eq_nil_or_concat (encode name.chars) with none | ⟨front, last, e⟩
  · rw [none]
    rfl
  · rw [List.concat_eq_append] at e
    rw [e, trimEnd_concat_firm (name.isBlank_of_mem last (by simp [e]))]

theorem isConstruct_closing (name : Name) (blanks : Blanks) :
    IsConstruct (encode ('/' :: (name.chars ++ blanks.chars) ++ ['>'])) (.closing (encode name.chars)) := by
  have slash : PassedInTag (encode ['/']) := .of_notMem (List.all_iff_forall_prop.1 (by decide))
  have passed := slash.append ((PassedInTag.name name).append (PassedInTag.blanks blanks))
  rw [Text.Utf8.encode_append, ← List.singleton_append, Text.Utf8.encode_append, Text.Utf8.encode_append]
  refine @IsConstruct.of_content .endTag _ _ (fun _ => rfl) passed.split ?_
  rw [Construct.toEvent]
  exact congrArg (fun found => Except.ok (Event.closing found)) (endTagName_encode name blanks)

end ClassCensus.Layout
