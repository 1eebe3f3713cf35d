import ClassCensus.Layout.Outline
import ClassCensus.Proofs.Layout.SpelledConstruct

/-!
# Scanning a document piece by piece

`Outline.scan` reads the rest of a document in a given state of the outline, and `dottedNames` is the scan of the
whole document (`dottedNames_eq_scan`).  Some bytes are passed over from one state to another if whatever follows is
scanned in the new state (`Passes`); pieces one after the other are passed over one after the other (`Passes.append`).

* (constructs) a construct is passed over by the step of its event (`Passes.of_isConstruct`);
* (text) text is passed over only where a `<` follows it, since it goes on up to there (`exists_scan_text`).
-/

namespace ClassCensus.Layout

open Text.Utf8 (encode)

/-! ### Events -/

theorem eventsOnto_nil (read : List Located) (offset : Nat) :
    eventsOnto read offset [] = (read.reverse, none) := by
  rw [eventsOnto]

theorem eventsOnto_blank {b : UInt8} (blank : isBlank b = true) (read : List Located) (offset : Nat)
    (rest : List UInt8) : eventsOnto read offset (b :: rest) = eventsOnto read (offset + 1) rest := by
  rw [eventsOnto, if_pos blank]

theorem eventsOnto_construct {found : Located} {offset : Nat} {rest after : List UInt8}
    (h : construct offset rest = .ok (found, after)) (read : List Located) :
    eventsOnto read offset (ascii '<' :: rest) = eventsOnto (found :: read) found.past after := by
  rw [eventsOnto, if_neg (by decide), if_pos rfl]
  split
  · next fault =>
    rw [h] at fault
    cases fault
  · next some =>
    rw [h] at some
    cases some
    rfl

theorem eventsOnto_fault {fault : LocatedFault} {offset : Nat} {rest : List UInt8}
    (h : construct offset rest = .error fault) (read : List Located) :
    eventsOnto read offset (ascii '<' :: rest) = (read.reverse, some fault) := by
  rw [eventsOnto, if_neg (by decide), if_pos rfl]
  split
  · next some =>
    rw [h] at some
    cases some
    rfl
  · next found =>
    rw [h] at found
    cases found

theorem eventsOnto_text {b : UInt8} (firm : isBlank b = false) (ne : b ≠ ascii '<') (read : List Located)
    (offset : Nat) (rest : List UInt8) :
    eventsOnto read offset (b :: rest) =
      eventsOnto (textRun offset (b :: rest) :: read) (textRun offset (b :: rest)).past
        (rest.dropWhile (· ≠ ascii '<')) := by
  rw [eventsOnto, if_neg (by simp [firm]), if_neg ne]

/-- A run of text ends at the next `<` or with the document. -/
theorem eventsOnto_run {b : UInt8} (firm : isBlank b = false) {run rest : List UInt8}
    (noBracket : ascii '<' ∉ b :: run) (stops : ∀ c ∈ rest.head?, c = ascii '<') (read : List Located)
    (offset : Nat) :
    eventsOnto read offset (b :: run ++ rest) =
      eventsOnto (⟨.text (trimEnd (b :: run)), offset, offset + (b :: run).length⟩ :: read)
        (offset + (b :: run).length) rest := by
  obtain ⟨ne, others⟩ := not_or.1 (mt List.mem_cons.2 noBracket)
  have inside : ∀ c ∈ b :: run, decide (c ≠ ascii '<') = true :=
    fun c mem => decide_eq_true fun e => noBracket (e ▸ mem)
  have behind : rest.takeWhile (· ≠ ascii '<') = [] ∧ rest.dropWhile (· ≠ ascii '<') = rest := by
    cases rest with
    | nil => exact ⟨rfl, rfl⟩
    | cons c rest =>
      obtain rfl := stops c rfl
      exact ⟨List.takeWhile_cons_of_neg (by simp), List.dropWhile_cons_of_neg (by simp)⟩
  have taken : (b :: (run ++ rest)).takeWhile (· ≠ ascii '<') = b :: run := by
    rw [← List.cons_append, List.takeWhile_append_of_pos inside, behind.1, List.append_nil]
  have left : (run ++ rest).dropWhile (· ≠ ascii '<') = rest := by
    rw [List.dropWhile_append_of_pos fun c mem => inside c (List.mem_cons_of_mem b mem), behind.2]
  rw [List.cons_append, eventsOnto_text firm (Ne.symm ne), left, textRun, taken]

/-- Events already read stand in front of those that follow. -/
theorem eventsOnto_eq (read : List Located) (offset : Nat) (bytes : List UInt8) :
    eventsOnto read offset bytes =
      (read.reverse ++ (eventsOnto [] offset bytes).1, (eventsOnto [] offset bytes).2) := by
  induction size : bytes.length using Nat.strong_induction_on generalizing read offset bytes with
  | _ size ih =>
    subst size
    -- both readings go on in the same way, one with the new event behind those read and one with it alone
    have next (found : Located) {after : List UInt8} (less : after.length < bytes.length) :
        eventsOnto (found :: read) found.past after =
          (read.reverse ++ (eventsOnto [found] found.past after).1, (eventsOnto [found] found.past after).2) := by
      rw [ih _ less (found :: read) _ _ rfl, ih _ less [found] _ _ rfl]
      simp
    cases bytes with
    | nil => simp [eventsOnto_nil]
    | cons b rest =>
      cases blank : isBlank b with
      | true =>
        rw [eventsOnto_blank blank, eventsOnto_blank blank]
        exact ih _ (Nat.lt_succ_self _) read _ _ rfl
      | false =>
        by_cases bracket : b = ascii '<'
        · subst bracket
          cases h : construct offset rest with
          | error fault =>
            rw [eventsOnto_fault h, eventsOnto_fault h]
            simp
          | ok result =>
            obtain ⟨found, after⟩ := result
            rw [eventsOnto_construct h, eventsOnto_construct h]
            exact next found (Nat.lt_succ_of_lt (length_of_construct h))
        · rw [eventsOnto_text blank bracket, eventsOnto_text blank bracket]
          exact next _ (Nat.lt_succ_of_le (List.dropWhile_sublist _).length_le)

/-! ### Scans -/

namespace Outline

variable {outline middle after : Outline}

/-- The dotted names, once the rest of a document has been read. -/
def scan (outline : Outline) (offset : Nat) (bytes : List UInt8) : Except LayoutError (List String) := do
  let (events, fault?) := eventsOnto [] offset bytes
  let outline ← events.foldlM step outline
  match fault? with
  | some located => throw (.markup located.fault located.offset)
  | none => outline.finish

theorem scan_nil (offset : Nat) : outline.scan offset [] = outline.finish := by
  rw [scan, eventsOnto_nil]
  rfl

theorem scan_blank {b : UInt8} (blank : isBlank b = true) (offset : Nat) (rest : List UInt8) :
    outline.scan offset (b :: rest) = outline.scan (offset + 1) rest := by
  rw [scan, eventsOnto_blank blank]
  rfl

/-- The scan steps over the first event, and goes on with the bytes after it. -/
theorem scan_event {found : Located} {offset past : Nat} {bytes rest : List UInt8}
    (events : eventsOnto [] offset bytes = eventsOnto [found] past rest) :
    outline.scan offset bytes = outline.step found >>= fun after => after.scan past rest := by
  rw [scan, events, eventsOnto_eq [found]]
  simp only [List.reverse_singleton, List.singleton_append, List.foldlM_cons, bind_assoc]
  rfl

theorem scan_construct {found : Located} {offset : Nat} {bytes rest : List UInt8}
    (h : construct offset bytes = .ok (found, rest)) (step : outline.step found = .ok after) :
    outline.scan offset (ascii '<' :: bytes) = after.scan found.past rest := by
  rw [scan_event (eventsOnto_construct h []), step]
  rfl

/-- A run of text up to a `<` that is read without a fault. -/
theorem scan_text {b : UInt8} (firm : isBlank b = false) {run rest : List UInt8}
    (noBracket : ascii '<' ∉ b :: run) (bracket : rest.head? = some (ascii '<')) (offset : Nat)
    (step : ∀ start past, outline.step ⟨.text (trimEnd (b :: run)), start, past⟩ = .ok after) :
    ∃ past, outline.scan offset (b :: run ++ rest) = after.scan past rest := by
  have stops : ∀ c ∈ rest.head?, c = ascii '<' := fun c mem => Option.some.inj (mem.symm.trans bracket)
  refine ⟨offset + (b :: run).length, ?_⟩
  rw [scan_event (eventsOnto_run firm noBracket stops [] offset), step]
  rfl

/-- The bytes lead from one state of the outline to another, whatever follows them. -/
def Passes (outline : Outline) (bytes : List UInt8) (after : Outline) : Prop :=
  ∀ offset rest, ∃ past, outline.scan offset (bytes ++ rest) = after.scan past rest

namespace Passes

theorem nil : outline.Passes [] outline :=
  fun offset _ => ⟨offset, rfl⟩

theorem append {left right : List UInt8} (h : outline.Passes left middle) (h' : middle.Passes right after) :
    outline.Passes (left ++ right) after := by
  intro offset rest
  obtain ⟨offset', first⟩ := h offset (right ++ rest)
  obtain ⟨past, second⟩ := h' offset' rest
  exact ⟨past, by rw [List.append_assoc, first, second]⟩

theorem blanks (blanks : Blanks) : outline.Passes (encode blanks.chars) outline := by
  intro offset rest
  have blank := blanks.isBlank_of_mem
  generalize encode blanks.chars = bytes at blank ⊢
  induction bytes generalizing offset with
  | nil => exact ⟨offset, rfl⟩
  | cons b bytes ih =>
    obtain ⟨first, others⟩ := List.forall_mem_cons.1 blank
    rw [List.cons_append, scan_blank first]
    exact ih (offset + 1) others

/-- A construct is passed over by the step of its event. -/
theorem of_isConstruct {chars : List Char} {event : Event} (h : IsConstruct (encode chars) event)
    (step : ∀ start past, outline.step ⟨event, start, past⟩ = .ok after) :
    outline.Passes (encode ('<' :: chars)) after := by
  intro offset rest
  obtain ⟨past, found⟩ := h offset rest
  exact ⟨past, scan_construct found (step offset past)⟩

theorem comment (comment : Comment) : outline.Passes (encode ('<' :: (comment.content ++ ['>']))) outline :=
  of_isConstruct (isConstruct_comment comment) fun _ _ => rfl

theorem instruction (instruction : Instruction) :
    outline.Passes (encode ('<' :: (instruction.content ++ ['>']))) outline := by
  rcases isConstruct_instruction instruction with h | h
  all_goals exact of_isConstruct h fun _ _ => rfl

/-- A section of character data may stand in an element. -/
theorem cdata (inside : outline.opened ≠ []) (data : CharacterData) :
    outline.Passes (encode ('<' :: (data.content ++ ['>']))) outline := by
  refine of_isConstruct (isConstruct_cdata data) fun _ _ => ?_
  have opened : ¬ outline.opened.isEmpty = true := mt List.isEmpty_iff.1 inside
  exact if_neg opened

end Passes

/-- Text may stand in an element.  It ends at the next `<`. -/
theorem exists_scan_text (inside : outline.opened ≠ []) {spellings : List Spelling}
    (avoids : ∀ spelling ∈ spellings, spelling.Avoids ['&', '<']) (offset : Nat) {rest : List UInt8}
    (bracket : rest.head? = some (ascii '<')) :
    ∃ past, outline.scan offset (encode (spell spellings) ++ rest) = outline.scan past rest := by
  induction spellings generalizing offset with
  | nil => exact ⟨offset, rfl⟩
  | cons spelling spellings ih =>
    rcases spelling.blank_or_firm with ⟨b, e, blank⟩ | ⟨⟨b, bytes, e, firm⟩, -⟩
    · -- blanks in front of a text do not belong to it
      rw [spell_cons, Text.Utf8.encode_append, e, List.append_assoc, List.singleton_append, scan_blank blank]
      exact ih (List.forall_mem_cons.1 avoids).2 (offset + 1)
    · obtain ⟨kept, start, trimmed⟩ := exists_trimEnd_spell (spelling :: spellings)
      have read := unescape_spell (by simp) fun spelling mem => avoids spelling (start.subset mem)
      have noBracket : ascii '<' ∉ encode (spell (spelling :: spellings)) := fun mem =>
        notMem_spell avoids (by simp) (by decide) ((Text.Utf8.mem_encode_iff (by decide)).1 mem)
      rw [spell_cons, Text.Utf8.encode_append, e, List.cons_append] at noBracket trimmed ⊢
      refine scan_text firm noBracket bracket offset fun start past => ?_
      have opened : ¬ outline.opened.isEmpty = true := mt List.isEmpty_iff.1 inside
      rw [trimmed]
      simp only [step, if_neg opened, read]
      rfl

end Outline

/-- The names of a document are what its scan from the start finds. -/
theorem dottedNames_eq_scan (document : List UInt8) :
    dottedNames document = NameSet.ofList <$>
      Outline.start.scan 0 (if byteOrderMark.isPrefixOf document then document.drop 3 else document) := by
  rw [dottedNames, eventsOf, Outline.scan]
  generalize eventsOnto [] 0 _ = events
  obtain ⟨events, fault?⟩ := events
  simp only [Outline.ofEvents, map_bind]
  cases events.foldlM Outline.step Outline.start with
  | error fault => rfl
  | ok outline =>
    cases fault? with
    | some located => rfl
    | none => rfl

end ClassCensus.Layout
