import ClassCensus.Proofs.Layout.OutlineStep
import ClassCensus.Proofs.Layout.Pieces

/-!
# Layouts that break off

The root element of a layout ends with the tag that leaves as many elements open as before it (`rootEnd?`).  A layout
that is accepted has such an end; the layout is accepted already if it breaks off there, with the same names, and it is
refused if it breaks off anywhere before (`dottedNames_truncated`).

* (places) where a document breaks off in a construct, the construct has no end (`construct_eq_ok`); in text or between
  constructs an element stands open, or no root has been seen, and the document cannot end
  (`Outline.exists_finish_error`).
-/

namespace ClassCensus.Layout

/-- The offset after the root element, for the events after a start with `depth` elements open. -/
def rootEndFrom? (depth : Nat) : List Located → Option Nat
  | [] => none
  | found :: events =>
    match found.event with
    | .opening _ => rootEndFrom? (depth + 1) events
    | .empty _ => if depth = 0 then some found.past else rootEndFrom? depth events
    | .closing _ => if depth ≤ 1 then some found.past else rootEndFrom? (depth - 1) events
    | .text _ | .cdata | .comment | .instruction | .declaration | .doctype => rootEndFrom? depth events

/-- The length of the byte order mark in front of a document. -/
def markLength (document : List UInt8) : Nat :=
  if byteOrderMark.isPrefixOf document then byteOrderMark.length else 0

/-- The offset after the root element of a document. -/
def rootEnd? (document : List UInt8) : Option Nat :=
  (rootEndFrom? 0 (eventsOf document).1).map (markLength document + ·)

namespace Outline

variable {outline after : Outline}

/-- The root element has not ended: no element stands open exactly because none has been seen. -/
def Unended (outline : Outline) : Prop :=
  outline.opened = [] ↔ outline.rootSeen = false

/-- The root element has ended. -/
def Ended (outline : Outline) : Prop :=
  outline.opened = [] ∧ outline.rootSeen = true

theorem Unended.exists_finish_error (h : outline.Unended) : ∃ fault, outline.finish = .error fault :=
  Outline.exists_finish_error h.1

/-! ### Events -/

/-- An event leaves the root element unended, or the element ends after it. -/
theorem unended_or_ended (h : outline.Unended) {found : Located} (step : outline.Steps found.event after) :
    (after.Unended ∧ ∀ events, rootEndFrom? outline.opened.length (found :: events) =
      rootEndFrom? after.opened.length events) ∨
    (after.Ended ∧ ∀ events, rootEndFrom? outline.opened.length (found :: events) = some found.past) := by
  simp only [rootEndFrom?]
  generalize found.event = event at step
  cases step with
  | @opening content name _ _ => exact .inl ⟨by simp [Unended, entering, adding], fun _ => rfl⟩
  | @empty content name _ _ =>
    by_cases none : outline.opened = []
    · exact .inr ⟨⟨none, rfl⟩, fun _ => by simp [none]⟩
    · exact .inl ⟨by simp [Unended, adding, none], fun _ => by simp [none, adding]⟩
  | @closing name opened innermost =>
    have seen : outline.rootSeen = true := by simpa [Unended, innermost] using h
    cases opened with
    | nil => exact .inr ⟨⟨rfl, seen⟩, fun _ => by simp [innermost]⟩
    | cons outer opened => exact .inl ⟨by simp [Unended, seen], fun _ => by simp [innermost]⟩
  | text | cdata => exact .inl ⟨h, fun _ => rfl⟩
  | aside aside =>
    cases event with
    | comment | instruction | declaration | doctype => exact .inl ⟨h, fun _ => rfl⟩
    | opening | empty | closing | text | cdata => cases aside

/-- After the root element, only asides are read. -/
theorem Ended.eq_of_steps (h : outline.Ended) {event : Event} (step : outline.Steps event after) :
    after = outline := by
  have noStart : ¬ outline.MayStart := fun start => absurd ((start h.1).symm.trans h.2) Bool.false_ne_true
  cases step with
  | opening start _ | empty start _ => exact absurd start noStart
  | closing innermost => exact absurd (innermost.symm.trans h.1) (List.cons_ne_nil _ _)
  | text inside _ => exact absurd h.1 inside
  | cdata inside => exact absurd h.1 inside
  | aside => rfl

/-- After the root element, no more names are found. -/
theorem Ended.eq_dotted (h : outline.Ended) {offset : Nat} {bytes : List UInt8} {names : List String}
    (read : outline.scan offset bytes = .ok names) : names = outline.dotted := by
  obtain ⟨after, run, finished⟩ := Except.bind_eq_ok_iff.1 read
  have same : after = outline := by
    clear finished
    generalize (eventsOnto [] offset bytes).1 = events at run
    induction events with
    | nil =>
      cases run
      rfl
    | cons event events ih =>
      rw [List.foldlM_cons] at run
      obtain ⟨middle, first, run⟩ := Except.bind_eq_ok_iff.1 run
      rw [h.eq_of_steps (step_eq_ok_iff.1 first)] at run
      exact ih run
  split at finished
  · cases finished
  · rw [← same]
    exact (finish_eq_ok_iff.1 finished).2

/-! ### Scans that break off -/

/-- What is read from an outline ends the root element after `k` bytes; it may break off there, with the same names, and
nowhere before. -/
structure BreaksOff (outline : Outline) (offset : Nat) (bytes : List UInt8) (names : List String) (k : Nat) : Prop where
  rootEnd : rootEndFrom? outline.opened.length (eventsOnto [] offset bytes).1 = some (offset + k)
  there : outline.scan offset (bytes.take k) = .ok names
  before : ∀ n < k, ∃ fault, outline.scan offset (bytes.take n) = .error fault

theorem Unended.exists_scan_nil_error (h : outline.Unended) (offset : Nat) :
    ∃ fault, outline.scan offset [] = .error fault := by
  rw [scan_nil]
  exact h.exists_finish_error

/-- Bytes that are passed over are one place more behind which the rest may break off. -/
theorem BreaksOff.behind {offset k : Nat} {first rest : List UInt8} {names : List String}
    (unended : after.Unended)
    (events : rootEndFrom? outline.opened.length (eventsOnto [] offset (first ++ rest)).1 =
      rootEndFrom? after.opened.length (eventsOnto [] (offset + first.length) rest).1)
    (passed : ∀ n, 0 < n → outline.scan offset (first ++ rest.take n) =
      after.scan (offset + first.length) (rest.take n))
    (inside : ∀ n ≤ first.length, ∃ fault, outline.scan offset (first.take n) = .error fault)
    (h : after.BreaksOff (offset + first.length) rest names k) :
    outline.BreaksOff offset (first ++ rest) names (first.length + k) where
  rootEnd := by rw [events, h.rootEnd, Nat.add_assoc]
  there := by
    have positive : 0 < k := by
      refine Nat.pos_of_ne_zero fun zero => ?_
      obtain ⟨fault, refused⟩ := unended.exists_scan_nil_error (offset + first.length)
      have there := h.there
      rw [zero, List.take_zero, refused] at there
      cases there
    rw [List.take_length_add_append, passed k positive, h.there]
  before n less := by
    rcases Nat.lt_or_ge first.length n with more | le
    · obtain ⟨m, rfl⟩ := Nat.exists_eq_add_of_lt more
      rw [Nat.add_assoc, List.take_length_add_append, passed (m + 1) (Nat.succ_pos m)]
      exact h.before (m + 1) (by omega)
    · rw [List.take_append_of_le_length le]
      exact inside n le

theorem BreaksOff.blank {b : UInt8} (blank : isBlank b = true) (unended : outline.Unended) {offset k : Nat}
    {rest : List UInt8} {names : List String} (h : outline.BreaksOff (offset + 1) rest names k) :
    outline.BreaksOff offset (b :: rest) names (1 + k) := by
  refine @BreaksOff.behind _ _ _ _ [b] _ _ unended ?_ (fun _ _ => scan_blank blank _ _) (fun n le => ?_) h
  · rw [List.singleton_append, eventsOnto_blank blank]
    rfl
  · match n, le with
    | 0, _ => exact unended.exists_scan_nil_error offset
    | 1, _ =>
      rw [List.take_succ_cons, List.take_nil, scan_blank blank]
      exact unended.exists_scan_nil_error (offset + 1)

theorem exists_scan_fault {offset : Nat} {bytes : List UInt8} (h : ∃ fault, construct offset bytes = .error fault) :
    ∃ fault, outline.scan offset (ascii '<' :: bytes) = .error fault := by
  obtain ⟨fault, h⟩ := h
  rw [scan, eventsOnto_fault h]
  exact ⟨_, rfl⟩

/-- A bracket and the bytes of a construct break off. -/
theorem exists_scan_take_error (unended : outline.Unended) {offset : Nat} {content : List UInt8}
    (breaks : ∀ n ≤ content.length, ∃ fault, construct offset (content.take n) = .error fault) (n : Nat)
    (le : n ≤ content.length + 1) (rest : List UInt8) :
    ∃ fault, outline.scan offset ((ascii '<' :: (content ++ rest)).take n) = .error fault := by
  cases n with
  | zero => exact unended.exists_scan_nil_error offset
  | succ n =>
    rw [List.take_succ_cons, List.take_append_of_le_length (by omega)]
    exact exists_scan_fault (breaks n (by omega))

/-- The construct at the start of the bytes ends the root element, or the rest may break off behind it. -/
theorem exists_breaksOff_construct (unended : outline.Unended) {offset : Nat} {bytes rest : List UInt8}
    {found : Located} (h : construct offset bytes = .ok (found, rest)) (step : outline.step found = .ok after)
    {names : List String} (read : after.scan found.past rest = .ok names)
    (goesOn : after.Unended → ∃ k, after.BreaksOff found.past rest names k) :
    ∃ k, outline.BreaksOff offset (ascii '<' :: bytes) names k := by
  obtain ⟨content, rfl, past, again, breaks⟩ := construct_eq_ok h
  have length : (ascii '<' :: (content ++ [ascii '>'])).length = content.length + 2 := by simp
  have split (rest : List UInt8) :
      ascii '<' :: (content ++ ascii '>' :: rest) = (ascii '<' :: (content ++ [ascii '>'])) ++ rest := by simp
  have scans (rest : List UInt8) :
      outline.scan offset (ascii '<' :: (content ++ ascii '>' :: rest)) = after.scan found.past rest :=
    scan_construct (again rest) step
  have events (rest : List UInt8) : eventsOnto [] offset (ascii '<' :: (content ++ ascii '>' :: rest)) =
      (found :: (eventsOnto [] found.past rest).1, (eventsOnto [] found.past rest).2) := by
    rw [eventsOnto_construct (again rest), eventsOnto_eq]
    rfl
  rcases unended_or_ended unended (step_eq_ok_iff.1 step) with ⟨unended', sameEnd⟩ | ⟨ended, here⟩
  · obtain ⟨k, breaksOff⟩ := goesOn unended'
    refine ⟨content.length + 2 + k, ?_⟩
    rw [split, ← length]
    refine BreaksOff.behind unended' ?_ (fun n _ => ?_) (fun n le => ?_) ?_
    · rw [← split, events, sameEnd, length, past, Nat.add_assoc]
    · rw [← split, scans, length, past, Nat.add_assoc]
    · rcases Nat.lt_or_eq_of_le le with less | rfl
      · exact exists_scan_take_error unended breaks n (by omega) [ascii '>']
      · rw [List.take_length, scans]
        exact unended'.exists_scan_nil_error _
    · rw [length, ← Nat.add_assoc, ← past]
      exact breaksOff
  · refine ⟨content.length + 2, ?_, ?_, fun n less => ?_⟩
    · rw [events, here, past, Nat.add_assoc]
    · rw [split, ← length, List.take_left, scans, scan_nil, ended.eq_dotted read]
      exact finish_eq_ok_iff.2 ⟨fun start => absurd ((start ended.1).symm.trans ended.2) Bool.false_ne_true, rfl⟩
    · exact exists_scan_take_error unended breaks n (by omega) _

/-- Text leaves the root element unended, also where it breaks off. -/
theorem Unended.exists_scan_run_error (unended : outline.Unended) {b : UInt8} (firm : isBlank b = false)
    {run : List UInt8} (noBracket : ascii '<' ∉ b :: run) (offset : Nat) :
    ∃ fault, outline.scan offset (b :: run) = .error fault := by
  have nothing : ∀ c ∈ ([] : List UInt8).head?, c = ascii '<' := nofun
  have scanned := @scan_event outline _ _ _ _ _ (eventsOnto_run firm noBracket nothing [] offset)
  rw [List.append_nil] at scanned
  rw [scanned]
  cases step : outline.step ⟨.text (trimEnd (b :: run)), offset, offset + (b :: run).length⟩ with
  | error fault => exact ⟨fault, rfl⟩
  | ok after =>
    cases step_eq_ok_iff.1 step with
    | text => exact unended.exists_scan_nil_error _
    | aside aside => cases aside

/-- The rest may break off behind a run of text. -/
theorem BreaksOff.run (unended : outline.Unended) {b : UInt8} (firm : isBlank b = false) {run rest : List UInt8}
    (noBracket : ascii '<' ∉ b :: run) (stops : ∀ c ∈ rest.head?, c = ascii '<') {offset k : Nat}
    {names : List String} (step : outline.Steps (.text (trimEnd (b :: run))) outline)
    (h : outline.BreaksOff (offset + (b :: run).length) rest names k) :
    outline.BreaksOff offset (b :: run ++ rest) names ((b :: run).length + k) := by
  refine h.behind unended ?_ (fun n positive => ?_) (fun n le => ?_)
  · rw [eventsOnto_run firm noBracket stops, eventsOnto_eq]
    rfl
  · have stops' : ∀ c ∈ (rest.take n).head?, c = ascii '<' := by
      rwa [List.head?_take, if_neg (Nat.ne_of_gt positive)]
    rw [scan_event (eventsOnto_run firm noBracket stops' [] offset), step_eq_ok_iff.2 step]
    rfl
  · cases n with
    | zero => exact unended.exists_scan_nil_error offset
    | succ n =>
      have noBracket' : ascii '<' ∉ b :: run.take n := fun mem =>
        noBracket (List.cons_subset_cons b (List.take_subset n run) mem)
      exact unended.exists_scan_run_error firm noBracket' offset

/-- The text at the start of the bytes leaves them to break off behind it. -/
theorem exists_breaksOff_run (unended : outline.Unended) {b : UInt8} (firm : isBlank b = false)
    {run rest : List UInt8} (noBracket : ascii '<' ∉ b :: run) (stops : ∀ c ∈ rest.head?, c = ascii '<')
    {offset : Nat} {names : List String} (read : outline.scan offset (b :: run ++ rest) = .ok names)
    (goesOn : outline.scan (offset + (b :: run).length) rest = .ok names →
      ∃ k, outline.BreaksOff (offset + (b :: run).length) rest names k) :
    ∃ k, outline.BreaksOff offset (b :: run ++ rest) names k := by
  rw [scan_event (eventsOnto_run firm noBracket stops [] offset)] at read
  obtain ⟨after, step, read⟩ := Except.bind_eq_ok_iff.1 read
  have step := step_eq_ok_iff.1 step
  have same : after = outline := by
    cases step with
    | text => rfl
    | aside aside => cases aside
  rw [same] at step read
  obtain ⟨k, h⟩ := goesOn read
  exact ⟨(b :: run).length + k, h.run unended firm noBracket stops step⟩

/-- What is read from an outline whose root element has not ended ends it, and may break off there only. -/
theorem exists_breaksOff (unended : outline.Unended) {offset : Nat} {bytes : List UInt8} {names : List String}
    (read : outline.scan offset bytes = .ok names) : ∃ k, outline.BreaksOff offset bytes names k := by
  induction bytes using piece_induction generalizing outline offset with
  | nil =>
    obtain ⟨fault, refused⟩ := unended.exists_scan_nil_error offset
    rw [refused] at read
    cases read
  | blank b rest blank ih =>
    rw [scan_blank blank] at read
    obtain ⟨k, h⟩ := ih unended read
    exact ⟨1 + k, h.blank blank unended⟩
  | fault rest refused =>
    obtain ⟨fault, refused⟩ := @exists_scan_fault outline _ _ (refused offset)
    rw [refused] at read
    cases read
  | construct event content rest again ih =>
    have h := again offset rest
    rw [scan_event (eventsOnto_construct h [])] at read
    obtain ⟨after, step, read⟩ := Except.bind_eq_ok_iff.1 read
    exact exists_breaksOff_construct unended h step read fun unended' => ih unended' read
  | text b run rest firm noBracket stops ih =>
    exact exists_breaksOff_run unended firm noBracket stops read (ih unended)

end Outline

/-! ### Documents -/

theorem unended_start : Outline.start.Unended :=
  iff_of_true rfl rfl

section Unmarked

variable {document : List UInt8} (unmarked : byteOrderMark.isPrefixOf document = false)

include unmarked

theorem dottedNames_unmarked : dottedNames document = NameSet.ofList <$> Outline.start.scan 0 document := by
  rw [dottedNames_eq_scan, unmarked]
  rfl

theorem exists_dottedNames_error (refused : ∃ fault, Outline.start.scan 0 document = .error fault) :
    ∃ fault, dottedNames document = .error fault := by
  obtain ⟨fault, refused⟩ := refused
  rw [dottedNames_unmarked unmarked, refused]
  exact ⟨fault, rfl⟩

theorem rootEnd?_unmarked : rootEnd? document = rootEndFrom? 0 (eventsOnto [] 0 document).1 := by
  simp [rootEnd?, eventsOf, markLength, unmarked]

theorem unmarked_take (n : Nat) : byteOrderMark.isPrefixOf (document.take n) = false := by
  rw [← Bool.not_eq_true, List.isPrefixOf_iff_prefix] at unmarked ⊢
  exact fun marked => unmarked (marked.trans (List.take_prefix n document))

end Unmarked

theorem dottedNames_marked (body : List UInt8) :
    dottedNames (byteOrderMark ++ body) = NameSet.ofList <$> Outline.start.scan 0 body := by
  rw [dottedNames_eq_scan]
  rfl

theorem rootEnd?_marked (body : List UInt8) :
    rootEnd? (byteOrderMark ++ body) =
      (rootEndFrom? 0 (eventsOnto [] 0 body).1).map (byteOrderMark.length + ·) :=
  rfl

/-- A document that breaks off in its byte order mark is refused. -/
theorem exists_dottedNames_mark_error {n : Nat} (less : n < byteOrderMark.length) :
    ∃ fault, dottedNames (byteOrderMark.take n) = .error fault := by
  match n, less with
  | 0, _ => exact exists_dottedNames_error rfl (unended_start.exists_scan_nil_error 0)
  | 1, _ => exact exists_dottedNames_error rfl (unended_start.exists_scan_run_error (by decide) (by decide) 0)
  | 2, _ => exact exists_dottedNames_error rfl (unended_start.exists_scan_run_error (by decide) (by decide) 0)

/-- A layout that is accepted has a root element.  It is accepted with the same names if it breaks off behind the root
element, and refused if it breaks off before that. -/
theorem dottedNames_truncated {document : List UInt8} {names : NameSet} (accepted : dottedNames document = .ok names) :
    ∃ k, rootEnd? document = some k ∧ dottedNames (document.take k) = .ok names ∧
      ∀ n < k, ∃ fault, dottedNames (document.take n) = .error fault := by
  cases unmarked : byteOrderMark.isPrefixOf document with
  | false =>
    rw [dottedNames_unmarked unmarked, Except.map_eq_ok_iff] at accepted
    obtain ⟨found, read, rfl⟩ := accepted
    obtain ⟨k, rootEnd, there, before⟩ := Outline.exists_breaksOff unended_start read
    refine ⟨k, ?_, ?_, fun n less => ?_⟩
    · rw [rootEnd?_unmarked unmarked, ← Nat.zero_add k]
      exact rootEnd
    · rw [dottedNames_unmarked (unmarked_take unmarked k), there]
      rfl
    · exact exists_dottedNames_error (unmarked_take unmarked n) (before n less)
  | true =>
    obtain ⟨body, rfl⟩ := List.isPrefixOf_iff_prefix.1 unmarked
    rw [dottedNames_marked, Except.map_eq_ok_iff] at accepted
    obtain ⟨found, read, rfl⟩ := accepted
    obtain ⟨k, rootEnd, there, before⟩ := Outline.exists_breaksOff unended_start read
    refine ⟨byteOrderMark.length + k, ?_, ?_, fun n less => ?_⟩
    · rw [rootEnd?_marked, ← Nat.zero_add k]
      exact congrArg _ rootEnd
    · rw [List.take_length_add_append, dottedNames_marked, there]
      rfl
    · rcases Nat.lt_or_ge n byteOrderMark.length with inMark | behindMark
      · rw [List.take_append_of_le_length (Nat.le_of_lt inMark)]
        exact exists_dottedNames_mark_error inMark
      · obtain ⟨m, rfl⟩ := Nat.exists_eq_add_of_le behindMark
        obtain ⟨fault, refused⟩ := before m (by omega)
        rw [List.take_length_add_append, dottedNames_marked, refused]
        exact ⟨fault, rfl⟩

/-- A layout with a byte order mark, text in its root element, and a blank behind. -/
def markedLayout : List UInt8 :=
  byteOrderMark ++ asciiText "<a>x<b.c/></a> "

example : rootEnd? markedLayout = some 17 := by decide +kernel

theorem dottedNames_truncated_marked :
    dottedNames markedLayout = .ok (NameSet.ofList ["b.c"]) ∧
      ∃ k, rootEnd? markedLayout = some k ∧ dottedNames (markedLayout.take k) = .ok (NameSet.ofList ["b.c"]) ∧
        ∀ n < k, ∃ fault, dottedNames (markedLayout.take n) = .error fault := by
  have accepted : dottedNames markedLayout = .ok (NameSet.ofList ["b.c"]) := by decide +kernel
  exact ⟨accepted, dottedNames_truncated accepted⟩

end ClassCensus.Layout
