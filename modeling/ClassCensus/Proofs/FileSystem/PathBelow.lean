import ClassCensus.Proofs.FileSystem.LastName
import Mathlib.Data.List.Infix

/-!
# Paths below a directory

The path of an entry below a directory is that of the directory with the names that lead to the entry behind it.  As a
text it depends on how the path of the directory is spelled; its components are those of the directory and the names
(`Path.components_join`).

* (names) a name of an entry carries a component of its own and has no slash in it (`Path.IsEntryName`);
* (texts) what has no slash in it occurs in the text of some names exactly if it occurs in one of them
  (`Path.infix_intercalate_iff`).
-/

namespace ClassCensus

namespace Path

/-- The text can be the name of an entry of a directory. -/
structure IsEntryName (name : String) : Prop where
  not_special : name ∉ ["", ".", ".."]
  not_slash : '/' ∉ name.toList

theorem IsEntryName.componentOf?_eq {name : String} (h : IsEntryName name) :
    componentOf? name = some (.name name) := by
  have special := h.not_special
  simp only [List.mem_cons, List.not_mem_nil, or_false, not_or] at special
  obtain ⟨empty, here, up⟩ := special
  rw [componentOf?, if_neg (not_or.2 ⟨empty, here⟩), if_neg up]

/-! ### Pieces -/

theorem piecesOf_append_slash (chars more : List Char) :
    piecesOf (chars ++ '/' :: more) = piecesOf chars ++ piecesOf more := by
  induction chars with
  | nil => exact piecesOf_slash more
  | cons c chars ih =>
    by_cases hc : c = '/'
    · subst hc
      rw [List.cons_append, piecesOf_slash, piecesOf_slash, ih, List.cons_append]
    · have given : piecesOf chars ≠ [] := by
        obtain ⟨pieces, last, whole, -⟩ := exists_lastPiece chars
        simp [whole]
      obtain ⟨piece, pieces, whole⟩ := List.exists_cons_of_ne_nil given
      rw [whole, List.cons_append] at ih
      rw [List.cons_append, piecesOf_char hc ih, piecesOf_char hc whole, List.cons_append]

/-- Parts without slashes are the pieces of their text. -/
theorem piecesOf_intercalate {parts : List (List Char)} (given : parts ≠ []) (plain : ∀ part ∈ parts, '/' ∉ part) :
    piecesOf (['/'].intercalate parts) = parts := by
  induction parts with
  | nil => exact absurd rfl given
  | cons part parts ih =>
    obtain ⟨first, others⟩ := List.forall_mem_cons.1 plain
    cases parts with
    | nil => rw [List.intercalate_singleton, piecesOf_plain first]
    | cons next parts =>
      rw [List.intercalate_cons_cons, List.append_assoc, List.singleton_append, piecesOf_append_slash,
        piecesOf_plain first, ih (List.cons_ne_nil next parts) others, List.singleton_append]

/-- Names in a row are the pieces of their text. -/
theorem pieces_intercalate {names : List String} (given : names ≠ []) (h : ∀ name ∈ names, IsEntryName name) :
    (Path.mk ("/".intercalate names)).pieces = names := by
  have plain : ∀ part ∈ names.map String.toList, '/' ∉ part := by
    intro part mem
    obtain ⟨name, onList, rfl⟩ := List.mem_map.1 mem
    exact (h name onList).not_slash
  have slash : "/".toList = ['/'] := rfl
  rw [pieces, String.toList_intercalate, slash, piecesOf_intercalate (by simpa using given) plain, List.map_map]
  simp

/-! ### Components -/

theorem filterMap_componentOf? {names : List String} (h : ∀ name ∈ names, IsEntryName name) :
    names.filterMap componentOf? = names.map .name := by
  induction names with
  | nil => rfl
  | cons name names ih =>
    obtain ⟨first, others⟩ := List.forall_mem_cons.1 h
    rw [List.filterMap_cons_some first.componentOf?_eq, ih others, List.map_cons]

/-- What stands at the start of a path shows in its first character and its first piece. -/
theorem leading?_congr {p q : Path} (first : p.text.toList.head? = q.text.toList.head?)
    (piece : p.pieces.head? = q.pieces.head?) : p.leading? = q.leading? := by
  rw [leading?, leading?, isAbsolute, isAbsolute, first, piece]

/-- The text of a path that is put above others: what stands before the slash. -/
theorem exists_front {p : Path} (given : p.text ≠ "") (below : String) :
    ∃ front : List Char, (p.text.toList = front ∨ p.text.toList = front ++ ['/']) ∧
      (p.join below).text.toList = front ++ '/' :: below.toList := by
  by_cases slash : p.text.toList.getLast? = some '/'
  · obtain ⟨front, e⟩ := List.getLast?_eq_some_iff.1 slash
    refine ⟨front, .inr e, ?_⟩
    rw [join, if_pos (.inr slash), String.toList_append, e, List.append_assoc, List.singleton_append]
  · refine ⟨p.text.toList, .inl rfl, ?_⟩
    rw [join, if_neg (not_or.2 ⟨given, slash⟩), String.toList_append, String.toList_append, List.append_assoc]
    rfl

/-- Nothing stands in front of the names of an entry. -/
theorem leading?_intercalate {names : List String} (given : names ≠ []) (h : ∀ name ∈ names, IsEntryName name) :
    (Path.mk ("/".intercalate names)).leading? = none := by
  have below := pieces_intercalate given h
  obtain ⟨name, rest, rfl⟩ := List.exists_cons_of_ne_nil given
  have special := (h name List.mem_cons_self).not_special
  simp only [List.mem_cons, List.not_mem_nil, or_false, not_or] at special
  obtain ⟨empty, here, -⟩ := special
  have relative : (Path.mk ("/".intercalate (name :: rest))).isAbsolute ≠ true := by
    intro slash
    rw [isAbsolute, decide_eq_true_iff, List.head?_eq_some_iff] at slash
    obtain ⟨chars, text⟩ := slash
    rw [pieces, text, piecesOf_slash, List.map_cons] at below
    exact empty (List.cons.inj below).1.symm
  have named : (Path.mk ("/".intercalate (name :: rest))).pieces.head? ≠ some "." := by
    rw [below, List.head?_cons, ne_eq, Option.some_inj]
    exact here
  rw [leading?, if_neg relative, if_neg named]

/-- The path of an entry is that of the directory with the names behind it, however the directory is spelled. -/
theorem components_join (p : Path) {names : List String} (given : names ≠ []) (h : ∀ name ∈ names, IsEntryName name) :
    (p.join ("/".intercalate names)).components = p.components ++ names.map .name := by
  have below := pieces_intercalate given h
  by_cases empty : p.text = ""
  · have alone : p.join ("/".intercalate names) = ⟨"/".intercalate names⟩ := by
      rw [join, if_pos (.inl empty), empty, String.empty_append]
    have none : p.components = [] := by
      rw [show p = ⟨""⟩ from congrArg Path.mk empty]
      decide
    rw [alone, none, components, leading?_intercalate given h, below, filterMap_componentOf? h]
    rfl
  · obtain ⟨front, text, joined⟩ := exists_front empty ("/".intercalate names)
    have pieces_eq : (p.join ("/".intercalate names)).pieces = (piecesOf front).map String.ofList ++ names := by
      rw [pieces, joined, piecesOf_append_slash, List.map_append]
      exact congrArg _ below
    -- a slash at the end adds a piece that carries no component
    have pieces_of : p.pieces = (piecesOf front).map String.ofList ∨
        p.pieces = (piecesOf front).map String.ofList ++ [""] := by
      rcases text with text | text
      · exact .inl (by rw [pieces, text])
      · exact .inr (by rw [pieces, text, piecesOf_append_slash, List.map_append]; rfl)
    obtain ⟨piece, rest, whole⟩ : ∃ piece rest, (piecesOf front).map String.ofList = piece :: rest := by
      obtain ⟨pieces, last, whole, -⟩ := exists_lastPiece front
      exact List.exists_cons_of_ne_nil (by simp [whole])
    have leading : (p.join ("/".intercalate names)).leading? = p.leading? := by
      apply leading?_congr
      · rw [joined]
        rcases text with text | text
        · cases front with
          | nil => exact absurd (String.toList_eq_nil_iff.1 text) empty
          | cons c front => rw [text]; rfl
        · rw [text]
          cases front <;> rfl
      · rw [pieces_eq, whole]
        rcases pieces_of with e | e <;> rw [e, whole] <;> rfl
    have carried : p.pieces.filterMap componentOf? = ((piecesOf front).map String.ofList).filterMap componentOf? := by
      rcases pieces_of with e | e
      · rw [e]
      · rw [e, List.filterMap_append]
        exact List.append_nil _
    rw [components, components, leading, pieces_eq, List.filterMap_append, filterMap_componentOf? h, carried,
      List.append_assoc]

theorem fileName?_of_components {p : Path} {front : List Component} {names : List String} (given : names ≠ [])
    (h : p.components = front ++ names.map .name) : p.fileName? = names.getLast? := by
  rw [fileName?, h, List.getLast?_append_of_ne_nil _ (by simpa using given), List.getLast?_map]
  cases names.getLast? <;> rfl

/-! ### Parts of texts -/

/-- What has no slash in it occurs on one side of a slash or on the other. -/
theorem infix_slash_iff {part before after : List Char} (given : part ≠ []) (plain : '/' ∉ part) :
    part <:+: before ++ '/' :: after ↔ part <:+: before ∨ part <:+: after := by
  have start {l : List Char} (sub : ∀ c ∈ l, c ∈ part) (h : l <+: '/' :: after) : l = [] := by
    cases l with
    | nil => rfl
    | cons c l =>
      obtain ⟨rfl, -⟩ := List.cons_prefix_cons.1 h
      exact absurd (sub _ List.mem_cons_self) plain
  rw [List.infix_append_iff, List.infix_cons_iff]
  constructor
  · intro h
    rcases h with inside | (front | inside) | ⟨l, l', split, behind, front⟩
    · exact .inl inside
    · exact absurd (start (fun _ => id) front) given
    · exact .inr inside
    · have none : l' = [] := start (fun c mem => split ▸ List.mem_append_right l mem) front
      rw [split, none, List.append_nil]
      exact .inl behind.isInfix
  · intro h
    rcases h with inside | inside
    · exact .inl inside
    · exact .inr (.inl (.inr inside))

/-- What has no slash in it occurs in the text of names exactly if it occurs in one of them. -/
theorem infix_intercalate_iff {part : List Char} (given : part ≠ []) (plain : '/' ∉ part) (names : List String) :
    part <:+: ("/".intercalate names).toList ↔ ∃ name ∈ names, part <:+: name.toList := by
  have parts (l : List (List Char)) : part <:+: ['/'].intercalate l ↔ ∃ chars ∈ l, part <:+: chars := by
    induction l with
    | nil => simpa using given
    | cons chars l ih =>
      cases l with
      | nil => simp
      | cons next l =>
        rw [List.intercalate_cons_cons, List.append_assoc, List.singleton_append, infix_slash_iff given plain, ih]
        simp only [List.exists_mem_cons_iff]
  rw [String.toList_intercalate, show "/".toList = ['/'] from rfl, parts]
  simp

end Path

end ClassCensus
