/-!
# Paths

A path is a text; what it means is a sequence of components between slashes. Repeated slashes, slashes at the end and
single dots other than one at the start carry no component, so different texts can be the same path.

* (order) paths are ordered by their components: the root before a dot at the start, before two dots, before names by
  code point (`Path.compare`); texts of the same path compare equal;
* (text) `parent?` and `join` keep the spelling of what they keep.
-/

namespace ClassCensus

/-- A path, as its text. -/
structure Path where
  text : String
deriving DecidableEq

namespace Path

/-- A component of a path. -/
inductive Component where
  | root
  /-- A single dot at the start. -/
  | here
  /-- Two dots. -/
  | up
  | name (text : String)
deriving DecidableEq

/-- The order of components of different kinds. -/
def Component.rank : Component → Nat
  | .root => 0
  | .here => 1
  | .up => 2
  | .name _ => 3

/-- The order of components. -/
def Component.compare : Component → Component → Ordering
  | .name a, .name b => Ord.compare a b
  | a, b => Ord.compare a.rank b.rank

instance : Ord Component := ⟨Component.compare⟩

/-- The pieces of a text between slashes. -/
def piecesOf : List Char → List (List Char)
  | [] => [[]]
  | c :: chars =>
    if c = '/' then [] :: piecesOf chars
    else match piecesOf chars with
    | [] => [[c]]
    | piece :: pieces => (c :: piece) :: pieces

/-- The pieces of the text of a path between slashes. -/
def pieces (p : Path) : List String :=
  (piecesOf p.text.toList).map String.ofList

/-- The path starts at the root. -/
def isAbsolute (p : Path) : Bool :=
  p.text.toList.head? = some '/'

/-- The component of a piece that is not at the start of a path, if it carries one. -/
def componentOf? (piece : String) : Option Component :=
  if piece = "" ∨ piece = "." then none
  else if piece = ".." then some .up
  else some (.name piece)

/-- The path holds the character that ends a text for the system, so it names nothing. -/
def holdsNul (p : Path) : Bool :=
  p.text.toList.contains '\x00'

/-- The component at the start of a path that its other pieces do not show. -/
def leading? (p : Path) : Option Component :=
  if p.isAbsolute then some .root
  else if p.pieces.head? = some "." then some .here
  else none

/-- The components of a path. -/
def components (p : Path) : List Component :=
  p.leading?.toList ++ p.pieces.filterMap componentOf?

/-- The order of paths. -/
def compare (p q : Path) : Ordering :=
  Ord.compare p.components q.components

/-- The texts are spellings of the same path. -/
def same (p q : Path) : Bool :=
  p.components = q.components

/-- The pieces without those at the end that carry no component. -/
def trimPieces (pieces : List String) : List String :=
  (pieces.reverse.dropWhile fun piece => (componentOf? piece).isNone).reverse

/-- The path above, in its spelling: none for the root and for the empty path. -/
def parent? (p : Path) : Option Path :=
  let leading := match p.leading? with
    | none => none
    | some .here => some "."
    | some _ => some ""
  let body := trimPieces (if leading.isSome then p.pieces.tail else p.pieces)
  match leading, body with
  | none, [] => none
  | some "", [] => none
  | _, [] => some ⟨""⟩
  | leading, piece :: body =>
    match leading, trimPieces (piece :: body).dropLast with
    | some "", [] => some ⟨"/"⟩
    | leading, above => some ⟨"/".intercalate (leading.toList ++ above)⟩

/-- The name at the end of a path. -/
def fileName? (p : Path) : Option String :=
  match p.components.getLast? with
  | some (.name text) => some text
  | _ => none

/-- The extension of a name: what follows its last dot, unless that dot starts the name. -/
def extensionOf? (name : String) : Option String :=
  let reversed := name.toList.reverse
  match reversed.dropWhile (· ≠ '.') with
  | [] | [_] => none
  | _ => some (String.ofList (reversed.takeWhile (· ≠ '.')).reverse)

/-- The extension of the name at the end of a path. -/
def extension? (p : Path) : Option String :=
  p.fileName?.bind extensionOf?

/-- The path with a relative path below it. -/
def join (p : Path) (below : String) : Path :=
  if p.text = "" ∨ p.text.toList.getLast? = some '/' then ⟨p.text ++ below⟩ else ⟨p.text ++ "/" ++ below⟩

/-- The path with a text at its end. -/
def append (p : Path) (text : String) : Path :=
  ⟨p.text ++ text⟩

/-- The path and those above it, the nearest first, at most `bound` of them. -/
def ancestorsOnto (p : Path) : (bound : Nat) → List Path
  | 0 => [p]
  | bound + 1 =>
    match p.parent? with
    | none => [p]
    | some above => p :: above.ancestorsOnto bound

/-- The path and those above it, the nearest first. -/
def ancestors (p : Path) : List Path :=
  p.ancestorsOnto p.components.length

/-- Drops each path that is the same as the one before it. -/
def dropRepeated : List Path → List Path
  | [] => []
  | p :: paths =>
    match dropRepeated paths with
    | [] => [p]
    | q :: rest => if p.same q then p :: rest else p :: q :: rest

/-- The paths in order; spellings of the same path keep their order. -/
def sort (paths : List Path) : List Path :=
  paths.mergeSort fun p q => (p.compare q).isLE

/-- The paths in order, each once, in the first of its spellings. -/
def sortDistinct (paths : List Path) : List Path :=
  dropRepeated (sort paths)

end Path

end ClassCensus
