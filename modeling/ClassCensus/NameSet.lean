import ClassCensus.TypeText.ClassName
import Std.Data.ExtTreeSet

/-!
# Sets of class names

Finite sets of class names. Two sets with the same members are equal, and the members come in ascending order of code
points, which is also the order of the UTF-8 bytes.

* (report) a report holds one name a line, in that order, without a line break at the end;
* (filter) `withoutPlatform` drops the names of the platform.
-/

namespace ClassCensus

/-- A finite set of class names. -/
abbrev NameSet := Std.ExtTreeSet String

namespace NameSet

/-- The set of the names in a list. -/
def ofList (names : List String) : NameSet :=
  Std.ExtTreeSet.ofList names

/-- The names that do not belong to the platform. -/
def withoutPlatform (s : NameSet) : NameSet :=
  s.filter fun name => !isPlatformName name

/-- The names in any of the sets. -/
def merge (sets : List NameSet) : NameSet :=
  sets.foldl (· ∪ ·) ∅

/-- The text of a report. -/
def render (s : NameSet) : String :=
  "\n".intercalate s.toList

end NameSet

end ClassCensus
