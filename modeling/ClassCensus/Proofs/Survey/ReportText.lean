import ClassCensus.Proofs.Layout.DottedNames
import ClassCensus.Proofs.Mention.CanonicalNames
import ClassCensus.Proofs.Survey.Gathering
import ClassCensus.Proofs.Survey.Replacement

/-!
# What reports say

The text of a report holds the names of the survey in ascending order (`Listing`).  None of them is empty and none
belongs to the platform.

* (lines) each name has a line of its own, and the text tells the names, if none of them has a line break in it;
* (line breaks) a name with a line break is one that a class file mentions, since the names in layouts have none.

Such names occur, and then the lines of a report are not its names (`run_brokenLine`).
-/

namespace ClassCensus

/-- The lines of a text; the empty text has none. -/
def reportLines (text : String) : List String :=
  if text = "" then [] else (text.toList.splitOn '\n').map String.ofList

/-! ### Lines -/

private theorem notMem_of_mem_splitOn {xs part : List Char} {c : Char} (h : part ∈ xs.splitOn c) : c ∉ part := by
  induction xs generalizing part with
  | nil =>
    rw [List.splitOn_nil, List.mem_singleton] at h
    simp [h]
  | cons x xs ih =>
    rw [List.splitOn_cons_eq_if_modifyHead] at h
    by_cases stop : x = c
    · rw [if_pos (by simpa using stop)] at h
      rcases List.mem_cons.1 h with rfl | h
      · simp
      · exact ih h
    · rw [if_neg (by simpa using stop)] at h
      cases parts : xs.splitOn c with
      | nil => exact absurd parts (List.splitOn_ne_nil c xs)
      | cons first others =>
        rw [parts] at h ih
        rcases List.mem_cons.1 h with rfl | h
        · rw [List.mem_cons, not_or]
          exact ⟨fun e => stop e.symm, ih List.mem_cons_self⟩
        · exact ih (List.mem_cons_of_mem _ h)

/-- Lines are the names that are written in them, unless a name has a line break. -/
theorem reportLines_intercalate_iff {names : List String} (h : ∀ n ∈ names, n ≠ "") :
    reportLines ("\n".intercalate names) = names ↔ ∀ n ∈ names, '\n' ∉ n.toList := by
  constructor
  · -- lines have no line breaks, whatever they come from
    intro e n mem
    rw [← e, reportLines] at mem
    split at mem
    · cases mem
    · obtain ⟨part, split, rfl⟩ := List.mem_map.1 mem
      rw [String.toList_ofList]
      exact notMem_of_mem_splitOn split
  · intro plain
    cases names with
    | nil => rfl
    | cons first others =>
      -- the text is not taken for one without lines, since the first name is not empty
      have given : "\n".intercalate (first :: others) ≠ "" := by
        intro none
        have chars := congrArg String.toList none
        rw [String.toList_intercalate, List.map_cons, String.toList_empty] at chars
        have empty : first.toList = [] := List.prefix_nil.1 (chars ▸ prefix_intercalate _ _ _)
        exact h first List.mem_cons_self (String.toList_eq_nil_iff.1 empty)
      rw [reportLines, if_neg given, String.toList_intercalate,
        show "\n".toList = ['\n'] from rfl, List.splitOn_intercalate '\n' ?_ (by simp), List.map_map]
      · exact (List.map_congr_left fun n _ => String.ofList_toList).trans (List.map_id _)
      · intro part mem
        obtain ⟨n, listed, rfl⟩ := List.mem_map.1 mem
        exact plain n listed

namespace NameSet

variable {names : NameSet}

/-- The lines of a report are its names, unless a name has a line break. -/
theorem reportLines_render_iff (h : ∀ n ∈ names, n ≠ "") :
    reportLines names.render = names.toList ↔ ∀ n ∈ names, '\n' ∉ n.toList := by
  simp only [← Std.ExtTreeSet.mem_toList (t := names)] at h ⊢
  exact reportLines_intercalate_iff h

/-- A text tells the names, as long as these have no line breaks. -/
theorem render_injective {other : NameSet} (h : ∀ n ∈ names, n ≠ "" ∧ '\n' ∉ n.toList)
    (h' : ∀ n ∈ other, n ≠ "" ∧ '\n' ∉ n.toList) (same : other.render = names.render) : other = names := by
  have lines := (reportLines_render_iff fun n mem => (h n mem).1).2 fun n mem => (h n mem).2
  have lines' := (reportLines_render_iff fun n mem => (h' n mem).1).2 fun n mem => (h' n mem).2
  rw [same, lines] at lines'
  apply Std.ExtTreeSet.ext_mem
  intro n
  rw [← Std.ExtTreeSet.mem_toList, ← lines', Std.ExtTreeSet.mem_toList]

end NameSet

/-! ### Names of units and layouts -/

/-- The names come from a class file or from a layout. -/
inductive NameSet.IsContribution (s : NameSet) : Prop
  | ofClass {image : List UInt8} : classReferences image = .ok s → IsContribution s
  | ofLayout {document : List UInt8} {all : NameSet} :
      Layout.dottedNames document = .ok all → s = all.withoutPlatform → IsContribution s

namespace NameSet.IsContribution

variable {s : NameSet} {n : String}

theorem ne_empty (h : s.IsContribution) (mem : n ∈ s) : n ≠ "" := by
  cases h with
  | ofClass accepted =>
    obtain ⟨_, _, decoded, -⟩ := classReferences_eq_ok_iff.1 accepted
    obtain ⟨internal, source, rfl⟩ := exists_nameSource decoded accepted mem
    exact canonicalName_ne_empty source.ne_empty
  | ofLayout found e =>
    subst e
    exact Layout.ne_empty_of_isName (Layout.isName_of_mem_dottedNames found (mem_withoutPlatform.1 mem).1).1

theorem not_platform (h : s.IsContribution) (mem : n ∈ s) : ¬ "java.".toList <+: n.toList := by
  cases h with
  | ofClass accepted =>
    obtain ⟨_, _, -, -, rfl⟩ := classReferences_eq_ok_iff.1 accepted
    exact (mem_withoutPlatform.1 mem).2
  | ofLayout _ e =>
    subst e
    exact (mem_withoutPlatform.1 mem).2

/-- A name with a line break comes from a class file. -/
theorem ofClass_of_lineBreak (h : s.IsContribution) (mem : n ∈ s) (broken : '\n' ∈ n.toList) :
    ∃ image, classReferences image = .ok s := by
  cases h with
  | ofClass accepted => exact ⟨_, accepted⟩
  | ofLayout found e =>
    subst e
    have isName := (Layout.isName_of_mem_dottedNames found (mem_withoutPlatform.1 mem).1).1
    exact absurd broken (Layout.lineBreak_notMem_of_isName isName)

end NameSet.IsContribution

/-- A result, if it is one, holds names of a class file or of a layout. -/
def Contributes (result : Except SurveyError NameSet) : Prop :=
  ∀ s, result = .ok s → s.IsContribution

theorem ClassUnit.contributes (unit : ClassUnit) : Contributes unit.names :=
  fun _ h => .ofClass (Except.mapError_eq_ok_iff.1 h)

/-- The names of a collection are those of class files and of layouts. -/
def Gathered (result : Except SurveyError (NameSet × Nat)) : Prop :=
  ∀ names count, result = .ok (names, count) → ∃ sets, names = NameSet.merge sets ∧ ∀ s ∈ sets, s.IsContribution

theorem gathered_gather {units layouts : List (Except SurveyError NameSet)} (hu : ∀ r ∈ units, Contributes r)
    (hl : ∀ r ∈ layouts, Contributes r) : Gathered (gather units layouts) := by
  intro names count h
  obtain ⟨us, ls, rfl, rfl, rfl, -⟩ := gather_eq_ok_iff.1 h
  refine ⟨us ++ ls, rfl, fun s mem => ?_⟩
  rcases List.mem_append.1 mem with mem | mem
  · exact hu _ (List.mem_map_of_mem mem) s rfl
  · exact hl _ (List.mem_map_of_mem mem) s rfl

/-! ### Surveys on any system of files -/

section Run

variable {σ : Type} [Files (StateM σ)]

theorem gives_classFileNames (path : Path) : StateM.Gives Contributes (classFileNames path : StateM σ _) := by
  refine .after fun bytes => ?_
  split
  · exact .pure nofun
  · exact .pure (ClassUnit.contributes _)

theorem gives_layoutFileNames (path : Path) : StateM.Gives Contributes (layoutFileNames path : StateM σ _) := by
  refine .after fun bytes => ?_
  split
  · exact .pure nofun
  · refine .pure fun s h => ?_
    obtain ⟨all, found, rfl⟩ := Except.map_eq_ok_iff.1 h
    exact .ofLayout (Except.mapError_eq_ok_iff.1 found) rfl

theorem gives_unitNames (artifact : Artifact) : StateM.Gives
    (fun units => ∀ results, units = .ok results → ∀ r ∈ results, Contributes r)
    (artifact.unitNames : StateM σ _) := by
  cases artifact with
  | archive path =>
    refine .after fun bytes => ?_
    split
    · exact .pure nofun
    · refine .pure fun results h => ?_
      obtain ⟨units, -, rfl⟩ := Except.map_eq_ok_iff.1 h
      intro r mem
      obtain ⟨unit, -, rfl⟩ := List.mem_map.1 mem
      exact unit.contributes
  | classes paths =>
    refine (StateM.Gives.mapM gives_classFileNames paths).bind fun results h => .pure ?_
    rintro _ ⟨⟩
    exact h

theorem gives_collect (artifact : Artifact) (layouts : List Path) :
    StateM.Gives Gathered (collect artifact layouts : StateM σ _) := by
  refine (gives_unitNames artifact).bind fun units h => ?_
  split
  · exact .pure nofun
  · exact (StateM.Gives.mapM gives_layoutFileNames layouts).bind fun results h' =>
      .pure (gathered_gather (h _ rfl) h')

/-- A report that is written is first written to the temporary file, which is then renamed. -/
theorem writeReport_eq_ok {tag text : String} {output : Path} {state after : σ}
    (h : (writeReport tag output text : StateM σ _) state = (.ok (), after)) :
    ∃ prepared written, (Files.write (temporaryPath tag output) text.toUTF8.toList : StateM σ _) prepared =
        (.ok (), written) ∧
      (Files.rename (temporaryPath tag output) output : StateM σ _) written = (.ok (), after) := by
  obtain ⟨made, prepared, -, h⟩ := StateM.bind_eq_iff.1 h
  cases made with
  | error => cases h
  | ok =>
    obtain ⟨wrote, written, writes, h⟩ := StateM.bind_eq_iff.1 h
    cases wrote with
    | error => cases h
    | ok =>
      obtain ⟨renamed, last, renames, h⟩ := StateM.bind_eq_iff.1 h
      cases renamed with
      | error => cases h
      | ok =>
        cases h
        exact ⟨prepared, written, writes, renames⟩

/-- A survey that succeeds writes the report of the names that it has collected. -/
theorem run_eq_ok {tag : String} {request : Request} {summary : Summary} {state after : σ}
    (h : (request.run tag : StateM σ _) state = (.ok summary, after)) : ∃ names units gathered,
      (collect request.artifact request.layouts : StateM σ _) state = (.ok (names, units), gathered) ∧
        (writeReport tag request.output names.render : StateM σ _) gathered = (.ok (), after) ∧
          summary = ⟨request.output, units, request.layouts.length, names.size⟩ := by
  obtain ⟨result, gathered, collected, h⟩ := StateM.bind_eq_iff.1 h
  rcases result with _ | ⟨names, units⟩
  · cases h
  · obtain ⟨wrote, last, writes, h⟩ := StateM.bind_eq_iff.1 h
    cases wrote with
    | error => cases h
    | ok =>
      cases h
      exact ⟨names, units, gathered, collected, writes, rfl⟩

end Run

/-- What the text of a report says about the names that it holds. -/
structure Listing (names : NameSet) (text : String) : Prop where
  ascending : names.toList.Pairwise (· < ·)
  ne_empty : ∀ n ∈ names, n ≠ ""
  not_platform : ∀ n ∈ names, ¬ "java.".toList <+: n.toList
  /-- Each name has a line of its own, unless one of them has a line break. -/
  lines_iff : reportLines text = names.toList ↔ ∀ n ∈ names, '\n' ∉ n.toList
  /-- Without line breaks in the names, no other such names have the same text. -/
  unique : (∀ n ∈ names, '\n' ∉ n.toList) → ∀ other : NameSet, (∀ n ∈ other, n ≠ "" ∧ '\n' ∉ n.toList) →
    other.render = text → other = names
  /-- A name with a line break is one that a class file mentions. -/
  broken : ∀ n ∈ names, '\n' ∈ n.toList → ∃ image s, classReferences image = .ok s ∧ n ∈ s

theorem listing_of_contributions {sets : List NameSet} (h : ∀ s ∈ sets, s.IsContribution) :
    Listing (NameSet.merge sets) (NameSet.merge sets).render := by
  have given : ∀ n ∈ NameSet.merge sets, n ≠ "" := by
    intro n mem
    obtain ⟨s, listed, mem⟩ := NameSet.mem_merge.1 mem
    exact (h s listed).ne_empty mem
  refine ⟨NameSet.pairwise_toList _, given, ?_, NameSet.reportLines_render_iff given, ?_, ?_⟩
  · intro n mem
    obtain ⟨s, listed, mem⟩ := NameSet.mem_merge.1 mem
    exact (h s listed).not_platform mem
  · intro plain other h' same
    exact NameSet.render_injective (fun n mem => ⟨given n mem, plain n mem⟩) h' same
  · intro n mem broken
    obtain ⟨s, listed, mem⟩ := NameSet.mem_merge.1 mem
    obtain ⟨image, accepted⟩ := (h s listed).ofClass_of_lineBreak mem broken
    exact ⟨image, s, accepted, mem⟩

/-- The report that a survey writes lists the names that it has collected. -/
theorem run_listing {σ : Type} [Files (StateM σ)] {tag : String} {request : Request} {summary : Summary}
    {state after : σ} (h : (request.run tag : StateM σ _) state = (.ok summary, after)) :
    ∃ names units, ((collect request.artifact request.layouts : StateM σ _) state).1 = .ok (names, units) ∧
      (∃ prepared written,
        (Files.write (temporaryPath tag request.output) names.render.toUTF8.toList : StateM σ _) prepared =
          (.ok (), written) ∧
        (Files.rename (temporaryPath tag request.output) request.output : StateM σ _) written = (.ok (), after)) ∧
      Listing names names.render ∧ summary.references = names.toList.length := by
  obtain ⟨names, units, gathered, collected, wrote, rfl⟩ := run_eq_ok h
  have contributed := gives_collect request.artifact request.layouts state
  rw [collected] at contributed
  obtain ⟨sets, rfl, sources⟩ := contributed _ _ rfl
  refine ⟨_, units, by rw [collected], writeReport_eq_ok wrote, listing_of_contributions sources, ?_⟩
  exact Std.ExtTreeSet.length_toList.symm

/-- A class whose superclass has a line break in its name. -/
def brokenName : List UInt8 :=
  [0xCA, 0xFE, 0xBA, 0xBE, 0, 0, 0, 52, 0, 3, 1, 0, 18] ++ "z\njava.lang.Object".toUTF8.toList ++
    [7, 0, 1, 0, 0, 0, 0, 0, 2, 0, 0, 0, 0, 0, 0, 0, 0]

/-- A file with that class. -/
def brokenClass : FileTree :=
  ⟨[(["A.class"], .file brokenName)], []⟩

private theorem read_brokenClass : brokenClass.read ⟨"A.class"⟩ = .ok brokenName := by
  have steps : FileTree.stepsOf ⟨"A.class"⟩ = ["A.class"] := by decide +kernel
  have leads : brokenClass.Leads .follow FileTree.maxLinks (brokenClass.origin ⟨"A.class"⟩) ["A.class"]
      (.entry ["A.class"] (.file brokenName)) :=
    .file (.of_step (by decide) (by simp)) rfl
  exact FileTree.read_of_find (FileTree.find_of_leads rfl (steps.symm ▸ leads))

private theorem collect_brokenClass : ∃ names : NameSet, names.toList = ["z\njava.lang.Object"] ∧
    (collect (.classes [⟨"A.class"⟩]) [] : StateM Disk _) ⟨brokenClass, [], []⟩ =
      (.ok (names, 1), ⟨brokenClass, [], []⟩) := by
  have references : (classReferences brokenName).toOption.map (·.toList) = some ["z\njava.lang.Object"] := by
    decide +kernel
  obtain ⟨s, accepted, listed⟩ := NameSet.exists_of_toList references
  have names : (classFileNames ⟨"A.class"⟩ : StateM Disk _) ⟨brokenClass, [], []⟩ = (.ok s, ⟨brokenClass, [], []⟩) := by
    have read : (Files.read ⟨"A.class"⟩ : StateM Disk _) ⟨brokenClass, [], []⟩ =
        (.ok brokenName, ⟨brokenClass, [], []⟩) :=
      congrArg (·, _) read_brokenClass
    rw [classFileNames, StateM.bind_apply, read]
    show ((ClassUnit.mk _ brokenName).names, _) = _
    rw [ClassUnit.names, accepted]
    rfl
  have merged : NameSet.merge [s] = s := by
    apply Std.ExtTreeSet.ext_mem
    simp [NameSet.mem_merge]
  refine ⟨s, listed, ?_⟩
  rw [collect, StateM.bind_apply, Artifact.unitNames, StateM.bind_apply, List.mapM_cons, StateM.bind_apply, names]
  show (Except.ok (NameSet.merge [s], 1), Disk.mk brokenClass [] []) = _
  rw [merged]

private theorem run_brokenClass : ∃ names : NameSet, names.toList = ["z\njava.lang.Object"] ∧
    (collect (.classes [⟨"A.class"⟩]) [] : StateM Disk _) ⟨brokenClass, [], []⟩ =
      (.ok (names, 1), ⟨brokenClass, [], []⟩) ∧
    ∃ after, (Request.run "7" ⟨.classes [⟨"A.class"⟩], [], ⟨"r"⟩⟩ : StateM Disk _) ⟨brokenClass, [], []⟩ =
      (.ok ⟨⟨"r"⟩, 1, 0, names.size⟩, after) := by
  obtain ⟨names, listed, collected⟩ := collect_brokenClass
  have prepared : (prepareDirectory ⟨"r"⟩ : StateM Disk _) ⟨brokenClass, [], []⟩ =
      (.ok (), ⟨brokenClass, [], []⟩) := by
    have parent : Path.parent? ⟨"r"⟩ = some ⟨""⟩ := by decide +kernel
    rw [prepareDirectory, parent]
    rfl
  have located : brokenClass.locate (temporaryPath "7" ⟨"r"⟩) = .ok (.free [] "r.7.tmp") := by
    have steps : FileTree.namesOf (temporaryPath "7" ⟨"r"⟩) = ["r.7.tmp"] := by decide +kernel
    refine FileTree.locate_eq_ok_iff.2 ⟨by rfl, ?_⟩
    rw [steps]
    exact .free (.of_step (by decide) (by simp)) rfl
  have led (bytes : List UInt8) :
      (brokenClass.insert ["r.7.tmp"] (.file bytes)).locate ⟨"r"⟩ = .ok (.free [] "r") := by
    have steps : FileTree.namesOf ⟨"r"⟩ = ["r"] := by decide +kernel
    refine FileTree.locate_eq_ok_iff.2 ⟨by rfl, ?_⟩
    rw [steps]
    exact .free (.of_step (by decide) (by simp)) rfl
  obtain ⟨moments, run⟩ := run_of_steps ⟨.classes [⟨"A.class"⟩], [], ⟨"r"⟩⟩ collected prepared
    (FileTree.write_of_free located (by rfl) _)
    (FileTree.rename_of_file (FileTree.findKept_written located (by rfl)) (led _) nofun (by decide +kernel))
  exact ⟨names, listed, collected, _, run⟩

/-- The report of a class with such a superclass. -/
theorem run_listing_brokenClass : ∃ summary after, (Request.run "7" ⟨.classes [⟨"A.class"⟩], [], ⟨"r"⟩⟩ : StateM Disk _)
    ⟨brokenClass, [], []⟩ = (.ok summary, after) ∧ ∃ names units,
      ((collect (.classes [⟨"A.class"⟩]) [] : StateM Disk _) ⟨brokenClass, [], []⟩).1 = .ok (names, units) ∧
        Listing names names.render ∧ summary.references = names.toList.length := by
  obtain ⟨_, -, -, after, run⟩ := run_brokenClass
  obtain ⟨names, units, collected, -, listing, size⟩ := run_listing run
  exact ⟨_, after, run, names, units, collected, listing, size⟩

/-- A survey may succeed with one name and a report of two lines, of which one begins with `java.`. -/
theorem run_brokenLine : ∃ names : NameSet, names.toList = ["z\njava.lang.Object"] ∧
    (∃ state, (collect (.classes [⟨"A.class"⟩]) [] : StateM Disk _) ⟨brokenClass, [], []⟩ =
      (.ok (names, 1), state)) ∧
    (∃ after, (Request.run "7" ⟨.classes [⟨"A.class"⟩], [], ⟨"r"⟩⟩ : StateM Disk _) ⟨brokenClass, [], []⟩ =
      (.ok ⟨⟨"r"⟩, 1, 0, names.size⟩, after)) ∧
    reportLines names.render = ["z", "java.lang.Object"] := by
  obtain ⟨names, listed, collected, run⟩ := run_brokenClass
  refine ⟨names, listed, ⟨_, collected⟩, run, ?_⟩
  rw [NameSet.render, listed]
  decide +kernel

end ClassCensus
