import ClassCensus.Proofs.Archive.Opening
import ClassCensus.Survey.Collection

/-!
# The classes of an archive

The classes of an archive are its entries with the name of a class file, in the order of the directory; all entries
have to open, the others too (`classUnits_selective`).  As long as it opens, an entry that is no class has no
influence; if it does not, because it is encrypted or written by an unknown method, no class of the archive is read.
-/

namespace ClassCensus

open Archive (Header Opens SameEntry openEntry)

variable {archive : Path} {image image' : Array UInt8} {header header' : Header}

/-- The unit is the class that the entry holds, called by the names of the archive and of the entry. -/
structure HoldsClass (archive : Path) (image : Array UInt8) (header : Header) (unit : ClassUnit) : Prop where
  label : unit.label = archive.text ++ "!" ++ header.name
  bytes : Archive.Holds image header unit.bytes

/-! ### One entry -/

/-- An entry that is no class has to open. -/
theorem classUnit?_foreign (foreign : isClassEntry header = false) (number : Nat) :
    classUnit? archive image number header = (fun _ => none) <$> (openEntry image header).mapError fun e =>
      .inputOutput (.openEntry number archive) (.archive e) := by
  rw [classUnit?]
  cases openEntry image header with
  | error fault => rfl
  | ok entry => simp [foreign, Except.mapError, bind, Except.bind, pure, Except.pure]

theorem classUnit?_foreign_eq_ok_iff (foreign : isClassEntry header = false) {number : Nat}
    {unit? : Option ClassUnit} :
    classUnit? archive image number header = .ok unit? ↔ Opens image header ∧ unit? = none := by
  rw [classUnit?_foreign foreign, Except.map_eq_ok_iff, Archive.opens_iff]
  simp only [Except.mapError_eq_ok_iff]
  constructor
  · rintro ⟨entry, opened, e⟩
    exact ⟨⟨entry, opened⟩, e.symm⟩
  · rintro ⟨⟨entry, opened⟩, e⟩
    exact ⟨entry, opened, e.symm⟩

theorem classUnit?_class_eq_ok_iff (isClass : isClassEntry header = true) {number : Nat} {unit? : Option ClassUnit} :
    classUnit? archive image number header = .ok unit? ↔
      ∃ unit, HoldsClass archive image header unit ∧ unit? = some unit := by
  rw [classUnit?, Except.bind_eq_ok_iff]
  simp only [Except.mapError_eq_ok_iff, isClass, Bool.not_true, Bool.false_eq_true, if_false, Except.bind_eq_ok_iff]
  constructor
  · rintro ⟨entry, opened, bytes, read, e⟩
    exact ⟨_, ⟨rfl, Archive.holds_iff.2 ⟨entry, opened, read⟩⟩, (Except.ok.inj e).symm⟩
  · rintro ⟨⟨label, bytes⟩, ⟨named, holds⟩, rfl⟩
    obtain ⟨entry, opened, read⟩ := Archive.holds_iff.1 holds
    obtain rfl : label = _ := named
    exact ⟨entry, opened, bytes, read, rfl⟩

theorem classUnit?_same (same : SameEntry image image' header header') (number : Nat) :
    classUnit? archive image' number header' = classUnit? archive image number header := by
  have name : header'.name = header.name := by rw [same.header_eq]
  have isClass : isClassEntry header' = isClassEntry header := by
    simp only [isClassEntry, Header.isDirectory, name]
  rw [classUnit?, classUnit?, same.openEntry_map, isClass, name]
  cases opened : openEntry image header with
  | error fault => rfl
  | ok entry =>
    have read := same.read_eq opened
    simp only [Functor.map, Except.map, Except.mapError, bind, Except.bind, read]

/-! ### The entries of a directory -/

theorem classUnitsOnto_append (read : List ClassUnit) (number : Nat) (before after : List Header) :
    classUnitsOnto archive image read number (before ++ after) =
      classUnitsOnto archive image read number before >>= fun units =>
        classUnitsOnto archive image units.reverse (number + before.length) after := by
  induction before generalizing read number with
  | nil => simp [classUnitsOnto, bind, Except.bind]
  | cons first before ih =>
    rw [List.cons_append, classUnitsOnto, classUnitsOnto, bind_assoc]
    refine congrArg _ (funext fun unit? => ?_)
    -- entries keep their numbers, and the classes so far are passed on latest first
    rw [ih, List.length_cons, Nat.add_right_comm, Nat.add_assoc]

theorem classUnitsOnto_same {headers headers' : List Header}
    (same : List.Forall₂ (SameEntry image image') headers headers') (read : List ClassUnit) (number : Nat) :
    classUnitsOnto archive image' read number headers' = classUnitsOnto archive image read number headers := by
  induction same generalizing read number with
  | nil => rfl
  | cons first _ ih =>
    rw [classUnitsOnto, classUnitsOnto, classUnit?_same first]
    exact congrArg _ (funext fun unit? => ih _ _)

theorem classUnitsOnto_eq_ok_iff {read units : List ClassUnit} {number : Nat} {headers : List Header} :
    classUnitsOnto archive image read number headers = .ok units ↔ (∀ header ∈ headers, Opens image header) ∧
      ∃ found, List.Forall₂ (HoldsClass archive image) (headers.filter isClassEntry) found ∧
        units = read.reverse ++ found := by
  induction headers generalizing read number with
  | nil => simp [classUnitsOnto, eq_comm]
  | cons first headers ih =>
    rw [classUnitsOnto, Except.bind_eq_ok_iff]
    simp only [ih, List.forall_mem_cons]
    cases isClass : isClassEntry first with
    | false =>
      simp only [classUnit?_foreign_eq_ok_iff isClass]
      rw [List.filter_cons_of_neg (by simp [isClass])]
      constructor
      · rintro ⟨unit?, ⟨opens, rfl⟩, others, found⟩
        exact ⟨⟨opens, others⟩, found⟩
      · rintro ⟨⟨opens, others⟩, found⟩
        exact ⟨none, ⟨opens, rfl⟩, others, found⟩
    | true =>
      simp only [classUnit?_class_eq_ok_iff isClass]
      rw [List.filter_cons_of_pos isClass]
      constructor
      · rintro ⟨unit?, ⟨unit, holds, rfl⟩, others, found, all, rfl⟩
        exact ⟨⟨holds.bytes.opens, others⟩, unit :: found, .cons holds all, by simp⟩
      · rintro ⟨⟨-, others⟩, found, all, rfl⟩
        cases all with
        | @cons _ unit _ found holds all => exact ⟨some unit, ⟨unit, holds, rfl⟩, others, found, all, by simp⟩

/-! ### Archives -/

theorem classUnits_eq_ok_iff {bytes : List UInt8} {units : List ClassUnit} :
    classUnits archive bytes = .ok units ↔ ∃ headers, Archive.headers bytes.toArray = .ok headers ∧
      (∀ header ∈ headers, Opens bytes.toArray header) ∧
      List.Forall₂ (HoldsClass archive bytes.toArray) (headers.filter isClassEntry) units := by
  rw [classUnits, Except.bind_eq_ok_iff]
  simp only [Except.mapError_eq_ok_iff, classUnitsOnto_eq_ok_iff, List.reverse_nil, List.nil_append,
    exists_eq_right']

/-- The directories of two archives list the same entries, except for one after the entries `before`, which has the same
name in both and is no class. -/
structure ForeignChange (image image' : Array UInt8) (before : List Header) (header header' : Header) : Prop where
  directories : ∃ after before' after', Archive.headers image = .ok (before ++ header :: after) ∧
    Archive.headers image' = .ok (before' ++ header' :: after') ∧
    List.Forall₂ (SameEntry image image') before before' ∧ List.Forall₂ (SameEntry image image') after after'
  name : header'.name = header.name
  foreign : isClassEntry header = false

/-- Between the classes around it, an entry that is no class is opened only. -/
theorem classUnits_around (archive : Path) {bytes : List UInt8} {before after : List Header}
    (listed : Archive.headers bytes.toArray = .ok (before ++ header :: after)) (foreign : isClassEntry header = false) :
    classUnits archive bytes = classUnitsOnto archive bytes.toArray [] 0 before >>= fun units =>
      (openEntry bytes.toArray header).mapError (.inputOutput (.openEntry before.length archive) <| .archive ·) >>=
        fun _ => classUnitsOnto archive bytes.toArray units.reverse (before.length + 1) after := by
  have onto : classUnits archive bytes = classUnitsOnto archive bytes.toArray [] 0 (before ++ header :: after) := by
    rw [classUnits, listed]
    rfl
  rw [onto, classUnitsOnto_append]
  refine congrArg _ (funext fun units => ?_)
  rw [classUnitsOnto, Nat.zero_add, classUnit?_foreign foreign]
  cases openEntry bytes.toArray header <;> rfl

/-- The classes of an archive are those of its entries with the name of a class file, if all of its entries open.  A
change of another entry makes no difference as long as this entry opens, and no class is read if it does not. -/
theorem classUnits_selective (archive : Path) :
    (∀ bytes units, classUnits archive bytes = .ok units ↔ ∃ headers, Archive.headers bytes.toArray = .ok headers ∧
      (∀ header ∈ headers, Opens bytes.toArray header) ∧
      List.Forall₂ (HoldsClass archive bytes.toArray) (headers.filter isClassEntry) units) ∧
    ∀ bytes bytes' before header header', ForeignChange bytes.toArray bytes'.toArray before header header' →
      (Opens bytes.toArray header → Opens bytes'.toArray header' →
        classUnits archive bytes' = classUnits archive bytes) ∧
      (¬ Opens bytes'.toArray header' → ∃ fault, openEntry bytes'.toArray header' = .error fault ∧
        ∀ units, classUnits archive bytes = .ok units →
          classUnits archive bytes' = .error (.inputOutput (.openEntry before.length archive) (.archive fault))) := by
  refine ⟨fun bytes units => classUnits_eq_ok_iff, fun bytes bytes' before header header' change => ?_⟩
  obtain ⟨⟨after, before', after', listed, listed', sameBefore, sameAfter⟩, name, foreign⟩ := change
  have foreign' : isClassEntry header' = false := by
    rw [← foreign, isClassEntry, isClassEntry, Header.isDirectory, Header.isDirectory, name]
  have split := classUnits_around archive listed foreign
  have split' := classUnits_around archive listed' foreign'
  -- the other entries are read alike, so that only the opening of the changed one counts
  simp only [← sameBefore.length_eq, classUnitsOnto_same sameBefore, classUnitsOnto_same sameAfter] at split'
  constructor
  · intro opens opens'
    obtain ⟨entry, opened⟩ := Archive.opens_iff.1 opens
    obtain ⟨entry', opened'⟩ := Archive.opens_iff.1 opens'
    rw [split, split', opened, opened']
    rfl
  · intro closed
    cases opened : openEntry bytes'.toArray header' with
    | ok entry => exact absurd (Archive.opens_iff.2 ⟨entry, opened⟩) closed
    | error fault =>
      refine ⟨fault, rfl, fun units read => ?_⟩
      -- the entries before are read in both archives, so that the fault of this one is the first
      rw [split] at read
      obtain ⟨units, readBefore, -⟩ := Except.bind_eq_ok_iff.1 read
      rw [split', opened, readBefore]
      rfl

/-! ### A text and a class -/

deriving instance DecidableEq for Archive.Header, ClassUnit

/-- An entry to be written: its name, its data and the fields about them. -/
structure WrittenEntry where
  name : List UInt8
  flags : UInt8
  method : UInt8
  checksum : List UInt8
  data : List UInt8
  size : UInt8

namespace WrittenEntry

/-- The fields that stand before the data and in the directory. -/
def fields (entry : WrittenEntry) : List UInt8 :=
  [20, 0, entry.flags, 0, entry.method, 0, 0, 0, 0, 0] ++ entry.checksum ++
    [UInt8.ofNat entry.data.length, 0, 0, 0, entry.size, 0, 0, 0, UInt8.ofNat entry.name.length, 0, 0, 0]

def bytes (entry : WrittenEntry) : List UInt8 :=
  Archive.entryMark ++ entry.fields ++ entry.name ++ entry.data

def directoryHeader (entry : WrittenEntry) (start : UInt8) : List UInt8 :=
  Archive.directoryMark ++ [20, 0] ++ entry.fields ++ [0, 0, 0, 0, 0, 0, 0, 0, 0, 0, start, 0, 0, 0] ++ entry.name

end WrittenEntry

def byteClass : WrittenEntry :=
  ⟨Layout.asciiText "A.class", 0, 0, [0x6F, 0xDF, 0xB9, 0x06], [0x63], 1⟩

def plainText : WrittenEntry :=
  ⟨Layout.asciiText "r.txt", 0, 0, [0x83, 0x16, 0xDC, 0x8C], [0x78], 1⟩

def deflatedText : WrittenEntry :=
  ⟨Layout.asciiText "r.txt", 0, 8, [0xFA, 0xC8, 0x1E, 0xF3], [0xAB, 0xAC, 0x04, 0x01, 0x00], 6⟩

def encryptedText : WrittenEntry :=
  { plainText with flags := 1 }

/-- An archive of a text and a class of one byte. -/
def besideClass (text : WrittenEntry) : List UInt8 :=
  let directory := text.directoryHeader 0 ++ byteClass.directoryHeader (UInt8.ofNat text.bytes.length)
  text.bytes ++ byteClass.bytes ++ directory ++ [0x50, 0x4B, 0x05, 0x06, 0, 0, 0, 0, 2, 0, 2, 0] ++
    [UInt8.ofNat directory.length, 0, 0, 0, UInt8.ofNat (text.bytes.length + byteClass.bytes.length), 0, 0, 0, 0, 0]

def plainHeader : Header :=
  ⟨"r.txt", false, 0, 0x8CDC1683, 1, 1, 0, false⟩

def deflatedHeader : Header :=
  ⟨"r.txt", false, 8, 0xF31EC8FA, 5, 6, 0, false⟩

def encryptedHeader : Header :=
  { plainHeader with encrypted := true }

def classHeader (start : Nat) : Header :=
  ⟨"A.class", false, 0, 0x06B9DF6F, 1, 1, start, false⟩

theorem headers_plainText : Archive.headers (besideClass plainText).toArray = .ok [plainHeader, classHeader 36] := by
  decide +kernel

/-- The text is deflated, which moves the class behind it. -/
theorem foreignChange_deflated :
    ForeignChange (besideClass plainText).toArray (besideClass deflatedText).toArray [] plainHeader deflatedHeader where
  directories := by
    have listed : Archive.headers (besideClass deflatedText).toArray = .ok [deflatedHeader, classHeader 40] := by
      decide +kernel
    have same : SameEntry (besideClass plainText).toArray (besideClass deflatedText).toArray (classHeader 36)
        (classHeader 40) := ⟨rfl, by decide +kernel⟩
    exact ⟨[classHeader 36], [], [classHeader 40], headers_plainText, listed, .nil, .cons same .nil⟩
  name := rfl
  foreign := by decide +kernel

theorem foreignChange_encrypted :
    ForeignChange (besideClass plainText).toArray (besideClass encryptedText).toArray [] plainHeader
      encryptedHeader where
  directories := by
    have listed : Archive.headers (besideClass encryptedText).toArray = .ok [encryptedHeader, classHeader 36] := by
      decide +kernel
    have same : SameEntry (besideClass plainText).toArray (besideClass encryptedText).toArray (classHeader 36)
        (classHeader 36) := ⟨rfl, by decide +kernel⟩
    exact ⟨[classHeader 36], [], [classHeader 36], headers_plainText, listed, .nil, .cons same .nil⟩
  name := rfl
  foreign := by decide +kernel

theorem classUnits_plainText :
    classUnits ⟨"a.jar"⟩ (besideClass plainText) = .ok [⟨"a.jar!A.class", [0x63]⟩] := by
  decide +kernel

/-- A text that is deflated, or encrypted. -/
theorem classUnits_selective_text :
    (Opens (besideClass plainText).toArray plainHeader ∧ Opens (besideClass deflatedText).toArray deflatedHeader ∧
        classUnits ⟨"a.jar"⟩ (besideClass deflatedText) = .ok [⟨"a.jar!A.class", [0x63]⟩]) ∧
      ¬ Opens (besideClass encryptedText).toArray encryptedHeader ∧
      ∃ fault, classUnits ⟨"a.jar"⟩ (besideClass encryptedText) =
        .error (.inputOutput (.openEntry 0 ⟨"a.jar"⟩) (.archive fault)) := by
  have opens : Opens (besideClass plainText).toArray plainHeader := by decide +kernel
  have opens' : Opens (besideClass deflatedText).toArray deflatedHeader := by decide +kernel
  have closed : ¬ Opens (besideClass encryptedText).toArray encryptedHeader := by decide +kernel
  obtain ⟨-, selective⟩ := classUnits_selective ⟨"a.jar"⟩
  have same := (selective _ _ _ _ _ foreignChange_deflated).1 opens opens'
  obtain ⟨fault, -, fails⟩ := (selective _ _ _ _ _ foreignChange_encrypted).2 closed
  exact ⟨⟨opens, opens', same.trans classUnits_plainText⟩, closed, fault, fails _ classUnits_plainText⟩

/-- To mark a text as encrypted makes an archive unreadable. -/
theorem classUnits_encryptedText :
    ForeignChange (besideClass plainText).toArray (besideClass encryptedText).toArray [] plainHeader encryptedHeader ∧
      classUnits ⟨"a.jar"⟩ (besideClass plainText) = .ok [⟨"a.jar!A.class", [0x63]⟩] ∧
      classUnits ⟨"a.jar"⟩ (besideClass encryptedText) =
        .error (.inputOutput (.openEntry 0 ⟨"a.jar"⟩) (.archive .encrypted)) :=
  ⟨foreignChange_encrypted, classUnits_plainText, by decide +kernel⟩

end ClassCensus
