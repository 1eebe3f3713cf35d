import ClassCensus.Archive.Reader
import ClassCensus.Proofs.Outcome

/-!
# Entries that can be opened

An entry can be opened if it is not encrypted, its method is known, and a header stands before it (`opens_iff`).  What
is read from it depends on what the directory says and on the bytes from this header to the end of the data, wherever in
an archive they stand (`SameEntry.openEntry_map`).
-/

namespace ClassCensus.Archive

variable {image image' : Array UInt8} {header header' : Header}

/-- The header before an entry. -/
def entryRecord (image : Array UInt8) (header : Header) : Except ArchiveFault (List UInt8) :=
  markedRecord entryMark .invalidEntryHeader image header.start 30

/-- The data of an entry behind the header before it. -/
def dataBehind (image : Array UInt8) (header : Header) (fields : List UInt8) : List UInt8 :=
  slice image (header.start + 30 + fieldAt fields 26 2 + fieldAt fields 28 2) header.compressedSize

theorem openEntry_eq (image : Array UInt8) (header : Header) : openEntry image header =
    if header.encrypted then .error .encrypted
    else entryRecord image header >>= fun fields =>
      match Method.ofNumber? header.method with
      | none => .error .unsupportedMethod
      | some method =>
        if header.hasCipher then .error .encrypted else .ok ⟨header, method, dataBehind image header fields⟩ := by
  unfold openEntry
  cases header.encrypted with
  | true => rfl
  | false =>
    refine congrArg (entryRecord image header >>= ·) (funext fun fields => ?_)
    cases Method.ofNumber? header.method with
    | none => rfl
    | some method => cases header.hasCipher <;> rfl

theorem openEntry_eq_ok_iff {entry : OpenEntry} :
    openEntry image header = .ok entry ↔ header.encrypted = false ∧ header.hasCipher = false ∧
      Method.ofNumber? header.method = some entry.method ∧ entry.header = header ∧
      ∃ fields, entryRecord image header = .ok fields ∧ entry.data = dataBehind image header fields := by
  rw [openEntry_eq]
  constructor
  · intro opened
    split at opened
    · cases opened
    next plain =>
    obtain ⟨fields, found, opened⟩ := Except.bind_eq_ok_iff.1 opened
    split at opened
    · cases opened
    next method known =>
    split at opened
    · cases opened
    next noCipher =>
    cases opened
    exact ⟨by simpa using plain, by simpa using noCipher, known, rfl, fields, found, rfl⟩
  · rintro ⟨plain, noCipher, known, rfl, fields, found, data⟩
    rw [plain, noCipher, known, found]
    exact congrArg (fun written => Except.ok (OpenEntry.mk entry.header entry.method written)) data.symm

theorem ofNumber?_eq_some {n : Nat} {method : Method} (h : Method.ofNumber? n = some method) :
    n = 0 ∧ method = .stored ∨ n = 8 ∧ method = .deflated := by
  unfold Method.ofNumber? at h
  split at h
  · exact .inl ⟨rfl, (Option.some.inj h).symm⟩
  · exact .inr ⟨rfl, (Option.some.inj h).symm⟩
  · cases h

/-- The entry can be opened. -/
structure Opens (image : Array UInt8) (header : Header) : Prop where
  plain : header.encrypted = false
  noCipher : header.hasCipher = false
  method : header.method = 0 ∨ header.method = 8
  record : ∃ fields, entryRecord image header = .ok fields

theorem opens_iff : Opens image header ↔ ∃ entry, openEntry image header = .ok entry := by
  constructor
  · rintro ⟨plain, noCipher, number, fields, found⟩
    obtain ⟨method, known⟩ : ∃ method, Method.ofNumber? header.method = some method := by
      rcases number with number | number
      · exact ⟨.stored, by rw [number]; rfl⟩
      · exact ⟨.deflated, by rw [number]; rfl⟩
    exact ⟨⟨header, method, _⟩, openEntry_eq_ok_iff.2 ⟨plain, noCipher, known, rfl, fields, found, rfl⟩⟩
  · rintro ⟨entry, opened⟩
    obtain ⟨plain, noCipher, known, -, fields, found, -⟩ := openEntry_eq_ok_iff.1 opened
    exact ⟨plain, noCipher, (ofNumber?_eq_some known).imp And.left And.left, fields, found⟩

instance : Decidable (Opens image header) :=
  decidable_of_iff ((openEntry image header).isOk = true) <| by
    rw [opens_iff]
    cases openEntry image header <;> simp [Except.isOk, Except.toBool]

theorem read_eq_ok_iff {entry : OpenEntry} {bytes : List UInt8} :
    entry.read = .ok bytes ↔
      (entry.method = .stored ∧ bytes = entry.data ∨ entry.method = .deflated ∧ inflate entry.data = .ok bytes) ∧
        checksum bytes = entry.header.checksum := by
  obtain ⟨header, method, data⟩ := entry
  have checked (found : List UInt8) :
      (if checksum found ≠ header.checksum then throw .invalidChecksum >>= fun _ : PUnit => pure found
        else pure found : Except ArchiveFault (List UInt8)) = .ok bytes ↔
          bytes = found ∧ checksum bytes = header.checksum := by
    refine Except.refuse_eq_ok_iff.trans ?_
    rw [not_not]
    constructor
    · rintro ⟨sum, e⟩
      cases e
      exact ⟨rfl, sum⟩
    · rintro ⟨rfl, sum⟩
      exact ⟨sum, rfl⟩
  cases method with
  | stored =>
    refine (checked data).trans ?_
    simp
  | deflated =>
    refine Except.bind_eq_ok_iff.trans ?_
    simp only [Except.mapError_eq_ok_iff, checked]
    simp

/-- The entry holds the bytes: they are stored or deflated behind the header before it, and have its checksum. -/
structure Holds (image : Array UInt8) (header : Header) (bytes : List UInt8) : Prop where
  opens : Opens image header
  data : ∃ fields, entryRecord image header = .ok fields ∧
    (header.method = 0 ∧ bytes = dataBehind image header fields ∨
      header.method = 8 ∧ inflate (dataBehind image header fields) = .ok bytes)
  checksum_eq : checksum bytes = header.checksum

theorem holds_iff {bytes : List UInt8} :
    Holds image header bytes ↔ ∃ entry, openEntry image header = .ok entry ∧ entry.read = .ok bytes := by
  constructor
  · rintro ⟨opens, ⟨fields, found, data⟩, sum⟩
    have openedAs (method : Method) (known : Method.ofNumber? header.method = some method) :
        openEntry image header = .ok ⟨header, method, dataBehind image header fields⟩ :=
      openEntry_eq_ok_iff.2 ⟨opens.plain, opens.noCipher, known, rfl, fields, found, rfl⟩
    rcases data with ⟨number, data⟩ | ⟨number, data⟩
    · exact ⟨_, openedAs .stored (by rw [number]; rfl), read_eq_ok_iff.2 ⟨.inl ⟨rfl, data⟩, sum⟩⟩
    · exact ⟨_, openedAs .deflated (by rw [number]; rfl), read_eq_ok_iff.2 ⟨.inr ⟨rfl, data⟩, sum⟩⟩
  · rintro ⟨entry, opened, read⟩
    have opens := opens_iff.2 ⟨entry, opened⟩
    obtain ⟨-, -, known, rfl, fields, found, data⟩ := openEntry_eq_ok_iff.1 opened
    obtain ⟨written, sum⟩ := read_eq_ok_iff.1 read
    refine ⟨opens, ⟨fields, found, ?_⟩, sum⟩
    rw [← data]
    rcases ofNumber?_eq_some known with ⟨number, method⟩ | ⟨number, method⟩
    · exact .inl ⟨number, by simpa [method] using written⟩
    · exact .inr ⟨number, by simpa [method] using written⟩

/-! ### The same entry in two archives -/

theorem getElem?_slice (start length k : Nat) :
    (slice image start length)[k]? = if k < length then image[start + k]? else none := by
  simp only [slice, Array.getElem?_toList, Array.getElem?_extract]
  by_cases inside : k < length
  · by_cases within : start + k < image.size
    · rw [if_pos (by omega), if_pos inside]
    · rw [if_neg (by omega), if_pos inside, Array.getElem?_eq_none (by omega)]
  · rw [if_neg (by omega), if_neg inside]

theorem slice_congr {start start' length : Nat} (same : ∀ k < length, image'[start' + k]? = image[start + k]?) :
    slice image' start' length = slice image start length := by
  apply List.ext_getElem?
  intro k
  rw [getElem?_slice, getElem?_slice]
  by_cases inside : k < length
  · rw [if_pos inside, if_pos inside, same k inside]
  · rw [if_neg inside, if_neg inside]

theorem record_congr {start start' length : Nat} (same : slice image' start' length = slice image start length) :
    record image' start' length = record image start length := by
  rw [record, record, same]

theorem eq_slice_of_record {start length : Nat} {bytes : List UInt8} (h : record image start length = .ok bytes) :
    bytes = slice image start length := by
  rw [record] at h
  split at h
  · cases h
  · exact (Except.ok.inj h).symm

/-- The number of bytes from the header before an entry to the end of its data. -/
def entrySpan (image : Array UInt8) (header : Header) : Nat :=
  30 + fieldAt (slice image header.start 30) 26 2 + fieldAt (slice image header.start 30) 28 2 + header.compressedSize

/-- The entry is the same in both archives, though it may stand at different places: the directories say the same about
it, and the bytes from the header before it to the end of its data are the same. -/
structure SameEntry (image image' : Array UInt8) (header header' : Header) : Prop where
  header_eq : header' = { header with start := header'.start }
  bytes : ∀ k < entrySpan image header, image'[header'.start + k]? = image[header.start + k]?

namespace SameEntry

theorem slice_eq (same : SameEntry image image' header header') (offset length : Nat)
    (inside : offset + length ≤ entrySpan image header) :
    slice image' (header'.start + offset) length = slice image (header.start + offset) length := by
  refine slice_congr fun k less => ?_
  rw [Nat.add_assoc, Nat.add_assoc]
  exact same.bytes _ (by omega)

theorem entryRecord_eq (same : SameEntry image image' header header') :
    entryRecord image' header' = entryRecord image header := by
  have mark : record image' header'.start 4 = record image header.start 4 :=
    record_congr (same.slice_eq 0 4 (by unfold entrySpan; omega))
  have whole : record image' header'.start 30 = record image header.start 30 :=
    record_congr (same.slice_eq 0 30 (by unfold entrySpan; omega))
  rw [entryRecord, entryRecord, markedRecord, markedRecord, show entryMark.length = 4 from rfl, mark, whole]

theorem dataBehind_eq (same : SameEntry image image' header header') {fields : List UInt8}
    (found : entryRecord image header = .ok fields) :
    dataBehind image' header' fields = dataBehind image header fields := by
  have read : fields = slice image header.start 30 := by
    obtain ⟨mark, -, found⟩ := Except.bind_eq_ok_iff.1 found
    obtain ⟨-, found⟩ := Except.refuse_eq_ok_iff.1 found
    exact eq_slice_of_record found
  have size : header'.compressedSize = header.compressedSize := by rw [same.header_eq]
  have data := same.slice_eq (30 + fieldAt fields 26 2 + fieldAt fields 28 2) header.compressedSize
    (by rw [read]; exact Nat.le_refl _)
  simpa only [dataBehind, size, ← Nat.add_assoc] using data

/-- An entry is opened in the same way wherever it stands. -/
theorem openEntry_map (same : SameEntry image image' header header') :
    openEntry image' header' = (fun entry => { entry with header := header' }) <$> openEntry image header := by
  have encrypted : header'.encrypted = header.encrypted := by rw [same.header_eq]
  have method : header'.method = header.method := by rw [same.header_eq]
  have hasCipher : header'.hasCipher = header.hasCipher := by rw [same.header_eq]
  rw [openEntry_eq, openEntry_eq, encrypted, method, hasCipher, same.entryRecord_eq]
  cases header.encrypted with
  | true => rfl
  | false =>
    cases found : entryRecord image header with
    | error fault => rfl
    | ok fields =>
      have data := same.dataBehind_eq found
      cases Method.ofNumber? header.method with
      | none => rfl
      | some known =>
        cases header.hasCipher with
        | true => rfl
        | false => exact congrArg (fun written => Except.ok (OpenEntry.mk header' known written)) data

/-- What is read from an entry does not depend on where it stands. -/
theorem read_eq (same : SameEntry image image' header header') {entry : OpenEntry}
    (opened : openEntry image header = .ok entry) : OpenEntry.read { entry with header := header' } = entry.read := by
  obtain ⟨-, -, -, rfl, -⟩ := openEntry_eq_ok_iff.1 opened
  have checksum : header'.checksum = entry.header.checksum := by rw [same.header_eq]
  simp only [OpenEntry.read, checksum]

end SameEntry

end ClassCensus.Archive
