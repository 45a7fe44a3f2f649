import LoadMap.Binary
import LoadMap.Proofs.Bytes.Padding

/-! The section table of an image with zeros behind the file. What it says is the same, and what the sections hold is
the same too, as long as they lie inside the file. -/
namespace LoadMap.Image.SectionView

open LoadMap.Bytes

variable {short long : ByteArray}

/-- The same view of a longer file. -/
def within (long : ByteArray) (view : SectionView) : SectionView := { view with bytes := long }

section Headers

variable (padded : Padded short long)
include padded

theorem sectionAt_padded (table index : Nat) :
    Persists Eq (sectionAt short table index) (sectionAt long table index) := by
  rw [sectionAt,sectionAt]
  cases found : block? short (table + 40 * index) (table + 40 * index + 40) with
  | none => exact persists_error _
  | some entry =>
    rw [padded.block? found]
    exact persists_self _

theorem directoriesAt_padded (place count : Nat) :
    Persists Eq (directoriesAt short place count) (directoriesAt long place count) := by
  rw [directoriesAt,directoriesAt]
  cases found : block? short place (place + 8 * count) with
  | none => exact persists_error _
  | some block =>
    rw [padded.block? found]
    exact persists_self _

theorem parse_padded :
    Persists (fun view other => view.bytes = short ∧ other = view.within long) (parse short) (parse long) := by
  have longer := padded.size_le
  rw [parse,parse,padded.littleEndian]
  refine persists_unless (fun stop => by omega) fun _ => ?_
  refine persists_if (fun begins => by rwa [padded.startsWith (by decide)]) fun _ => ?_
  refine persists_if id fun _ => ?_
  dsimp only
  cases found : block? short (littleEndian short 0x3C 4) (littleEndian short 0x3C 4 + longestHeaders) with
  | none => exact persists_error _
  | some header =>
    rw [padded.block? found]
    dsimp only
    refine persists_if id fun _ => ?_
    split
    · exact persists_error _
    · rename_i fields _
      cases read : block? short (littleEndian short 0x3C 4 + 24) (littleEndian short 0x3C 4 + 24 + fields) with
      | none => exact persists_error _
      | some options =>
        rw [padded.block? read]
        dsimp only
        refine persists_unless id fun _ => persists_unless (fun stop => by omega) fun _ => ?_
        refine persists_unless id fun _ => (directoriesAt_padded padded _ _).next fun directories => ?_
        refine persists_unless (fun stop => by omega) fun _ => ?_
        exact (persists_mapM_same fun index _ => sectionAt_padded padded _ index).next fun sections =>
          persists_ok ⟨rfl,rfl⟩

end Headers

/-- Every section has its raw data inside the file. -/
def Whole (view : SectionView) : Prop := ∀ part ∈ view.sections, part.rawOffset + part.rawSize ≤ view.bytes.size

section Sections

variable {view : SectionView} (padded : Padded view.bytes long) (whole : view.Whole)
include padded whole

theorem tail?_within (address length alignment : Nat) :
    (view.within long).tail? address length alignment = view.tail? address length alignment := by
  rw [tail?,tail?]
  have same : (view.within long).sections = view.sections := rfl
  rw [same]
  split
  · rfl
  · cases found : view.sections.find? (·.covers address) with
    | none => rfl
    | some part =>
      dsimp only
      have inside := whole part (List.mem_of_find?_eq_some found)
      have block : Bytes.block? (view.within long).bytes = Bytes.block? long := rfl
      rw [block,padded.block?_eq inside]

theorem table?_within (address width count : Nat) :
    (view.within long).table? address width count = view.table? address width count := by
  rw [table?,table?,tail?_within padded whole]

theorem cString?_within (address : Nat) : (view.within long).cString? address = view.cString? address := by
  rw [cString?,cString?,tail?_within padded whole]

theorem sectionBytes_within {part : Section} (member : part ∈ view.sections) :
    (view.within long).sectionBytes part = view.sectionBytes part := by
  rw [sectionBytes,sectionBytes]
  have block : Bytes.block? (view.within long).bytes = Bytes.block? long := rfl
  rw [block,padded.block?_eq (whole part member)]

theorem contents_within : ExportTable.contents (view.within long) = ExportTable.contents view := by
  rw [ExportTable.contents,ExportTable.contents]
  simp only [tail?_within padded whole,cString?_within padded whole,table?_within padded whole]
  rfl

theorem readNames_within (contents : ExportTable.Contents) :
    ExportTable.readNames (view.within long) contents = ExportTable.readNames view contents := by
  rw [ExportTable.readNames,ExportTable.readNames]
  simp only [cString?_within padded whole]

theorem symbolOf_within (contents : ExportTable.Contents) (names : List (Nat × String)) (index address : Nat) :
    ExportTable.symbolOf (view.within long) contents names index address =
      ExportTable.symbolOf view contents names index address := by
  rw [ExportTable.symbolOf,ExportTable.symbolOf,ExportTable.forwarder,ExportTable.forwarder,
    cString?_within padded whole]

/-- What a module exports is read inside its sections. -/
theorem exports_within : ExportTable.read (view.within long) = ExportTable.read view := by
  rw [ExportTable.read,ExportTable.read,contents_within padded whole]
  simp only [readNames_within padded whole,symbolOf_within padded whole]

/-- And so is its manifest. -/
theorem manifest?_within : Resource.manifest? (view.within long) = Resource.manifest? view := by
  rw [Resource.manifest?,Resource.manifest?]
  simp only [tail?_within padded whole]
  rfl

end Sections
end LoadMap.Image.SectionView
