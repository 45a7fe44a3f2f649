import LoadMap.Image.DelayImport
import LoadMap.Proofs.Bytes.Padding

/-! Images with zeros behind the file. -/
namespace LoadMap.Image

open LoadMap.Bytes

variable {short long : ByteArray}

/-- The same image in a longer file. -/
def within (long : ByteArray) (image : Image) : Image := { image with bytes := long }

section Headers

variable (padded : Padded short long)
include padded

theorem optionalHeader_padded (header : Nat) :
    Persists Eq (optionalHeader short header) (optionalHeader long header) := by
  rw [optionalHeader,optionalHeader]
  refine (padded.number _ _ _).next fun magic => ?_
  split
  · refine (persists_self _).next fun place => (padded.number _ _ _).next fun base => ?_
    exact (persists_self _).next fun countOffset => persists_self _
  · refine (persists_self _).next fun place => (padded.number _ _ _).next fun base => ?_
    exact (persists_self _).next fun countOffset => persists_self _
  · exact persists_self _

theorem directoryAt_padded (table index : Nat) :
    Persists Eq (directoryAt short table index) (directoryAt long table index) := by
  rw [directoryAt,directoryAt]
  refine (persists_self _).next fun entry => (padded.number _ _ _).next fun address => ?_
  exact (persists_self _).next fun place => (padded.number _ _ _).next fun size => persists_self _

theorem sectionAt_padded (table index : Nat) :
    Persists Eq (sectionAt short table index) (sectionAt long table index) := by
  rw [sectionAt,sectionAt]
  refine (persists_self _).next fun header => ?_
  refine (persists_self _).next fun place => (padded.number _ _ _).next fun virtualSize => ?_
  refine (persists_self _).next fun place => (padded.number _ _ _).next fun virtualAddress => ?_
  refine (persists_self _).next fun place => (padded.number _ _ _).next fun rawSize => ?_
  exact (persists_self _).next fun place => (padded.number _ _ _).next fun rawOffset => persists_self _

theorem parse_padded :
    Persists (fun image other => image.bytes = short ∧ other = image.within long) (parse short) (parse long) := by
  rw [parse,parse]
  refine persists_if (fun begins => by rwa [padded.startsWith (by decide)]) fun _ => ?_
  refine (padded.number _ _ _).next fun start => (persists_self _).next fun fileHeader => ?_
  refine persists_if (fun signed => ?_) fun _ => ?_
  · obtain ⟨mark,found,same⟩ := (Option.any_eq_true _ _).mp signed
    exact (Option.any_eq_true _ _).mpr ⟨mark,padded.block? found,same⟩
  refine (persists_self _).next fun place => (padded.number _ _ _).next fun sectionCount => ?_
  refine (persists_self _).next fun place => (padded.number _ _ _).next fun headerSize => ?_
  refine (persists_self _).next fun header => (optionalHeader_padded padded header).next fun parts => ?_
  obtain ⟨is64,base,countOffset⟩ := parts
  refine (padded.number _ _ _).next fun count => (persists_self _).next fun table => ?_
  refine (persists_mapM_same fun index _ => directoryAt_padded padded table index).next fun directories => ?_
  refine (persists_self _).next fun sectionTable => ?_
  refine (persists_mapM_same fun index _ => sectionAt_padded padded sectionTable index).next fun sections => ?_
  exact persists_ok ⟨rfl,rfl⟩

end Headers

section Addresses

variable {image : Image} (padded : Padded image.bytes long)
include padded

theorem offset?_padded {address place : Nat} (found : image.offset? address = some place) :
    (image.within long).offset? address = some place := by
  rw [offset?] at found ⊢
  have same : (image.within long).sections = image.sections := rfl
  rw [same]
  split at found
  · exact found
  · split at found
    · rename_i inside
      rw [if_pos ⟨inside.1,Nat.lt_of_lt_of_le inside.2 padded.size_le⟩]
      exact found
    · cases found

/-- What lies before all sections goes on behind the end of the file, where nothing was found before. -/
theorem offsetOf_padded (what : String) (address : Nat) :
    Persists Eq (image.offsetOf what address) ((image.within long).offsetOf what address) := by
  rw [persists_eq_iff]
  intro offset found
  rw [offsetOf] at found ⊢
  cases here : image.offset? address with
  | none =>
    rw [here] at found
    cases found
  | some place =>
    rw [here] at found
    rw [offset?_padded padded here]
    exact found

theorem u32At_padded (address : Nat) : Persists Eq (image.u32At address) ((image.within long).u32At address) :=
  (offsetOf_padded padded _ address).next fun _ => padded.number _ _ _

theorem u64At_padded (address : Nat) : Persists Eq (image.u64At address) ((image.within long).u64At address) :=
  (offsetOf_padded padded _ address).next fun _ => padded.number _ _ _

theorem cStringAt_padded (address : Nat) :
    Persists Eq (image.cStringAt address) ((image.within long).cStringAt address) :=
  (offsetOf_padded padded _ address).next fun _ => padded.cString _

theorem thunkValue_padded (address : Nat) :
    Persists Eq (image.thunkValue address) ((image.within long).thunkValue address) := by
  rw [thunkValue,thunkValue]
  have same : (image.within long).is64 = image.is64 := rfl
  rw [same]
  split
  · exact u64At_padded padded address
  · exact u32At_padded padded address

theorem thunkAt_padded (table index : Nat) :
    Persists Eq (image.thunkAt table index) ((image.within long).thunkAt table index) := by
  rw [thunkAt,thunkAt]
  refine (persists_self _).next fun place => (thunkValue_padded padded place).next fun thunk => ?_
  have same : (image.within long).ordinalFlag = image.ordinalFlag := rfl
  rw [same]
  split
  · exact persists_self _
  · split
    · exact persists_self _
    · exact (persists_self _).next fun place => (cStringAt_padded padded place).next fun name => persists_self _

theorem thunks_padded (table : Nat) : Persists Eq (image.thunks table) ((image.within long).thunks table) :=
  persists_collect (fun index => thunkAt_padded padded table index) (Nat.le_refl _) (.inl rfl)

theorem delayDescriptorAt_padded (table index : Nat) :
    Persists Eq (image.delayDescriptorAt table index) ((image.within long).delayDescriptorAt table index) := by
  rw [delayDescriptorAt,delayDescriptorAt]
  refine (persists_self _).next fun entry => (u32At_padded padded _).next fun attributes => ?_
  refine (persists_self _).next fun place => (u32At_padded padded place).next fun nameField => ?_
  split
  · exact persists_self _
  · refine (persists_self _).next fun place => (u32At_padded padded place).next fun tableField => ?_
    refine (cStringAt_padded padded _).next fun dll => ?_
    dsimp only
    split
    · exact persists_self _
    · exact (thunks_padded padded _).next fun functions => persists_self _

theorem delayImports_padded : Persists Eq image.delayImports (image.within long).delayImports := by
  rw [delayImports,delayImports]
  have same : (image.within long).directory? delayImportDirectory = image.directory? delayImportDirectory := rfl
  rw [same]
  split
  · exact persists_self _
  · exact persists_collect (fun index => delayDescriptorAt_padded padded _ index) (Nat.le_refl _) (.inl rfl)

end Addresses
end LoadMap.Image
