import LoadMap.FileSystem
import LoadMap.Proofs.Failure
import LoadMap.Proofs.Image.Mapped
import LoadMap.Proofs.Image.Padding
import LoadMap.Proofs.Image.Sections

/-! A binary read from a file, and from the same file as it is mapped, with zeros behind it. -/
namespace LoadMap

open LoadMap.Bytes LoadMap.Image

variable {short long : ByteArray} {path : Path}

/-- The sections of an image that can be read have their raw data inside the file. -/
def Image.WholeFile (content : ByteArray) : Prop := ∀ view, SectionView.parse content = .ok view → view.Whole

theorem persists_ofFault {α β : Type} {related : α → β → Prop} {one : Except Fault α} {other : Except Fault β}
    (persists : Persists related one other) : Persists related (Result.ofFault one) (Result.ofFault other) := by
  intro value made
  cases outcome : one with
  | error fault =>
    rw [outcome] at made
    cases made
  | ok given =>
    rw [outcome] at made
    obtain rfl := Except.ok.inj made
    obtain ⟨last,again,same⟩ := persists given outcome
    rw [again]
    exact ⟨last,rfl,same⟩

theorem ApiSetMap.ofImage?_padded (padded : Padded short long) (whole : WholeFile short) :
    Persists Eq (ApiSetMap.ofImage? short) (ApiSetMap.ofImage? long) := by
  rw [ApiSetMap.ofImage?,ApiSetMap.ofImage?]
  refine ((SectionView.parse_padded padded).withOk whole).bind fun view _ ⟨⟨same,longer⟩,inside⟩ => ?_
  subst longer same
  have found : (view.within long).section? ".apiset" = view.section? ".apiset" := rfl
  rw [found]
  cases named : view.section? ".apiset" with
  | none => exact persists_self _
  | some part =>
    dsimp only
    rw [SectionView.sectionBytes_within padded inside (List.mem_of_find?_eq_some named)]
    exact persists_self _

namespace Binary

theorem schemaOf_padded {one other : LoaderView} (padded : Padded short long) (whole : WholeFile short)
    (longer : one.Longer short long other) : Persists Eq (schemaOf one) (schemaOf other) := by
  rw [schemaOf,schemaOf,longer.bytes,longer.file,LoaderView.any_alike longer.sections]
  split
  · exact ApiSetMap.ofImage?_padded padded whole
  · exact persists_self _

/-- What can be read of a whole file is read of the longer one, and it is the same. -/
theorem ofBytes_padded (padded : Padded short long) (whole : WholeFile short) :
    Persists Eq (ofBytes path short) (ofBytes path long) := by
  rw [ofBytes,ofBytes,padded.startsWith (by decide)]
  split
  · refine (LoaderView.parse_padded padded).bind fun one other alike => ?_
    cases alike with
    | otherFormat => exact persists_self _
    | @view one other longer =>
      dsimp only
      refine (ImportTable.read_padded padded longer).next fun table => ?_
      refine (ImportTable.checkRuntime_padded padded longer).next fun _ => ?_
      refine (ImportTable.checkResources_padded padded longer).next fun _ => ?_
      refine (persists_ofFault (Image.parse_padded padded)).bind fun image _ ⟨same,again⟩ => ?_
      subst again same
      refine ((SectionView.parse_padded padded).withOk whole).bind fun view _ ⟨⟨same,again⟩,inside⟩ => ?_
      subst again
      have wide : Padded view.bytes long := same ▸ padded
      refine (persists_ofFault (Image.delayImports_padded padded)).next fun delayed => ?_
      have exported : exportsOf (view.within long) = exportsOf view := by
        rw [exportsOf,exportsOf,SectionView.exports_within wide inside]
      rw [exported,SectionView.manifest?_within wide inside]
      exact (schemaOf_padded padded whole longer).next fun schema => persists_self _
  · exact persists_self _

/-- The path is told, but not read. -/
theorem ofBytes_path (path other : Path) (content : ByteArray) :
    ofBytes path content = (fun binary => { binary with path }) <$> ofBytes other content := by
  rw [ofBytes,ofBytes]
  split
  · rw [map_bind]
    refine bind_congr fun outcome => ?_
    cases outcome with
    | otherFormat => rfl
    | view loader => simp only [map_bind,map_pure]
  · rfl

theorem path_of_ofBytes {content : ByteArray} {binary : Binary} (read : ofBytes path content = .ok binary) :
    binary.path = path := by
  rw [ofBytes_path path path] at read
  cases outcome : ofBytes path content with
  | error failure =>
    rw [outcome] at read
    cases read
  | ok other =>
    rw [outcome] at read
    cases read
    rfl

theorem ofBytes_empty {content : ByteArray} (empty : content.size = 0) : ofBytes path content = .ok { path } := by
  have nothing : ¬ startsWith content dosSignature = true := by
    rw [startsWith_iff,List.eq_nil_of_length_eq_zero ((length_toList content).trans empty),List.prefix_nil]
    decide
  rw [ofBytes,if_neg nothing]
  rfl

/-- A file that reads the same when it is mapped, or fails in the same way. -/
def ReadsAlike (content : ByteArray) : Prop :=
  content.size ≠ 0 ∧ ∀ path,
    (ofBytes path content).Both Failure.Alike Eq (ofBytes path (padTo FileSystem.pageSize content))

/-- It is enough to look at one path. -/
theorem readsAlike_iff {content : ByteArray} (path : Path) : ReadsAlike content ↔ content.size ≠ 0 ∧
    (ofBytes path content).Both Failure.Alike Eq (ofBytes path (padTo FileSystem.pageSize content)) := by
  refine and_congr_right fun _ => ⟨fun reads => reads path,fun reads other => ?_⟩
  rw [ofBytes_path other path,ofBytes_path other path]
  exact reads.map fun _ _ same => congrArg ({ · with path := other }) same

end Binary

/-- The mark of an image stands where it should, the bytes behind the end of the file being zero. -/
def Image.Signed (content : ByteArray) : Prop := littleEndian content (littleEndian content 0x3C 4) 4 = 0x4550

/-- An image that does not fill its last page, and that cannot be read or has a section which goes on behind its end:
the zeros behind it may make a difference. -/
structure Image.Ragged (content : ByteArray) : Prop where
  begins : startsWith content dosSignature = true
  signed : Signed content
  broken : content.size % FileSystem.pageSize ≠ 0
  cut : WholeFile content → ∀ binary, Binary.ofBytes ⟨""⟩ content ≠ .ok binary

theorem padTo_whole {unit : Nat} {content : ByteArray} (whole : content.size % unit = 0) :
    padTo unit content = content := by
  apply (padded_padTo unit content).eq_of_size
  rw [padTo,whole,Nat.sub_zero,Nat.mod_self]
  simp

theorem Image.signed_of_block? {content part : ByteArray} {start : Nat}
    (found : block? content start (start + 4) = some part) (mark : part.toList = signature) :
    littleEndian content start 4 = 0x4550 := by
  have holds : Holds content start (digits 4 0x4550) := by
    have written : digits 4 0x4550 = signature := by decide
    rw [block?] at found
    split at found
    · rename_i inside
      cases found
      refine ⟨inside.1.trans inside.2,?_⟩
      rw [written,← mark,toList_eq,ByteArray.data_extract,Array.toList_extract,List.extract_eq_take_drop]
      exact List.take_prefix _ _
    · cases found
  exact holds.littleEndian (by decide)

theorem LoaderView.parse_unsigned {content : ByteArray} (unsigned : ¬ Signed content) :
    ∃ text, LoaderView.parse content = .error (.tables text) := by
  rw [LoaderView.parse]
  split
  · exact ⟨_,rfl⟩
  · cases start : Bytes.u32 content 0x3C with
    | error fault => exact ⟨fault.message,rfl⟩
    | ok start =>
      obtain ⟨-,rfl⟩ := number_eq_ok_iff.mp start
      have missing : (block? content (littleEndian content 0x3C 4) (littleEndian content 0x3C 4 + 4)).any
          (·.toList == signature) = false := by
        rw [Bool.eq_false_iff]
        intro marked
        obtain ⟨part,found,mark⟩ := (Option.any_eq_true _ _).mp marked
        exact unsigned (signed_of_block? found (beq_iff_eq.mp mark))
      rw [signature] at missing
      refine ⟨"no signature",?_⟩
      simp only [LoaderView.checked,bind,Except.bind,missing]
      rfl

theorem Binary.readsAlike_of_whole {content : ByteArray} (filled : content.size ≠ 0)
    (whole : ¬ Ragged content) : ReadsAlike content := by
  have padded := padded_padTo FileSystem.pageSize content
  refine ⟨filled,fun path => ?_⟩
  by_cases begins : startsWith content dosSignature = true
  · by_cases signed : Signed content
    · by_cases broken : content.size % FileSystem.pageSize = 0
      · rw [padTo_whole broken]
        exact .self .refl (fun _ => rfl) _
      · obtain ⟨inside,binary,read⟩ : WholeFile content ∧ ∃ binary, ofBytes ⟨""⟩ content = .ok binary := by
          by_contra cut
          exact whole ⟨begins,signed,broken,fun inside binary read => cut ⟨inside,binary,read⟩⟩
        have here := ofBytes_path path ⟨""⟩ content
        rw [read] at here
        rw [here,(ofBytes_padded padded inside).eq_ok here]
        exact .ok rfl
    · have zeros : ¬ Signed (padTo FileSystem.pageSize content) := by
        rwa [Signed,padded.littleEndian,padded.littleEndian]
      obtain ⟨here,read⟩ := LoaderView.parse_unsigned signed
      obtain ⟨there,mapped⟩ := LoaderView.parse_unsigned zeros
      rw [ofBytes,ofBytes,padded.startsWith (by decide),if_pos begins,if_pos begins,read,mapped]
      exact .error ⟨rfl,rfl,rfl⟩
  · rw [ofBytes,ofBytes,padded.startsWith (by decide),if_neg begins,if_neg begins]
    exact .ok rfl

end LoadMap
