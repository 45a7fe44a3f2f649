import LoadMap.Proofs.ApiSet.Bounds
import LoadMap.Proofs.Image.Bounds
import LoadMap.Proofs.Metadata.Bounds
import LoadMap.Proofs.Metadata.References

/-! The readers of binary files keep to their bounds, whatever bytes they are given. Their loops run over lists
and counts, so each of them ends. -/
namespace LoadMap

open Bytes (InRange Addressable digits)

variable {path : Path} {bytes : ByteArray}

/-- What the reading of a managed image can fail with. -/
def ManagedReferences.Refusal (path : Path) (failure : Failure) : Prop :=
  failure = .notManaged path.text ∨ ∃ fault, failure = .malformedImage fault ∧ fault ≠ .offsetOverflow

theorem ManagedReferences.ofImage_refusal (path : Path) (bytes : ByteArray) :
    FailsOnly (Refusal path) (ofImage path bytes) := by
  rw [ofImage]
  cases parsed : Image.parse bytes with
  | error fault => exact failsOnly_error (.inl rfl)
  | ok image =>
    dsimp only
    cases found : image.metadata? with
    | error fault => exact failsOnly_error (.inr ⟨fault,rfl,Image.metadata?_inRange image fault found⟩)
    | ok root? =>
      cases root? with
      | none => exact failsOnly_error (.inl rfl)
      | some root =>
        have small := (Image.metadata?_ok found).1
        have inRange := Metadata.references_inRange (Bytes.addressable_of_small (small.trans (by decide)))
        dsimp only
        cases read : Metadata.references root with
        | error fault => exact failsOnly_error (.inr ⟨fault,rfl,inRange fault read⟩)
        | ok references => exact failsOnly_ok references

/-- A file is not managed when it has no headers that can be read or no runtime header. -/
theorem ManagedReferences.ofImage_notManaged_iff (path : Path) (bytes : ByteArray) :
    ofImage path bytes = .error (.notManaged path.text) ↔ (∃ fault, Image.parse bytes = .error fault) ∨
      ∃ image, Image.parse bytes = .ok image ∧ image.metadata? = .ok none := by
  rw [ofImage]
  cases parsed : Image.parse bytes with
  | error fault => simp
  | ok image =>
    dsimp only
    cases found : image.metadata? with
    | error fault => simp [found]
    | ok root? =>
      cases root? with
      | none => simp [found]
      | some root => cases read : Metadata.references root <;> simp [found,read,Result.ofFault]

/-- The readers of binary files on some bytes. A number is read inside the file, and a string up to a zero inside
it; no offset is too large for its word and no index outside its array; what is refused is refused for one of
the known reasons; and a table that is read is read whole. -/
structure ReadersInBounds (path : Path) (bytes : ByteArray) : Prop where
  numbers : ∀ what count offset value, Bytes.number what count bytes offset = .ok value →
    offset + count ≤ bytes.size ∧ value < 256 ^ count
  strings : ∀ offset stop, Bytes.zero? bytes offset = some stop → offset ≤ stop ∧ stop < bytes.size
  headers : InRange (Image.parse bytes)
  images : ∀ image, Image.parse bytes = .ok image → image.Headers bytes ∧ image.InBounds
  metadata : Metadata.InBounds bytes
  managed : FailsOnly (ManagedReferences.Refusal path) (ManagedReferences.ofImage path bytes)
  notManaged : ManagedReferences.ofImage path bytes = .error (.notManaged path.text) ↔
    (∃ fault, Image.parse bytes = .error fault) ∨
      ∃ image, Image.parse bytes = .ok image ∧ image.metadata? = .ok none
  schema : ApiSet.InBounds bytes

theorem readers_in_bounds (path : Path) (bytes : ByteArray) : ReadersInBounds path bytes where
  numbers := fun _ _ _ _ => Bytes.number_bounds
  strings := fun _ _ found => ⟨(Bytes.zero?_bounds found).1,(Bytes.zero?_bounds found).2.1⟩
  headers := Image.parse_inRange bytes
  images := fun image parsed => ⟨Image.headers_of_parse parsed,image.inBounds⟩
  metadata := Metadata.inBounds bytes
  managed := ManagedReferences.ofImage_refusal path bytes
  notManaged := ManagedReferences.ofImage_notManaged_iff path bytes
  schema := ApiSet.inBounds bytes

/-- A 32-bit image without sections. Its table of delay imports has one descriptor, whose functions are looked for at
the given address; at 368 stands a table of one function that is named by a number. -/
def imageWithFunctions (address : Nat) : ByteArray :=
  let zeros := fun count => List.replicate count (0 : UInt8)
  let words := fun numbers : List Nat => numbers.flatMap (digits 4)
  ⟨(Image.dosSignature ++ zeros 58 ++ words [64] ++ Image.signature ++ zeros 20 ++ digits 2 0x10B ++ zeros 90 ++
    words [15] ++ zeros 104 ++ words [304,64,0,0] ++ words [1,376,0,0,address,0,0,0] ++ zeros 32 ++
    words [0x80000005,0] ++ Text.Utf8.encode "a.dll" ++ [0]).toArray⟩

def delayImage : ByteArray := imageWithFunctions 368

/-- An image whose functions would lie behind the end of the file. -/
def cutImage : ByteArray := imageWithFunctions 380

theorem parsed_of_seen {α : Type} {view : Image → α} {value : α}
    (seen : (Image.parse bytes).toOption.map view = some value) :
    ∃ image, Image.parse bytes = .ok image ∧ view image = value := by
  cases parsed : Image.parse bytes with
  | error fault =>
    rw [parsed] at seen
    cases seen
  | ok image =>
    rw [parsed] at seen
    exact ⟨image,rfl,Option.some.inj seen⟩

theorem readers_in_bounds_delay :
    (∃ image, Image.parse delayImage = .ok image ∧ image.InBounds ∧
      image.delayImports = .ok [{ dll := "a.dll", delay := true, functions := [⟨none,some 5⟩] }]) ∧
    ManagedReferences.ofImage ⟨"a.dll"⟩ delayImage = .error (.notManaged "a.dll") ∧
    (∃ image, Image.parse cutImage = .ok image ∧ image.InBounds ∧
      image.delayImports = .error (.outOfBounds "u32" 380)) ∧
    Addressable Metadata.wideBytes ∧ InRange (Metadata.references Metadata.wideBytes) := by
  have bounds := readers_in_bounds ⟨"a.dll"⟩ delayImage
  have cutBounds := readers_in_bounds ⟨"a.dll"⟩ cutImage
  have addressable : Addressable Metadata.wideBytes := Bytes.addressable_of_small (by decide +kernel)
  have offsets := (readers_in_bounds ⟨"wide"⟩ Metadata.wideBytes).metadata.offsets addressable
  have seen : (Image.parse delayImage).toOption.map (fun image => (image.delayImports,image.metadata?)) =
      some (.ok [{ dll := "a.dll", delay := true, functions := [⟨none,some 5⟩] }],.ok none) := by decide +kernel
  have cutSeen : (Image.parse cutImage).toOption.map (·.delayImports) = some (.error (.outOfBounds "u32" 380)) := by
    decide +kernel
  obtain ⟨image,parsed,same⟩ := parsed_of_seen seen
  obtain ⟨imports,native⟩ := Prod.mk.inj same
  obtain ⟨cut,cutParsed,refused⟩ := parsed_of_seen cutSeen
  exact ⟨⟨image,parsed,(bounds.images image parsed).2,imports⟩,
    bounds.notManaged.mpr (.inr ⟨image,parsed,native⟩),
    ⟨cut,cutParsed,(cutBounds.images cut cutParsed).2,refused⟩,addressable,offsets⟩

end LoadMap
