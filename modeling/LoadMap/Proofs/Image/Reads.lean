import LoadMap.Proofs.Image.Address
import LoadMap.Proofs.Image.Bounds
import LoadMap.Proofs.Image.DelayImport

/-! What is read at an address of an image: the bytes that follow each other in the file, from the one on to which
the first address leads. They are the bytes of the addresses as long as these lie as close together as the bytes. -/
namespace LoadMap.Image

open Bytes (Holds digits bind_eq_ok_iff)

variable {image : Image} {address offset length first second : Nat} {part : List UInt8} {text : String}

/-- Every address in a row leads to its byte in the file. -/
def Maps (image : Image) (address : Nat) (part : List UInt8) : Prop :=
  ∀ index (less : index < part.length), address + index < Word.limit 32 ∧
    ∃ offset ∈ image.offset? (address + index), image.bytes[offset]? = some part[index]

/-- The addresses lead to offsets that follow each other. -/
def InStep (image : Image) (address length : Nat) : Prop :=
  ∀ index < length, address + index < Word.limit 32 ∧
    image.offset? (address + index) = (image.offset? address).map (· + index)

/-- Addresses in the raw data of one section, which no section before it in the table covers; or addresses that lie
before all sections; or one such row behind another, if the two follow each other in the file as well. -/
inductive Row (image : Image) : (address length : Nat) → Prop
  | part {before after : List Section} {part : Section} {address length : Nat}
      (split : image.sections = before ++ part :: after)
      (own : ∀ other ∈ before, ∀ index < length, other.covers (address + index) = false)
      (start : part.virtualAddress ≤ address) (stop : address + length ≤ part.virtualAddress + part.rawSize)
      (words : address + length ≤ Word.limit 32 ∧
        part.rawOffset + (address - part.virtualAddress) + length ≤ Word.limit 32) : Row image address length
  | headers {address length : Nat} (below : ∀ part ∈ image.sections, address + length ≤ part.virtualAddress)
      (inside : address + length ≤ image.bytes.size) (words : address + length ≤ Word.limit 32) :
      Row image address length
  | append {address first second : Nat} (left : Row image address first) (right : Row image (address + first) second)
      (level : image.offset? (address + first) = (image.offset? address).map (· + first)) :
      Row image address (first + second)

section Rows

theorem offset?_of_split {before after : List Section} {part : Section}
    (split : image.sections = before ++ part :: after) (own : ∀ other ∈ before, other.covers address = false)
    (covers : part.covers address) : image.offset? address = part.offset? address := by
  have found : image.sections.find? (·.covers address) = some part := by
    rw [List.find?_eq_some_iff_append]
    exact ⟨covers,before,after,split,fun other member => by rw [own other member]; rfl⟩
  rw [offset?,found]

theorem offset?_below (below : ∀ part ∈ image.sections, address < part.virtualAddress)
    (inside : address < image.bytes.size) : image.offset? address = some address := by
  have none : image.sections.find? (·.covers address) = none := by
    rw [List.find?_eq_none]
    intro part member
    have less := below part member
    simp [Section.covers,less]
  rw [offset?,none]
  exact if_pos ⟨List.all_eq_true.mpr fun part member => decide_eq_true (below part member),inside⟩

theorem offset?_cases (found : image.offset? address = some offset) :
    (∃ before part after, image.sections = before ++ part :: after ∧
      (∀ other ∈ before, other.covers address = false) ∧ part.virtualAddress ≤ address ∧
      address < part.virtualAddress + part.rawSize ∧
      offset = part.rawOffset + (address - part.virtualAddress) ∧ offset < Word.limit 32) ∨
    (∀ part ∈ image.sections, address < part.virtualAddress) ∧ address < image.bytes.size ∧ offset = address := by
  rw [offset?] at found
  cases owner : image.sections.find? (·.covers address) with
  | none =>
    rw [owner] at found
    dsimp only at found
    split at found
    · rename_i outside
      cases found
      exact .inr ⟨fun part member => by simpa using List.all_eq_true.mp outside.1 part member,outside.2,rfl⟩
    · cases found
  | some part =>
    rw [owner] at found
    obtain ⟨covers,before,after,split,own⟩ := List.find?_eq_some_iff_append.mp owner
    simp only [Section.offset?] at found
    split at found
    · rename_i raw
      cases found
      simp only [Section.covers,Bool.and_eq_true,decide_eq_true_eq] at covers
      exact .inl ⟨before,part,after,split,fun other member => by simpa using own other member,covers.1,
        by omega,rfl,raw.2⟩
    · cases found

theorem Row.inStep (row : image.Row address length) : image.InStep address length := by
  induction row with
  | @part before after part address length split own start stop words =>
    intro index less
    have leads (index : Nat) (less : index < length) : image.offset? (address + index) =
        some (part.rawOffset + (address - part.virtualAddress) + index) := by
      rw [offset?_of_split split (fun other member => own other member index less)
        (by simp only [Section.covers,Bool.and_eq_true,decide_eq_true_eq]; omega),Section.offset?]
      have place : part.rawOffset + (address + index - part.virtualAddress) =
        part.rawOffset + (address - part.virtualAddress) + index := by omega
      rw [place,if_pos (by omega)]
    have here := leads 0 (by omega)
    rw [Nat.add_zero] at here
    rw [leads index less,here]
    exact ⟨by omega,rfl⟩
  | headers below inside words =>
    intro index less
    rw [offset?_below (fun part member => by have := below part member; omega) (by omega),
      offset?_below (fun part member => by have := below part member; omega) (by omega)]
    exact ⟨by omega,rfl⟩
  | @append address first second left right level before behind =>
    intro index less
    by_cases early : index < first
    · exact before index early
    · obtain ⟨rest,rfl⟩ := Nat.exists_eq_add_of_le (Nat.le_of_not_lt early)
      have step := behind rest (by omega)
      rw [level,Nat.add_assoc] at step
      simpa [Function.comp_def,Nat.add_assoc] using step

theorem row_of_mapped (word : address < Word.limit 32) (found : image.offset? address = some offset)
    (short : length ≤ 1) : image.Row address length := by
  rcases offset?_cases found with ⟨before,part,after,split,own,start,stop,rfl,small⟩ | ⟨below,inside,-⟩
  · refine .part split (fun other member index less => ?_) start (by omega) (by omega)
    obtain rfl : index = 0 := by omega
    exact own other member
  · exact .headers (fun part member => by have := below part member; omega) (by omega) (by omega)

/-- What leads to offsets in a row lies in a row. -/
theorem InStep.row (word : address < Word.limit 32) (found : image.offset? address = some offset)
    (steps : image.InStep address length) : image.Row address length := by
  -- Each further address is a row by itself, level with those before it.
  induction length with
  | zero => exact row_of_mapped word found (Nat.zero_le 1)
  | succ length ih =>
    have last := steps length (Nat.lt_succ_self _)
    refine .append (ih fun index less => steps index (Nat.lt_succ_of_lt less)) ?_ last.2
    rw [found] at last
    exact row_of_mapped last.1 last.2 (Nat.le_refl 1)

end Rows

theorem HoldsAt.take (holds : image.HoldsAt address part) (count : Nat) : image.HoldsAt address (part.take count) := by
  obtain ⟨word,offset,found,begins,stands⟩ := holds
  exact ⟨word,offset,found,begins,(List.take_prefix count part).trans stands⟩

theorem HoldsAt.row_iff (holds : image.HoldsAt address part) : image.Row address length ↔ image.InStep address length := by
  obtain ⟨word,offset,found,-⟩ := holds
  exact ⟨Row.inStep,fun steps => steps.row word (Option.mem_def.mp found)⟩

theorem HoldsAt.maps (holds : image.HoldsAt address part) (steps : image.InStep address part.length) :
    image.Maps address part := by
  obtain ⟨-,offset,found,stands⟩ := holds
  intro index less
  obtain ⟨small,leads⟩ := steps index less
  rw [Option.mem_def.mp found] at leads
  exact ⟨small,offset + index,leads,stands.getElem? less⟩

/-- Behind the raw data of a section come addresses that are filled with zeros, for which the file has no bytes. -/
theorem offset?_tail {before after : List Section} {part : Section}
    (split : image.sections = before ++ part :: after) (own : ∀ other ∈ before, other.covers address = false)
    (behind : part.virtualAddress + part.rawSize ≤ address)
    (inside : address < part.virtualAddress + part.virtualSize) : image.offset? address = none := by
  have covers : part.covers address := by
    simp only [Section.covers,Bool.and_eq_true,decide_eq_true_eq]
    omega
  rw [offset?_of_split split own covers,Section.offset?]
  exact if_neg (by omega)

section Reads

theorem at_eq_ok_iff {α : Type} {value : α} {read : Nat → Except Fault α} {what : String} :
    (image.offsetOf what address >>= read) = .ok value ↔ ∃ offset ∈ image.offset? address, read offset = .ok value := by
  rw [bind_eq_ok_iff,offsetOf]
  cases image.offset? address with
  | none => simp
  | some offset => simp

variable {count value : Nat} (word : address < Word.limit 32)
include word

theorem numberAt_iff {what : String} : (image.offsetOf what address >>= Bytes.number what count image.bytes) = .ok value ↔
    image.NumberAt address count value := by
  simp only [at_eq_ok_iff,Bytes.number_eq_ok_iff_holds,NumberAt,HoldsAt,word,true_and]
  constructor
  · rintro ⟨offset,found,small,holds⟩
    exact ⟨small,offset,found,holds⟩
  · rintro ⟨small,offset,found,holds⟩
    exact ⟨offset,found,small,holds⟩

theorem cStringAt_eq_ok_iff : image.cStringAt address = .ok text ↔
    ∃ part, 0 ∉ part ∧ image.HoldsAt address (part ++ [0]) ∧ Text.Utf8.decodeLossy part = text := by
  simp only [cStringAt,at_eq_ok_iff,Bytes.cString_eq_ok_iff,HoldsAt,word,true_and]
  constructor
  · rintro ⟨offset,found,part,free,holds,decoded⟩
    exact ⟨part,free,⟨offset,found,holds⟩,decoded⟩
  · rintro ⟨part,free,⟨offset,found,holds⟩,decoded⟩
    exact ⟨offset,found,part,free,holds,decoded⟩

theorem bytesAt_eq_ok_iff {block : ByteArray} : image.bytesAt address length = .ok block ↔
    block.size = length ∧ image.HoldsAt address block.data.toList := by
  simp only [HoldsAt,word,true_and]
  rw [bytesAt,at_eq_ok_iff]
  constructor
  · rintro ⟨offset,found,read⟩
    cases taken : Bytes.block? image.bytes offset (offset + length) with
    | none =>
      rw [taken] at read
      cases read
    | some other =>
      rw [taken] at read
      cases read
      have stands := Bytes.block?_eq_some_iff.mp taken
      exact ⟨stands.1,offset,found,stands.2⟩
  · rintro ⟨size,offset,found,holds⟩
    refine ⟨offset,found,?_⟩
    rw [Bytes.block?_eq_some_iff.mpr ⟨size,holds⟩]
    rfl

end Reads

/-- What is read at an address, and how far this belongs to the addresses from there on. -/
structure ReadsInStep (image : Image) (address : Nat) : Prop where
  block : ∀ length block, image.bytesAt address length = .ok block ↔
    block.size = length ∧ image.HoldsAt address block.data.toList
  four : ∀ value, image.u32At address = .ok value ↔ image.NumberAt address 4 value
  eight : ∀ value, image.u64At address = .ok value ↔ image.NumberAt address 8 value
  string : ∀ text, image.cStringAt address = .ok text ↔
    ∃ part, 0 ∉ part ∧ image.HoldsAt address (part ++ [0]) ∧ Text.Utf8.decodeLossy part = text
  inStep : ∀ part, image.HoldsAt address part → ∀ count ≤ part.length,
    (image.Row address count ↔ image.InStep address count) ∧
      (image.InStep address count → image.Maps address (part.take count))
  beyond : ∀ before own after, image.sections = before ++ own :: after →
    ∀ count, (∀ other ∈ before, other.covers (address + count) = false) →
      own.virtualAddress + own.rawSize ≤ address + count → address + count < own.virtualAddress + own.virtualSize →
      ∀ part, count < part.length → ¬ image.Maps address part

/-- What a read returns stands in the file from the one offset on to which the first address leads. It is what the
addresses hold as far as these lie in a row, and holds too much if the read goes over the raw data of its section. -/
theorem reads_in_step {file : ByteArray} (parsed : parse file = .ok image) (word : address < Word.limit 32) :
    image.bytes = file ∧ image.ReadsInStep address := by
  refine ⟨(headers_of_parse parsed).file,?_⟩
  constructor
  case block => exact fun length block => bytesAt_eq_ok_iff word
  case four => exact fun value => numberAt_iff word
  case eight => exact fun value => numberAt_iff word
  case string => exact fun text => cStringAt_eq_ok_iff word
  case inStep =>
    intro part holds count inside
    have front := holds.take count
    refine ⟨front.row_iff,fun steps => front.maps ?_⟩
    rwa [List.length_take_of_le inside]
  case beyond =>
    intro before own after split count others behind inside part longer maps
    obtain ⟨-,offset,found,-⟩ := maps count longer
    rw [offset?_tail split others behind inside] at found
    cases found

/-- Four bytes of raw data, and behind them addresses that are filled with zeros. -/
def shortSection : Section := { virtualAddress := 0x1000, virtualSize := 0x1000, rawOffset := 0x108, rawSize := 4 }

def behindSection : Section := { virtualAddress := 0x2000, virtualSize := 0x1000, rawOffset := 0x10C, rawSize := 4 }

/-- The raw data of the sections follows the headers, ABCD and EF with two zeros. -/
def levelImage : Image := ofParts false 0x400000 [] [shortSection,behindSection] [65,66,67,68,69,70,0,0]

theorem levelImage_parsed : parse levelImage.bytes = .ok levelImage :=
  parse_ofParts ⟨by decide,by decide,by decide,by decide,by decide⟩ _

theorem reads_in_step_level : levelImage.bytesAt 0x1001 3 = .ok [66,67,68].toByteArray ∧
    levelImage.Maps 0x1001 [66,67,68] ∧ levelImage.cStringAt 0x2000 = .ok "EF" ∧
    levelImage.Maps 0x2000 [69,70,0] := by
  have first := (reads_in_step levelImage_parsed (show 0x1001 < Word.limit 32 by decide)).2
  have second := (reads_in_step levelImage_parsed (show 0x2000 < Word.limit 32 by decide)).2
  have middle : levelImage.HoldsAt 0x1001 [66,67,68] := by decide +kernel
  have closed : levelImage.HoldsAt 0x2000 [69,70,0] := by decide +kernel
  have inner : levelImage.Row 0x1001 3 :=
    @Row.part _ [] [behindSection] shortSection _ _ rfl nofun (by decide) (by decide) (by decide)
  have next : levelImage.Row 0x2000 3 :=
    @Row.part _ [shortSection] [] behindSection _ _ rfl (by decide) (by decide) (by decide) (by decide)
  refine ⟨(first.block 3 _).mpr ⟨rfl,middle⟩,?_,?_,?_⟩
  · have row := first.inStep _ middle 3 (by decide)
    exact row.2 (row.1.mp inner)
  · exact (second.string "EF").mpr ⟨[69,70],by decide,closed,by decide +kernel⟩
  · have row := second.inStep _ closed 3 (by decide)
    exact row.2 (row.1.mp next)

/-- A read goes over the raw data of its section, on to what follows in the file. -/
theorem read_over_section : ¬ ∀ file image, parse file = .ok image → ∀ address < Word.limit 32, ∀ length block,
    image.bytesAt address length = .ok block → block.size = length ∧ image.Maps address block.data.toList := by
  intro all
  have read : levelImage.bytesAt 0x1000 6 = .ok [65,66,67,68,69,70].toByteArray := by decide +kernel
  obtain ⟨-,maps⟩ := all _ _ levelImage_parsed 0x1000 (by decide) 6 _ read
  obtain ⟨-,offset,found,-⟩ := maps 4 (by decide)
  have tail : levelImage.offset? 0x1004 = none :=
    @offset?_tail _ _ [] [behindSection] shortSection rfl nofun (by decide) (by decide)
  rw [tail] at found
  cases found

end LoadMap.Image
