import LoadMap.Image.Address
import LoadMap.Proofs.Image.Headers
import Mathlib.Data.List.Find

/-! Which section an address belongs to. A section owns the addresses that its header gives it, save those that the
raw data of a section before it in the table runs over. -/
namespace LoadMap.Image

namespace Section

/-- The address is one of those that the header gives to the section. -/
def Spans (part : Section) (address : Nat) : Prop :=
  part.virtualAddress ≤ address ∧ address < part.virtualAddress + part.virtualSize

/-- The section has more raw data than addresses, and at the end of the addresses the data runs over this one. -/
def overruns (part : Section) (address : Nat) : Bool :=
  part.virtualAddress + part.virtualSize ≤ address && address < part.virtualAddress + part.rawSize

def Apart (left right : Section) : Prop := ∀ address, left.Spans address → ¬ right.Spans address

variable {part other : Section} {address delta : Nat}

theorem covers_iff : part.covers address ↔ part.Spans address ∨ part.overruns address := by
  simp only [covers,Spans,overruns,Bool.and_eq_true,decide_eq_true_eq]
  omega

theorem Apart.covers_eq (apart : part.Apart other) (spans : other.Spans address) :
    part.covers address = part.overruns address := by
  have free : ¬ part.Spans address := fun there => apart address there spans
  rw [Bool.eq_iff_iff,covers_iff,or_iff_right free]

theorem offset?_inside (raw : delta < part.rawSize) (word : part.rawOffset + delta < Word.limit 32) :
    part.offset? (part.virtualAddress + delta) = some (part.rawOffset + delta) := by
  rw [offset?,Nat.add_sub_cancel_left,if_pos ⟨raw,word⟩]

theorem offset?_overrun (hidden : part.overruns address) : part.offset? address =
    let place := part.rawOffset + (address - part.virtualAddress)
    if place < Word.limit 32 then some place else none := by
  rw [overruns,Bool.and_eq_true,decide_eq_true_eq,decide_eq_true_eq] at hidden
  have inside : address - part.virtualAddress < part.rawSize := by omega
  simp only [offset?,inside,true_and]

end Section

open Section (Apart Spans)

variable {image : Image} {before after : List Section} {part : Section} {address delta : Nat}

/-- Of the sections before the owner of an address only those count whose raw data runs over it. -/
theorem find?_covers (apart : (before ++ part :: after).Pairwise Apart) (spans : part.Spans address) :
    (before ++ part :: after).find? (·.covers address) =
      (before.find? (·.overruns address)).or (some part) := by
  have owner : part.covers address := Section.covers_iff.mpr (.inl spans)
  have others : before.find? (·.covers address) = before.find? (·.overruns address) := by
    refine List.find?_congr fun other member => ?_
    have free := (List.pairwise_append.mp apart).2.2 other member part List.mem_cons_self
    exact free.covers_eq spans
  simp only [List.find?_append,others,List.find?_cons,owner]

/-- An address that is given to one section, and that has raw data there, leads to this data; unless the raw data of
a section before it runs over the address, in which case it leads to the data of the first such section. -/
theorem offset?_of_owner (split : image.sections = before ++ part :: after) (apart : image.sections.Pairwise Apart)
    (virtual : delta < part.virtualSize) (raw : delta < part.rawSize)
    (word : part.rawOffset + delta < Word.limit 32) :
    image.offset? (part.virtualAddress + delta) =
      match before.find? (·.overruns (part.virtualAddress + delta)) with
      | none => some (part.rawOffset + delta)
      | some other =>
        let place := other.rawOffset + (part.virtualAddress + delta - other.virtualAddress)
        if place < Word.limit 32 then some place else none := by
  have spans : part.Spans (part.virtualAddress + delta) := ⟨Nat.le_add_right _ _,Nat.add_lt_add_left virtual _⟩
  rw [split] at apart
  rw [offset?,split,find?_covers apart spans]
  cases first : before.find? (·.overruns (part.virtualAddress + delta)) with
  | none => exact Section.offset?_inside raw word
  | some other =>
    have hidden := List.find?_some first
    exact Section.offset?_overrun hidden

/-- Sixteen addresses, and raw data for many more: up to the middle of the next section. -/
def longSection : Section := { virtualAddress := 0x1000, virtualSize := 0x10, rawOffset := 0x200, rawSize := 0x1080 }

def nextSection : Section := { virtualAddress := 0x2000, virtualSize := 0x100, rawOffset := 0x1280, rawSize := 0x100 }

def overrunImage : Image := ofParts false 0x400000 [] [longSection,nextSection] (zeros 0x1248)

theorem overrunImage_parsed : parse overrunImage.bytes = .ok overrunImage :=
  parse_ofParts ⟨by decide,by decide,by decide,by decide,by decide⟩ _

theorem overrunImage_apart : overrunImage.sections.Pairwise Apart := by
  refine .cons ?_ (.cons nofun .nil)
  rintro other listed address ⟨-,short⟩ ⟨long,-⟩
  obtain rfl := List.mem_singleton.mp listed
  exact absurd (Nat.lt_of_le_of_lt long short) (by decide)

theorem offset?_of_owner_overrun : overrunImage.sections.Pairwise Apart ∧
    overrunImage.offset? 0x2040 = some 0x1240 ∧ overrunImage.offset? 0x2080 = some 0x1300 := by
  have split : overrunImage.sections = [longSection] ++ nextSection :: [] := rfl
  have hidden : 0x40 < nextSection.virtualSize ∧ 0x40 < nextSection.rawSize := by decide
  have behind : 0x80 < nextSection.virtualSize ∧ 0x80 < nextSection.rawSize := by decide
  exact ⟨overrunImage_apart,offset?_of_owner split overrunImage_apart hidden.1 hidden.2 (by decide),
    offset?_of_owner split overrunImage_apart behind.1 behind.2 (by decide)⟩

/-- An address that is given to one section may lead to the raw data of another. -/
theorem overrun_elsewhere : ¬ ∀ bytes image, parse bytes = .ok image → image.sections.Pairwise Apart →
    ∀ part ∈ image.sections, ∀ delta < part.virtualSize, delta < part.rawSize →
      part.rawOffset + delta < Word.limit 32 →
      image.offset? (part.virtualAddress + delta) = some (part.rawOffset + delta) := by
  intro all
  have first := all overrunImage.bytes overrunImage overrunImage_parsed overrunImage_apart nextSection
    (List.mem_of_getElem? (i := 1) rfl) 0 (by decide) (by decide) (by decide)
  exact absurd first (by decide)

end LoadMap.Image
