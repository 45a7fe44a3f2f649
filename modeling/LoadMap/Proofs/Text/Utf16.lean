import LoadMap.Proofs.Bytes
import LoadMap.Text.Utf16

/-! Texts written in UTF-16 are read back. -/
namespace LoadMap.Text.Utf16

/-- A character beyond the first 65536 takes two surrogates. -/
def unitsOf (char : Char) : List Nat :=
  if char.toNat < 0x10000 then [char.toNat]
  else [0xD800 + (char.toNat - 0x10000) / 0x400,0xDC00 + (char.toNat - 0x10000) % 0x400]

def encode (text : String) : List UInt8 :=
  (text.toList.flatMap unitsOf).flatMap (Bytes.digits 2)

theorem code_bounds (char : Char) :
    char.toNat < 0xD800 ∨ 0xDFFF < char.toNat ∧ char.toNat < 0x110000 :=
  char.valid

theorem units_digits (list : List Nat) (small : ∀ unit ∈ list, unit < 0x10000) :
    units (list.flatMap (Bytes.digits 2)) = list := by
  induction list with
  | nil => rfl
  | cons unit rest ih =>
    obtain ⟨first,others⟩ := List.forall_mem_cons.mp small
    have value : unit % 256 + 256 * (unit / 256 % 256) = unit := by omega
    rw [List.flatMap_cons,Bytes.digits,Bytes.digits,Bytes.digits,List.cons_append,List.cons_append,
      List.nil_append,units,ih others]
    simp [value]

theorem unitsOf_small (char : Char) : ∀ unit ∈ unitsOf char, unit < 0x10000 := by
  have code := code_bounds char
  intro unit member
  rw [unitsOf] at member
  split at member
  · rwa [List.mem_singleton.mp member]
  · rcases List.mem_cons.mp member with rfl | last
    · omega
    · rw [List.mem_singleton.mp last]
      omega

theorem decodeUnits_unitsOf (char : Char) (rest : List Nat) :
    decodeUnits (unitsOf char ++ rest) = char :: decodeUnits rest := by
  have code := code_bounds char
  rw [unitsOf]
  split
  · have high : isHigh char.toNat = false := by simp [isHigh]; omega
    have low : isLow char.toNat = false := by simp [isLow]; omega
    rw [List.singleton_append,decodeUnits.eq_def]
    simp only [high,low,Bool.false_eq_true,if_false,Char.ofNat_toNat]
  · have high : isHigh (0xD800 + (char.toNat - 0x10000) / 0x400) = true := by simp [isHigh]; omega
    have low : isLow (0xDC00 + (char.toNat - 0x10000) % 0x400) = true := by simp [isLow]; omega
    have whole : 0x10000 + (0xD800 + (char.toNat - 0x10000) / 0x400 - 0xD800) * 0x400 +
        (0xDC00 + (char.toNat - 0x10000) % 0x400 - 0xDC00) = char.toNat := by omega
    simp only [List.cons_append,List.nil_append,decodeUnits,high,low,if_true,whole,Char.ofNat_toNat]

theorem decodeLossy_encode (text : String) : decodeLossy (encode text) = text := by
  have decoded (chars : List Char) : decodeUnits (chars.flatMap unitsOf) = chars := by
    induction chars with
    | nil => rfl
    | cons char rest ih => rw [List.flatMap_cons,decodeUnits_unitsOf,ih]
  rw [decodeLossy,encode,units_digits,decoded,String.ofList_toList]
  intro unit member
  obtain ⟨char,-,inside⟩ := List.mem_flatMap.mp member
  exact unitsOf_small char unit inside

end LoadMap.Text.Utf16
