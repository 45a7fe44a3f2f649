import LoadMap.ApiSet.Map
import LoadMap.Proofs.Text.Lowercase

/-! The names of contracts and their keys, read without regard to the case of ASCII letters. -/
namespace LoadMap.ApiSet

open Text

theorem isDecimal_letter (char : Char) (letter : IsCapital char ∨ IsSmall char) :
    Digit.isDecimal char = false := by
  have apart : ∀ first ∈ Digit.zeros, first + 10 ≤ 65 ∨ 122 < first := by decide +kernel
  rw [Digit.isDecimal,List.any_eq_false]
  intro first listed inside
  simp only [Bool.and_eq_true,decide_eq_true_eq] at inside
  have outside := apart first listed
  simp only [IsCapital,IsSmall] at letter
  omega

theorem isDecimal_toLower : Digit.isDecimal ∘ Char.toLower = Digit.isDecimal := by
  funext char
  rw [Function.comp_apply,view_toLower isDecimal_letter]

variable (rest : Reversed)

theorem afterDigits?_map :
    afterDigits? (rest.map Char.toLower) = (afterDigits? rest).map (List.map Char.toLower) := by
  rw [afterDigits?,afterDigits?,List.takeWhile_map,List.dropWhile_map,isDecimal_toLower]
  by_cases none : rest.takeWhile Digit.isDecimal = []
  · rw [if_pos none,if_pos (by rw [none,List.map_nil]),Option.map_none]
  · rw [if_neg none,if_neg (by rwa [List.map_eq_nil_iff]),Option.map_some]

theorem after?_map (char : Char) :
    after? char (rest.map Char.toLower) = (after? char rest).map (List.map Char.toLower) := by
  cases rest with
  | nil => rfl
  | cons first rest =>
    rw [List.map_cons,after?,after?,toLower_toLower]
    split <;> rfl

theorem dropExtension_map :
    dropExtension (rest.map Char.toLower) = (dropExtension rest).map Char.toLower := by
  rw [dropExtension,dropExtension,← List.map_take,← List.map_drop,List.map_map,toLower_comp]
  split <;> rfl

theorem beforeVersion?_map (name : List Char) :
    beforeVersion? (name.map Char.toLower) = (beforeVersion? name).map (List.map Char.toLower) := by
  -- The lowering of what is left to read passes through each step, up to the end of the reading.
  simp only [beforeVersion?,← List.map_reverse,dropExtension_map,Option.bind_eq_bind,afterDigits?_map,
    Option.bind_map,Function.comp_def,after?_map,Option.map_bind,Option.pure_def,Option.map_some]

theorem isFamily_map (chars : List Char) : isFamily (chars.map Char.toLower) = isFamily chars := by
  rw [isFamily,isFamily,List.map_map,toLower_comp]

theorem contains_newline_map (chars : List Char) :
    (chars.map Char.toLower).contains '\n' = chars.contains '\n' := by
  have same (char : Char) : char.toLower = '\n' ↔ char = '\n' := by
    rcases toLower_cases char with ⟨capital,small⟩ | ⟨-,same⟩
    · rw [← Char.toNat_inj,← Char.toNat_inj]
      simp only [IsCapital,IsSmall] at capital small
      simp
      omega
    · rw [same]
  rw [Bool.eq_iff_iff,List.contains_iff_mem,List.contains_iff_mem,List.mem_map]
  simp only [same,exists_eq_right]

theorem isContractName_lower (name : String) :
    isContractName (Ascii.lower name) = isContractName name := by
  rw [isContractName,isContractName,Ascii.lower,String.toList_ofList,beforeVersion?_map]
  cases beforeVersion? name.toList with
  | none => rfl
  | some start =>
    rw [Option.map_some]
    simp only [← List.map_take,← List.map_drop,isFamily_map,contains_newline_map,ne_eq,List.map_eq_nil_iff]

theorem hashedName_lower (name : String) : hashedName (Ascii.lower name) = hashedName name := by
  rw [hashedName,hashedName,lowercase_lower]

theorem hashedName_lowercase (name : String) : hashedName (lowercase name) = hashedName name := by
  rw [hashedName,hashedName,lowercase_lowercase]

end LoadMap.ApiSet

namespace LoadMap

theorem ApiSetMap.lookup?_lower (map : ApiSetMap) (name : String) :
    map.lookup? (Text.Ascii.lower name) = map.lookup? name := by
  rw [lookup?,lookup?,ApiSet.hashedName_lower]

end LoadMap
