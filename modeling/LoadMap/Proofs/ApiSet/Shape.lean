import LoadMap.Proofs.ApiSet.Contract

/-! The shape of a contract name, told apart from its reader: a family, a middle part, and three version numbers. The
reader accepts the names of this shape, and the key of such a name ends where its last number begins. -/
namespace LoadMap.ApiSet

open Text
open CaseTable (lowerRows)

section Shape

def KnownFamily (chars : List Char) : Prop :=
  chars.map Char.toLower = "api".toList ∨ chars.map Char.toLower = "ext".toList

/-- Numbers have the decimal digits of any script. -/
def IsNumber (chars : List Char) : Prop := chars ≠ [] ∧ ∀ char ∈ chars, Digit.isDecimal char = true

/-- What a contract name ends with: `lfirst-second-last` and its extension, if it has one. -/
structure Version where
  mark : Char
  first : List Char
  second : List Char
  last : List Char
  extension : List Char
  markLetter : mark.toLower = 'l'
  firstNumber : IsNumber first
  secondNumber : IsNumber second
  lastNumber : IsNumber last
  extensionKnown : extension = [] ∨ extension.map Char.toLower = ".dll".toList

/-- The parts of a contract name, `family-middle-version`. The middle part is free but for its being one line: hyphens
and numbers of its own do not matter. -/
structure Parts extends Version where
  family : List Char
  middle : List Char
  familyKnown : KnownFamily family
  middleFilled : middle ≠ []
  middleLine : '\n' ∉ middle

def Version.chars (version : Version) : List Char :=
  version.mark :: version.first ++ '-' :: (version.second ++ '-' :: (version.last ++ version.extension))

namespace Parts

def start (parts : Parts) : List Char := parts.family ++ '-' :: parts.middle

def text (parts : Parts) : String := String.ofList (parts.start ++ '-' :: parts.chars)

/-- All but the last number and the extension. -/
def kept (parts : Parts) : String :=
  String.ofList (parts.start ++ '-' :: (parts.mark :: parts.first ++ '-' :: parts.second))

end Parts
end Shape

section Reading

variable {char mark : Char} {digits rest more name start middle : List Char}

theorem IsNumber.reverse (number : IsNumber digits) : IsNumber digits.reverse :=
  ⟨by simpa using number.1,fun char listed => number.2 char (List.mem_reverse.mp listed)⟩

theorem afterDigits?_append (number : IsNumber digits) (other : Digit.isDecimal char = false) :
    afterDigits? (digits ++ char :: rest) = some (char :: rest) := by
  have stop : ¬ Digit.isDecimal char = true := by simp [other]
  rw [afterDigits?,List.takeWhile_append_of_pos number.2,List.dropWhile_append_of_pos number.2,
    List.dropWhile_cons_of_neg stop,if_neg (by simp [number.1])]

theorem exists_of_afterDigits? (read : afterDigits? rest = some more) :
    ∃ digits, IsNumber digits ∧ rest = digits ++ more := by
  rw [afterDigits?] at read
  split at read
  · cases read
  · rename_i some
    cases read
    exact ⟨_,⟨some,List.all_eq_true.mp List.all_takeWhile⟩,List.takeWhile_append_dropWhile.symm⟩

theorem after?_cons (same : char.toLower = mark) : after? mark (char :: rest) = some rest := if_pos same

theorem exists_of_after? (read : after? mark rest = some more) : ∃ char, char.toLower = mark ∧ rest = char :: more := by
  cases rest with
  | nil => cases read
  | cons char rest =>
    rw [after?] at read
    split at read
    · cases read
      exact ⟨char,‹_›,rfl⟩
    · cases read

theorem toLower_eq_hyphen : char.toLower = '-' ↔ char = '-' :=
  ⟨toLower_mark (by decide),by rintro rfl; decide⟩

theorem Version.isDecimal_mark (version : Version) : Digit.isDecimal version.mark = false := by
  have letter : Digit.isDecimal 'l' = false := by decide +kernel
  rw [← view_toLower isDecimal_letter,version.markLetter,letter]

/-- An extension is told from a number by its last letter. -/
theorem Version.dropExtension_reverse (version : Version) :
    dropExtension ((version.last ++ version.extension).reverse ++ rest) = version.last.reverse ++ rest := by
  rw [List.reverse_append,List.append_assoc,dropExtension]
  rcases version.extensionKnown with none | dll
  · rw [none,List.reverse_nil,List.nil_append,if_neg]
    intro same
    obtain ⟨some,digits⟩ := version.lastNumber.reverse
    obtain ⟨char,others,number⟩ := List.exists_cons_of_ne_nil some
    rw [number] at same digits
    have letter : char.toLower = 'l' := (List.cons.inj same).1
    have decimal := digits char List.mem_cons_self
    rw [← view_toLower isDecimal_letter,letter] at decimal
    exact absurd decimal (by decide +kernel)
  · have four : version.extension.reverse.length = 4 := by
      rw [List.length_reverse,← List.length_map,dll]
      rfl
    rw [List.take_left' four,List.drop_left' four,if_pos]
    rw [List.map_reverse,dll]
    rfl

theorem exists_of_dropExtension (rest : Reversed) :
    ∃ extension, (extension = [] ∨ extension.map Char.toLower = ".dll".toList) ∧
      rest = extension.reverse ++ dropExtension rest := by
  rw [dropExtension]
  by_cases dll : (rest.take 4).map Char.toLower = ['l','l','d','.']
  · rw [if_pos dll]
    refine ⟨(rest.take 4).reverse,.inr ?_,by rw [List.reverse_reverse,List.take_append_drop]⟩
    rw [List.map_reverse,dll]
    rfl
  · rw [if_neg dll]
    exact ⟨[],.inl rfl,rfl⟩

theorem beforeVersion?_iff :
    beforeVersion? name = some start ↔ ∃ version : Version, name = start ++ '-' :: version.chars := by
  constructor
  · intro read
    simp only [beforeVersion?,Option.bind_eq_bind,Option.bind_eq_some_iff,Option.pure_def,Option.some.injEq] at read
    obtain ⟨_,lastRead,_,secondSign,_,secondRead,_,firstSign,_,firstRead,_,markRead,_,markSign,rfl⟩ := read
    obtain ⟨extension,known,rest⟩ := exists_of_dropExtension name.reverse
    obtain ⟨last,lastNumber,lastRest⟩ := exists_of_afterDigits? lastRead
    obtain ⟨_,hyphen,rfl⟩ := exists_of_after? secondSign
    obtain rfl := toLower_eq_hyphen.mp hyphen
    obtain ⟨second,secondNumber,rfl⟩ := exists_of_afterDigits? secondRead
    obtain ⟨_,hyphen,rfl⟩ := exists_of_after? firstSign
    obtain rfl := toLower_eq_hyphen.mp hyphen
    obtain ⟨first,firstNumber,rfl⟩ := exists_of_afterDigits? firstRead
    obtain ⟨mark,letter,rfl⟩ := exists_of_after? markRead
    obtain ⟨_,hyphen,rfl⟩ := exists_of_after? markSign
    obtain rfl := toLower_eq_hyphen.mp hyphen
    -- The name was read from its end, so each part comes out reversed.
    rw [lastRest,List.reverse_eq_iff] at rest
    refine ⟨⟨mark,first.reverse,second.reverse,last.reverse,extension,letter,firstNumber.reverse,secondNumber.reverse,
      lastNumber.reverse,known⟩,?_⟩
    rw [rest]
    simp [Version.chars]
  · rintro ⟨version,rfl⟩
    have hyphen : Digit.isDecimal '-' = false := by decide +kernel
    have sign : '-'.toLower = '-' := by decide
    have spelled : (start ++ '-' :: version.chars).reverse = (version.last ++ version.extension).reverse ++ '-' ::
        (version.second.reverse ++ '-' :: (version.first.reverse ++ version.mark :: '-' :: start.reverse)) := by
      simp [Version.chars]
    rw [beforeVersion?,spelled,version.dropExtension_reverse]
    simp only [Option.bind_eq_bind,Option.bind_some,Option.pure_def,
      afterDigits?_append version.lastNumber.reverse hyphen,after?_cons sign,
      afterDigits?_append version.secondNumber.reverse hyphen,
      afterDigits?_append version.firstNumber.reverse version.isDecimal_mark,after?_cons version.markLetter,
      List.reverse_reverse]

theorem KnownFamily.length {family : List Char} (known : KnownFamily family) : family.length = 3 := by
  rcases known with api | ext
  · simpa using congrArg List.length api
  · simpa using congrArg List.length ext

theorem isFamily_iff : isFamily (start.take 4) = true ↔
    ∃ family, KnownFamily family ∧ start.take 4 = family ++ ['-'] := by
  have ends_iff (spelled : List Char) : (start.take 4).map Char.toLower = spelled ++ ['-'] ↔
      ∃ family, family.map Char.toLower = spelled ∧ start.take 4 = family ++ ['-'] := by
    rw [List.map_eq_append_iff]
    constructor
    · rintro ⟨family,_,split,spells,last⟩
      obtain ⟨_,rfl,sign⟩ := List.map_eq_singleton_iff.mp last
      obtain rfl := toLower_eq_hyphen.mp sign
      exact ⟨family,spells,split⟩
    · rintro ⟨family,spells,split⟩
      exact ⟨family,['-'],split,spells,by decide⟩
  simp only [isFamily,Bool.or_eq_true,beq_iff_eq,KnownFamily,or_and_right,exists_or]
  exact or_congr (ends_iff "api".toList) (ends_iff "ext".toList)

theorem start_iff : isFamily (start.take 4) = true ∧ start.drop 4 = middle ↔
    ∃ family, KnownFamily family ∧ start = family ++ '-' :: middle := by
  rw [isFamily_iff]
  constructor
  · rintro ⟨⟨family,known,split⟩,rfl⟩
    refine ⟨family,known,?_⟩
    rw [← List.singleton_append,← List.append_assoc,← split,List.take_append_drop]
  · rintro ⟨family,known,rfl⟩
    have long : (family ++ ['-']).length = 4 := by rw [List.length_append,known.length]; rfl
    rw [← List.singleton_append,← List.append_assoc,List.take_left' long,List.drop_left' long]
    exact ⟨⟨family,known,rfl⟩,rfl⟩

theorem isContractName_iff (name : String) : isContractName name = true ↔ ∃ parts : Parts, parts.text = name := by
  rw [isContractName]
  constructor
  · intro shaped
    cases read : beforeVersion? name.toList with
    | none => simp [read] at shaped
    | some start =>
      simp only [read,Bool.and_eq_true,decide_eq_true_eq,Bool.not_eq_true',List.contains_eq_mem,
        decide_eq_false_iff_not] at shaped
      obtain ⟨⟨known,filled⟩,line⟩ := shaped
      obtain ⟨version,spelled⟩ := beforeVersion?_iff.mp read
      obtain ⟨family,known,split⟩ := start_iff.mp ⟨known,rfl⟩
      refine ⟨⟨version,family,start.drop 4,known,filled,line⟩,?_⟩
      rw [Parts.text,Parts.start,← split,← spelled,String.ofList_toList]
  · rintro ⟨parts,rfl⟩
    have read : beforeVersion? parts.text.toList = some parts.start :=
      beforeVersion?_iff.mpr ⟨parts.toVersion,String.toList_ofList⟩
    obtain ⟨known,middle⟩ : isFamily (parts.start.take 4) = true ∧ parts.start.drop 4 = parts.middle :=
      start_iff.mpr ⟨parts.family,parts.familyKnown,rfl⟩
    simp [read,known,middle,parts.middleFilled,parts.middleLine]

end Reading

section Lowering

variable {char : Char} {digits chars spelled : List Char}

theorem isLowered_decimal (decimal : Digit.isDecimal char = true) : IsLowered char := by
  have apart : ∀ first ∈ Digit.zeros, (first + 10 ≤ 0x130 ∨ 0x130 < first) ∧
      ∀ row ∈ lowerRows, first + 10 ≤ row.first ∨ row.last < first := by decide +kernel
  rw [Digit.isDecimal,List.any_eq_true] at decimal
  obtain ⟨first,listed,inside⟩ := decimal
  simp only [Bool.and_eq_true,decide_eq_true_eq] at inside
  obtain ⟨dotted,rows⟩ := apart first listed
  refine ⟨by omega,?_⟩
  rintro row kept ⟨low,high,-⟩
  have outside := rows row kept
  omega

theorem toLower_decimal (decimal : Digit.isDecimal char = true) : char.toLower = char := by
  rcases toLower_cases char with ⟨capital,-⟩ | ⟨-,same⟩
  · exact absurd capital (isLowered_decimal decimal).not_capital
  · exact same

theorem IsNumber.map_toLower (number : IsNumber digits) : digits.map Char.toLower = digits := by
  rw [List.map_congr_left fun char listed => toLower_decimal (number.2 char listed),List.map_id']

/-- A part that is lowered one character at a time. -/
def IsPlain (chars : List Char) : Prop := ∀ char ∈ chars, IsLowered char.toLower

theorem IsPlain.append {left right : List Char} (plain : IsPlain left) (also : IsPlain right) :
    IsPlain (left ++ right) :=
  List.forall_mem_append.mpr ⟨plain,also⟩

theorem IsNumber.isPlain (number : IsNumber digits) : IsPlain digits := fun char listed => by
  have decimal := number.2 char listed
  rw [toLower_decimal decimal]
  exact isLowered_decimal decimal

theorem isPlain_of_spelled (spells : chars.map Char.toLower = spelled)
    (ascii : (spelled.all fun char => char.toLower = char ∧ char.toNat < 0x80) = true) : IsPlain chars := by
  intro char listed
  have member : char.toLower ∈ spelled := spells ▸ List.mem_map_of_mem listed
  obtain ⟨small,low⟩ := of_decide_eq_true (List.all_eq_true.mp ascii char.toLower member)
  rw [← small]
  exact isLowered_toLower low

theorem IsPlain.lowerFrom (plain : IsPlain chars) : lowerFrom [] chars = chars.map Char.toLower := by
  have lowered : Text.lowerFrom [] (chars.map Char.toLower) = chars.map Char.toLower := by
    refine lowerFrom_lowered [] fun small listed => ?_
    obtain ⟨char,member,rfl⟩ := List.mem_map.mp listed
    exact plain char member
  rw [← lowered]
  exact (lowerFrom_map [] chars).symm

theorem lowerFrom_hyphen (left right : List Char) :
    lowerFrom [] (left ++ '-' :: right) = lowerFrom [] left ++ '-' :: lowerFrom [] right := by
  have ends : IsBreak '-' := ⟨by decide +kernel,by decide +kernel⟩
  have lowered : IsLowered '-'.toLower := isLowered_toLower (by decide)
  exact ends.lowerFrom_append lowered [] left right

namespace Parts

variable (parts : Parts)

theorem plain_family : IsPlain parts.family := by
  rcases parts.familyKnown with api | ext
  · exact isPlain_of_spelled api (by decide)
  · exact isPlain_of_spelled ext (by decide)

theorem plain_first : IsPlain (parts.mark :: parts.first) := by
  have spells : [parts.mark].map Char.toLower = ['l'] := by rw [List.map_singleton,parts.markLetter]
  exact (isPlain_of_spelled spells (by decide)).append parts.firstNumber.isPlain

theorem plain_extension : IsPlain parts.extension := by
  rcases parts.extensionKnown with none | dll
  · exact none ▸ nofun
  · exact isPlain_of_spelled dll (by decide)

/-- The parts in small letters. -/
def lowered : Parts where
  mark := 'l'
  first := parts.first
  second := parts.second
  last := parts.last
  extension := parts.extension.map Char.toLower
  markLetter := rfl
  firstNumber := parts.firstNumber
  secondNumber := parts.secondNumber
  lastNumber := parts.lastNumber
  extensionKnown := by simpa only [List.map_map,toLower_comp,List.map_eq_nil_iff] using parts.extensionKnown
  family := parts.family.map Char.toLower
  middle := lowerFrom [] parts.middle
  familyKnown := by simpa only [KnownFamily,List.map_map,toLower_comp] using parts.familyKnown
  middleFilled := mt lowerFrom_eq_nil.mp parts.middleFilled
  middleLine := fun member => parts.middleLine (mem_of_lowerFrom (by decide) (by decide) member)

theorem start_lowered : parts.lowered.start = lowerFrom [] parts.start := by
  rw [start,start,lowerFrom_hyphen,parts.plain_family.lowerFrom]
  rfl

theorem first_lowered : lowerFrom [] (parts.mark :: parts.first) = 'l' :: parts.first := by
  rw [parts.plain_first.lowerFrom,List.map_cons,parts.markLetter,parts.firstNumber.map_toLower]

theorem second_lowered : lowerFrom [] parts.second = parts.second := by
  rw [parts.secondNumber.isPlain.lowerFrom,parts.secondNumber.map_toLower]

theorem last_lowered : lowerFrom [] (parts.last ++ parts.extension) = parts.last ++ parts.lowered.extension := by
  rw [(parts.lastNumber.isPlain.append parts.plain_extension).lowerFrom,List.map_append,parts.lastNumber.map_toLower]
  rfl

theorem kept_lowered : parts.lowered.kept = lowercase parts.kept := by
  rw [kept,kept,lowercase,String.toList_ofList,lowerFrom_hyphen,lowerFrom_hyphen,← start_lowered,first_lowered,
    second_lowered]
  rfl

theorem chars_lowered : parts.lowered.chars = lowerFrom [] parts.chars := by
  rw [Version.chars,Version.chars,lowerFrom_hyphen,lowerFrom_hyphen,first_lowered,second_lowered,last_lowered]
  rfl

theorem text_lowered : parts.lowered.text = lowercase parts.text := by
  rw [text,text,lowercase,String.toList_ofList,lowerFrom_hyphen,← start_lowered,← chars_lowered]

end Parts
end Lowering

section Key

variable {name left right : String}

theorem toLower_lowercase {char : Char} (listed : char ∈ (lowercase name).toList) : char.toLower = char := by
  rw [lowercase,String.toList_ofList] at listed
  rcases toLower_cases char with ⟨capital,-⟩ | ⟨-,same⟩
  · exact absurd capital (isLowered_lowerFrom [] name.toList char listed).not_capital
  · exact same

/-- A key is cut out of a name as the reader of contract names does it. -/
theorem hashedName_eq (name : String) : hashedName name =
    match (dropExtension (lowercase name).toList.reverse).dropWhile (· ≠ '-') with
    | [] => String.ofList (dropExtension (lowercase name).toList.reverse).reverse
    | _ :: before => String.ofList before.reverse := by
  have small : ((lowercase name).toList.reverse.take 4).map Char.toLower = (lowercase name).toList.reverse.take 4 := by
    refine (List.map_congr_left fun char listed => ?_).trans (List.map_id' _)
    exact toLower_lowercase (List.mem_reverse.mp (List.mem_of_mem_take listed))
  rewrite [hashedName,dropExtension,small]
  generalize (lowercase name).toList.reverse = name
  rfl

theorem hashedName_text (parts : Parts) : hashedName parts.text = lowercase parts.kept := by
  rw [hashedName_eq,← parts.text_lowered,← parts.kept_lowered]
  generalize parts.lowered = parts
  have spelled : parts.text.toList.reverse =
      (parts.last ++ parts.extension).reverse ++ '-' :: parts.kept.toList.reverse := by
    simp [Parts.text,Parts.kept,Version.chars]
  have digits : ∀ char ∈ parts.last.reverse, decide (char ≠ '-') = true := by
    intro char listed
    have decimal := parts.lastNumber.reverse.2 char listed
    rw [decide_eq_true_iff]
    rintro rfl
    exact absurd decimal (by decide +kernel)
  rw [spelled,parts.dropExtension_reverse,List.dropWhile_append_of_pos digits,List.dropWhile_cons_of_neg (by decide)]
  dsimp only
  rw [List.reverse_reverse,String.ofList_toList]

theorem lookup?_alike_iff :
    (∀ map : ApiSetMap, map.lookup? left = map.lookup? right) ↔ hashedName left = hashedName right := by
  constructor
  · intro alike
    have own : ApiSetMap.lookup? { entries := [⟨left,[]⟩] } left = some ⟨left,[]⟩ := by simp [ApiSetMap.lookup?]
    rw [alike] at own
    simpa using List.find?_some own
  · intro same map
    rw [ApiSetMap.lookup?,ApiSetMap.lookup?,same]

end Key

/-- The contract names are the names that have such parts. The key of a name, for any parts that it has, is what comes
before its last number, in small letters; so two names mean the same contract when nothing else tells them apart. -/
theorem contract_names_by_parts :
    (∀ name, isContractName name = true ↔ ∃ parts : Parts, parts.text = name) ∧
      ∀ parts : Parts, hashedName parts.text = lowercase parts.kept ∧
        parts.lowered.text = lowercase parts.text ∧ parts.lowered.kept = lowercase parts.kept ∧
        ∀ other : Parts, (∀ map : ApiSetMap, map.lookup? parts.text = map.lookup? other.text) ↔
          parts.lowered.kept = other.lowered.kept := by
  refine ⟨isContractName_iff,fun parts => ⟨hashedName_text parts,parts.text_lowered,parts.kept_lowered,fun other => ?_⟩⟩
  rw [lookup?_alike_iff,hashedName_text,hashedName_text,parts.kept_lowered,other.kept_lowered]

example : isContractName "API-ms-l1-2-3.dll-ΑΣ-L10-٣-0.DLL" = true ∧
    hashedName "API-ms-l1-2-3.dll-ΑΣ-L10-٣-0.DLL" = "api-ms-l1-2-3.dll-ας-l10-٣" := by decide +kernel

end LoadMap.ApiSet
