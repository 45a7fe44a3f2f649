import LoadMap.Proofs.SideBySide.Pattern
import LoadMap.SideBySide.Assembly

/-! What a manifest is called in the store. A pattern as a whole asks something of a text: a star stands for characters
of one name, and all else for itself. The pattern for an identity asks for the parts that the identity states, taken to
the letter, and leaves only the others open. -/
namespace LoadMap

/-- No part of an identity leads into a folder. -/
structure AssemblyIdentity.Whole (identity : AssemblyIdentity) : Prop where
  name : '/' ∉ identity.name.toList
  architecture : ∀ part ∈ identity.architecture?, '/' ∉ part.toList
  publicKeyToken : ∀ part ∈ identity.publicKeyToken?, '/' ∉ part.toList
  version : ∀ part ∈ identity.version?, '/' ∉ part.toList

namespace SideBySide

variable {identity : AssemblyIdentity}

namespace Pattern

variable {pattern left right : Pattern} {chars piece : List Char}

/-- What a pattern asks of a text that may go through several names. ASCII letters fit whatever their case. -/
def Fits : Pattern → List Char → Prop
  | [], chars => chars = []
  | .any :: rest, chars => ∃ before after, chars = before ++ after ∧ '/' ∉ before ∧ Fits rest after
  | .plain other :: rest, chars | .quoted other :: rest, chars =>
    ∃ char after, chars = char :: after ∧ char.toLower = other.toLower ∧ Fits rest after

theorem fits_any : Fits [.any] chars ↔ '/' ∉ chars := by
  constructor
  · rintro ⟨before,after,rfl,whole,rfl⟩
    rwa [List.append_nil]
  · intro whole
    exact ⟨chars,[],(List.append_nil _).symm,whole,rfl⟩

theorem fits_quote : Fits (quote piece) chars ↔ chars.map Char.toLower = piece.map Char.toLower := by
  induction piece generalizing chars with
  | nil => exact List.map_eq_nil_iff.symm
  | cons other piece ih =>
    have step : Fits (quote (other :: piece)) chars ↔
        ∃ char after, chars = char :: after ∧ char.toLower = other.toLower ∧ Fits (quote piece) after := by
      have same : quote (other :: piece) = token other :: quote piece := rfl
      rw [same]
      rcases token_cases other with same | same
      · rw [same,Fits]
      · rw [same,Fits]
    rw [step]
    cases chars with
    | nil => simp
    | cons char chars => simp [ih]

theorem fits_append : Fits (left ++ right) chars ↔
    ∃ first second, chars = first ++ second ∧ Fits left first ∧ Fits right second := by
  induction left generalizing chars with
  | nil => simp [Fits]
  | cons token left ih =>
    rw [List.cons_append]
    cases token with
    | any =>
      simp only [Fits,ih]
      constructor
      · rintro ⟨before,_,rfl,whole,first,second,rfl,front,back⟩
        exact ⟨before ++ first,second,(List.append_assoc _ _ _).symm,⟨before,first,rfl,whole,front⟩,back⟩
      · rintro ⟨_,second,rfl,⟨before,first,rfl,whole,front⟩,back⟩
        exact ⟨before,first ++ second,List.append_assoc _ _ _,whole,first,second,rfl,front,back⟩
    | plain other | quoted other =>
      simp only [Fits,ih]
      constructor
      · rintro ⟨char,_,rfl,same,first,second,rfl,front,back⟩
        exact ⟨char :: first,second,rfl,⟨char,first,rfl,same,front⟩,back⟩
      · rintro ⟨_,second,rfl,⟨char,first,rfl,same,front⟩,back⟩
        exact ⟨char,first ++ second,rfl,same,first,second,rfl,front,back⟩

/-- Within one name, what a pattern matches is what fits it. -/
theorem matches?_iff_fits (whole : '/' ∉ chars) : pattern.matches? chars ↔ pattern.Fits chars := by
  induction pattern generalizing chars with
  | nil => simp [matches?,Fits]
  | cons token rest ih =>
    cases token with
    | any =>
      rw [matches?,someRest_iff,Fits]
      constructor
      · rintro ⟨before,after,rfl,later⟩
        rw [List.mem_append,not_or] at whole
        exact ⟨before,after,rfl,whole.1,(ih whole.2).mp later⟩
      · rintro ⟨before,after,rfl,-,later⟩
        rw [List.mem_append,not_or] at whole
        exact ⟨before,after,rfl,(ih whole.2).mpr later⟩
    | plain other | quoted other =>
      rw [Fits]
      cases chars with
      | nil => simp [matches?]
      | cons char chars => simp [matches?,ih (List.not_mem_of_not_mem_cons whole)]

/-- Names that match those of a pattern one by one make a text that fits the whole pattern. -/
theorem fits_of_names {texts : List (List Char)} (whole : ∀ text ∈ texts, '/' ∉ text)
    (found : List.Forall₂ (fun pattern chars => pattern.matches? chars = true) (names pattern) texts) :
    pattern.Fits (Text.join '/' texts) := by
  induction pattern generalizing texts with
  | nil =>
    obtain ⟨⟩ | ⟨only,⟨⟩⟩ := found
    simpa [matches?,Fits,Text.join] using only
  | cons token rest ih =>
    obtain ⟨first,more,split⟩ := List.exists_cons_of_ne_nil (names_ne_nil rest)
    by_cases slash : token = .plain '/'
    · subst slash
      rw [names,if_pos rfl] at found
      obtain ⟨⟩ | ⟨empty,others⟩ := found
      rename_i text texts
      obtain rfl : text = [] := by simpa [matches?] using empty
      have joined : Text.join '/' ([] :: texts) = '/' :: Text.join '/' texts := by
        rw [split] at others
        cases others
        rfl
      exact ⟨'/',_,joined,rfl,ih (List.forall_mem_cons.mp whole).2 others⟩
    · rw [names,if_neg slash,split] at found
      obtain ⟨⟩ | ⟨here,others⟩ := found
      rename_i text texts
      obtain ⟨own,further⟩ := List.forall_mem_cons.mp whole
      -- The first name fits the token and what the rest of the pattern asks of it.
      have later {after : List Char} (fitting : first.matches? after) (free : '/' ∉ after) :
          Fits rest (Text.join '/' (after :: texts)) :=
        ih (List.forall_mem_cons.mpr ⟨free,further⟩) (split ▸ .cons fitting others)
      have joined (before after : List Char) :
          Text.join '/' ((before ++ after) :: texts) = before ++ Text.join '/' (after :: texts) := by
        cases texts <;> simp [Text.join]
      cases token with
      | any =>
        obtain ⟨before,after,rfl,fitting⟩ := someRest_iff.mp here
        rw [List.mem_append,not_or] at own
        exact ⟨before,_,joined before after,own.1,later fitting own.2⟩
      | plain other | quoted other =>
        cases text with
        | nil => simp [matches?] at here
        | cons char after =>
          simp only [matches?,Bool.and_eq_true,beq_iff_eq] at here
          exact ⟨char,_,joined [char] after,here.1,later here.2 (List.not_mem_of_not_mem_cons own)⟩

end Pattern

open Pattern (Fits ofText quote)

/-- What tells the manifests of an identity from others. -/
def identityName (identity : AssemblyIdentity) : Pattern :=
  partPattern identity.architecture? [.any] ++ [.plain '_'] ++ ofText (Text.lowercase identity.name) ++ [.plain '_'] ++
    partPattern identity.publicKeyToken? (ofText "none") ++ [.plain '_'] ++ partPattern identity.version? [.any]

def manifestName (identity : AssemblyIdentity) : Pattern :=
  identityName identity ++ [.plain '_'] ++ (.any :: ofText ".manifest")

theorem storePattern_eq (manifests : Path) (identity : AssemblyIdentity) : storePattern manifests identity =
    quote manifests.text.toList ++ .plain '/' :: manifestName identity := by
  simp [storePattern,manifestName,identityName,Pattern.ofText_eq]

theorem partPattern_whole {part? : Option String} {unstated : Pattern} (free : .plain '/' ∉ unstated)
    (whole : ∀ part ∈ part?, '/' ∉ part.toList) : .plain '/' ∉ partPattern part? unstated := by
  unfold partPattern
  split
  · exact free
  · exact free
  · rename_i part _
    rw [Pattern.ofText_eq,Pattern.mem_quote_slash]
    exact fun slash => whole part rfl (Text.mem_of_lowercase (by decide) (by decide) slash)

theorem manifestName_whole (whole : identity.Whole) : .plain '/' ∉ manifestName identity := by
  have name : .plain '/' ∉ ofText (Text.lowercase identity.name) := by
    rw [Pattern.ofText_eq,Pattern.mem_quote_slash]
    exact fun slash => whole.name (Text.mem_of_lowercase (by decide) (by decide) slash)
  have star : Pattern.Token.plain '/' ∉ [.any] := by decide
  have none : .plain '/' ∉ ofText "none" := by decide
  have architecture := partPattern_whole star whole.architecture
  have token := partPattern_whole none whole.publicKeyToken
  have version := partPattern_whole star whole.version
  have ending : .plain '/' ∉ ofText ".manifest" := by decide
  simp [manifestName,identityName,name,architecture,token,version,ending]

/-- A text in the small letters of another, or in ASCII capitals for some of them. -/
def Spelled (text stated : String) : Prop := Text.Ascii.equalIgnoringCase text (Text.lowercase stated)

/-- What an identity says of a part; a star says nothing. -/
def stated? (part? : Option String) : Option String := part?.filter (· ≠ "*")

/-- A part of a name reads as it is stated. What is left open is any part of one name. -/
def Reads (part? : Option String) (text : String) : Prop :=
  match stated? part? with
  | none => '/' ∉ text.toList
  | some stated => Spelled text stated

/-- The key of an assembly; one that is not signed has none. -/
def keyOf (identity : AssemblyIdentity) : String := (stated? identity.publicKeyToken?).getD "none"

/-- The name of a manifest in the store, in its parts. The rest tells the language and a checksum. -/
structure StoreName where
  architecture : String
  name : String
  key : String
  version : String
  rest : String
  ending : String

namespace StoreName

def text (parts : StoreName) : String :=
  parts.architecture ++ "_" ++ parts.name ++ "_" ++ parts.key ++ "_" ++ parts.version ++ "_" ++ parts.rest ++ parts.ending

/-- The parts are those that an identity asks for. -/
structure Honours (parts : StoreName) (identity : AssemblyIdentity) : Prop where
  architecture : Reads identity.architecture? parts.architecture
  name : Spelled parts.name identity.name
  key : Spelled parts.key (keyOf identity)
  version : Reads identity.version? parts.version
  rest : '/' ∉ parts.rest.toList
  ending : Spelled parts.ending ".manifest"

end StoreName

/-- What a manifest of the assembly may be called in the store. -/
def Names (identity : AssemblyIdentity) (text : String) : Prop :=
  ∃ parts : StoreName, parts.Honours identity ∧ parts.text = text

section Names

variable {part? : Option String} {stated text : String} {chars : List Char} {left right : Pattern}

theorem partPattern_eq (part? : Option String) (unstated : Pattern) : partPattern part? unstated =
    match stated? part? with
    | none => unstated
    | some stated => ofText (Text.lowercase stated) := by
  unfold partPattern
  split
  · rfl
  · rfl
  · rename_i part other
    have kept : stated? (some part) = some part := Option.filter_eq_some_iff.mpr ⟨rfl,by simpa using other⟩
    rw [kept]

theorem fits_ofText : Fits (ofText (Text.lowercase stated)) text.toList ↔ Spelled text stated := by
  rw [Pattern.ofText_eq,Pattern.fits_quote,Spelled,Text.Ascii.equalIgnoringCase,beq_iff_eq,Text.Ascii.lower,
    Text.Ascii.lower,String.ofList_inj]

theorem fits_part : Fits (partPattern part? [.any]) text.toList ↔ Reads part? text := by
  rw [partPattern_eq,Reads]
  cases stated? part? with
  | none => exact Pattern.fits_any
  | some stated => exact fits_ofText

theorem fits_key : Fits (partPattern identity.publicKeyToken? (ofText "none")) text.toList ↔
    Spelled text (keyOf identity) := by
  have none : Text.lowercase "none" = "none" := by decide +kernel
  rw [partPattern_eq,keyOf,← fits_ofText]
  cases stated? identity.publicKeyToken? with
  | none => rw [Option.getD_none,none]
  | some stated => rfl

theorem fits_mark : Fits [.plain '_'] chars ↔ chars = ['_'] := by
  have same : ([.plain '_'] : Pattern) = quote ['_'] := rfl
  rw [same,Pattern.fits_quote]
  constructor
  · intro alike
    obtain ⟨char,rfl⟩ : ∃ char, chars = [char] := List.length_eq_one_iff.mp (by simpa using congrArg List.length alike)
    obtain rfl : char = '_' := Text.toLower_mark (by decide) (List.cons.inj alike).1
    rfl
  · rintro rfl
    rfl

theorem fits_marked : Fits (left ++ [.plain '_'] ++ right) text.toList ↔
    ∃ first second : String, text = first ++ "_" ++ second ∧ Fits left first.toList ∧ Fits right second.toList := by
  have mark : "_".toList = ['_'] := by decide
  rw [Pattern.fits_append]
  simp only [Pattern.fits_append,fits_mark]
  constructor
  · rintro ⟨_,second,whole,⟨first,_,rfl,front,rfl⟩,back⟩
    refine ⟨String.ofList first,String.ofList second,?_,by rwa [String.toList_ofList],by rwa [String.toList_ofList]⟩
    rw [← String.toList_inj,whole]
    simp [mark]
  · rintro ⟨first,second,rfl,front,back⟩
    exact ⟨first.toList ++ ['_'],second.toList,by simp [mark],⟨_,_,rfl,front,rfl⟩,back⟩

theorem fits_ending : Fits (.any :: ofText ".manifest") text.toList ↔
    ∃ rest ending : String, text = rest ++ ending ∧ '/' ∉ rest.toList ∧ Spelled ending ".manifest" := by
  have lowered : Text.lowercase ".manifest" = ".manifest" := by decide +kernel
  simp only [Fits,← fits_ofText,lowered]
  constructor
  · rintro ⟨rest,ending,whole,own,fits⟩
    refine ⟨String.ofList rest,String.ofList ending,?_,by rwa [String.toList_ofList],by rwa [String.toList_ofList]⟩
    rw [← String.toList_inj,whole]
    simp
  · rintro ⟨rest,ending,rfl,own,fits⟩
    exact ⟨_,_,String.toList_append,own,fits⟩

/-- The pattern for an identity asks for the names that the manifests of the assembly may have. -/
theorem fits_manifestName : Fits (manifestName identity) text.toList ↔ Names identity text := by
  rw [manifestName,identityName]
  simp only [fits_marked,fits_ending,fits_part,fits_key,fits_ofText]
  constructor
  · rintro ⟨_,_,rfl,⟨_,version,rfl,⟨_,key,rfl,⟨architecture,name,rfl,first,second⟩,third⟩,fourth⟩,rest,ending,rfl,own,last⟩
    exact ⟨⟨architecture,name,key,version,rest,ending⟩,⟨first,second,third,fourth,own,last⟩,by
      simp [StoreName.text,String.append_assoc]⟩
  · rintro ⟨parts,honours,rfl⟩
    exact ⟨_,parts.rest ++ parts.ending,by rw [StoreName.text,String.append_assoc],⟨_,_,rfl,⟨_,_,rfl,
      ⟨_,_,rfl,honours.architecture,honours.name⟩,honours.key⟩,honours.version⟩,_,_,rfl,honours.rest,honours.ending⟩

theorem Spelled.whole (spelled : Spelled text stated) (whole : '/' ∉ stated.toList) : '/' ∉ text.toList := by
  rw [Spelled,Text.Ascii.equalIgnoringCase,beq_iff_eq,Text.Ascii.lower,Text.Ascii.lower,String.ofList_inj] at spelled
  exact fun slash => whole (Text.mem_of_lowercase (by decide) (by decide) (Pattern.slash_of_alike spelled slash))

theorem Reads.whole (reads : Reads part? text) (whole : ∀ part ∈ part?, '/' ∉ part.toList) : '/' ∉ text.toList := by
  rw [Reads] at reads
  cases said : stated? part? with
  | none =>
    rw [said] at reads
    exact reads
  | some stated =>
    rw [said] at reads
    exact reads.whole (whole stated (Option.filter_eq_some_iff.mp said).1)

theorem keyOf_whole (whole : identity.Whole) : '/' ∉ (keyOf identity).toList := by
  rw [keyOf]
  cases said : stated? identity.publicKeyToken? with
  | none => decide
  | some stated => exact whole.publicKeyToken stated (Option.filter_eq_some_iff.mp said).1

/-- When no part of an identity leads into a folder, its manifests are single files. -/
theorem Names.whole (names : Names identity text) (whole : identity.Whole) : '/' ∉ text.toList := by
  obtain ⟨parts,honours,rfl⟩ := names
  have ending : '/' ∉ ".manifest".toList := by decide
  simp [StoreName.text,honours.architecture.whole whole.architecture,honours.name.whole whole.name,
    honours.key.whole (keyOf_whole whole),honours.version.whole whole.version,honours.rest,honours.ending.whole ending]

theorem Names.bar (names : Names identity text) : '_' ∈ text.toList := by
  obtain ⟨parts,-,rfl⟩ := names
  simp [StoreName.text]

/-- Before its ending such a name has a bar. -/
theorem Names.cut (names : Names identity text) : ∃ stem ending, text.toList = stem ++ ending ∧ '_' ∈ stem ∧
    ending.map Char.toLower = ".manifest".toList.map Char.toLower := by
  obtain ⟨parts,honours,rfl⟩ := names
  have lowered : Text.lowercase ".manifest" = ".manifest" := by decide +kernel
  have alike := Pattern.fits_quote.mp (fits_ofText.mpr honours.ending)
  rw [lowered] at alike
  exact ⟨_,parts.ending.toList,String.toList_append,by simp,alike⟩

end Names

end SideBySide
end LoadMap
