import LoadMap.Image.ImportTable
import LoadMap.Proofs.Image.DelayImport
import Mathlib.Data.List.Chain

/-! The descriptors of an import table against the flat list of its functions. Nothing is lost between them but the
kind of a function, when its name is one that the list has for functions without a name. -/
namespace LoadMap.Image

open Delayed (Entry)

section Groups

/-- Descriptors of neighbouring functions: their functions in a row are those of the list, and no two descriptors
could be one. -/
structure Grouped (functions : List (String × ImportedFunction)) (descriptors : List ImportDescriptor) : Prop where
  whole : descriptors.flatMap (fun descriptor => descriptor.functions.map (descriptor.dll,·)) = functions
  filled : ∀ descriptor ∈ descriptors, descriptor.functions ≠ []
  apart : descriptors.IsChain (·.dll ≠ ·.dll)
  ordinary : ∀ descriptor ∈ descriptors, descriptor.delay = false

variable {functions : List (String × ImportedFunction)} {first : ImportDescriptor} {descriptors : List ImportDescriptor}

theorem Grouped.joined (grouped : Grouped functions (first :: descriptors)) (function : ImportedFunction) :
    Grouped ((first.dll,function) :: functions)
      ({ first with functions := function :: first.functions } :: descriptors) := by
  obtain ⟨whole,filled,apart,ordinary⟩ := grouped
  refine ⟨?_,?_,?_,?_⟩
  · rw [← whole]
    rfl
  · exact List.forall_mem_cons.mpr ⟨List.cons_ne_nil _ _,(List.forall_mem_cons.mp filled).2⟩
  · rw [List.isChain_cons] at apart ⊢
    exact apart
  · exact List.forall_mem_cons.mpr (List.forall_mem_cons.mp ordinary)

theorem Grouped.opened {dll : String} (grouped : Grouped functions descriptors)
    (other : ∀ first ∈ descriptors.head?, first.dll ≠ dll) (function : ImportedFunction) :
    Grouped ((dll,function) :: functions) ({ dll, delay := false, functions := [function] } :: descriptors) := by
  obtain ⟨whole,filled,apart,ordinary⟩ := grouped
  refine ⟨?_,?_,?_,?_⟩
  · rw [← whole]
    rfl
  · exact List.forall_mem_cons.mpr ⟨List.cons_ne_nil _ _,filled⟩
  · exact List.isChain_cons.mpr ⟨fun first member => (other first member).symm,apart⟩
  · exact List.forall_mem_cons.mpr ⟨rfl,ordinary⟩

theorem groupImports_grouped (items : List TableImport) :
    Grouped (items.map fun item => (item.dll,ImportedFunction.ofTable item)) (groupImports items) := by
  induction items with
  | nil => exact ⟨rfl,nofun,.nil,nofun⟩
  | cons item rest ih =>
    rw [groupImports,List.map_cons]
    -- The function joins the first descriptor of the rest, or opens one before it.
    cases later : groupImports rest with
    | nil =>
      rw [later] at ih
      exact ih.opened nofun _
    | cons first others =>
      rw [later] at ih
      by_cases same : first.dll = item.dll
      · rw [← same]
        simp only [if_true]
        exact ih.joined _
      · simp only [same,if_false]
        refine ih.opened ?_ _
        rintro _ ⟨⟩
        exact same

end Groups

section Kinds

/-- How a function is listed: one without a name gets a name made of its number, and one with a name has its hint for
a number. -/
def listed (dll : String) : Entry → TableImport
  | .ordinal number => { dll, name := s!"ORDINAL {number}", number }
  | .named hint text => { dll, name := text, number := hint }

/-- A name that functions without a name have. -/
def Disguised : Entry → Prop
  | .ordinal _ => False
  | .named _ text => "ORDINAL ".toList <+: text.toList

instance : (entry : Entry) → Decidable (Disguised entry)
  | .ordinal _ => inferInstanceAs (Decidable False)
  | .named _ _ => inferInstanceAs (Decidable (_ <+: _))

/-- What a function is taken for: one with such a name for one without a name, its hint for the number. -/
def taken (entry : Entry) : ImportedFunction :=
  match entry with
  | .named hint _ => if Disguised entry then { name? := none, ordinal? := some hint } else entry.function
  | .ordinal _ => entry.function

variable {entry : Entry}

theorem taken_eq_function_iff : taken entry = entry.function ↔ ¬ Disguised entry := by
  cases entry with
  | ordinal number => exact iff_of_true rfl not_false
  | named hint text =>
    rw [taken]
    by_cases disguised : Disguised (.named hint text)
    · rw [if_pos disguised]
      simp [Entry.function,disguised]
    · rw [if_neg disguised]
      simp [disguised]

theorem ofTable_listed (dll : String) (entry : Entry) : ImportedFunction.ofTable (listed dll entry) = taken entry := by
  cases entry with
  | ordinal number =>
    have made : "ORDINAL ".toList.isPrefixOf s!"ORDINAL {number}".toList = true := by
      rw [List.isPrefixOf_iff_prefix]
      exact ⟨_,(String.toList_append).symm⟩
    rw [ImportedFunction.ofTable,listed,if_pos made]
    rfl
  | named hint text =>
    rw [ImportedFunction.ofTable,listed,taken]
    by_cases disguised : Disguised (.named hint text)
    · rw [if_pos disguised,if_pos (List.isPrefixOf_iff_prefix.mpr disguised)]
    · rw [if_neg disguised,if_neg (mt List.isPrefixOf_iff_prefix.mp disguised)]
      rfl

theorem Grouped.again {functions others : List (String × ImportedFunction)} {descriptors : List ImportDescriptor}
    (grouped : Grouped functions descriptors) : Grouped others descriptors ↔ functions = others :=
  ⟨fun again => grouped.whole.symm.trans again.whole,fun same => same ▸ grouped⟩

/-- Grouping gives back the functions of a list in their order, each as what it is taken for; so it gives back the list
itself exactly if no name in it is like those of functions without a name. -/
theorem groupImports_gives_back (functions : List (String × Entry)) :
    let descriptors := groupImports (functions.map fun function => listed function.1 function.2)
    Grouped (functions.map fun function => (function.1,taken function.2)) descriptors ∧
      (Grouped (functions.map fun function => (function.1,function.2.function)) descriptors ↔
        ∀ function ∈ functions, ¬ Disguised function.2) := by
  intro descriptors
  have grouped : Grouped (functions.map fun function => (function.1,taken function.2)) descriptors := by
    have all := groupImports_grouped (functions.map fun function => listed function.1 function.2)
    have same (function : String × Entry) : (listed function.1 function.2).dll = function.1 := by
      cases function.2 <;> rfl
    simp only [List.map_map,Function.comp_def,ofTable_listed,same] at all
    exact all
  refine ⟨grouped,?_⟩
  rw [grouped.again,List.map_inj_left]
  simp only [Prod.mk.injEq,true_and,taken_eq_function_iff]

/-- A function imported by the name `ORDINAL 5` comes back as the one with the number 7, which is its hint. -/
theorem disguised_name_lost :
    groupImports [listed "a.dll" (.named 7 "ORDINAL 5")] =
        [{ dll := "a.dll", delay := false, functions := [{ name? := none, ordinal? := some 7 }] }] ∧
      ¬ Grouped [("a.dll",{ name? := some "ORDINAL 5", ordinal? := none })]
        (groupImports [listed "a.dll" (.named 7 "ORDINAL 5")]) := by
  have grouped : groupImports [listed "a.dll" (.named 7 "ORDINAL 5")] =
      [{ dll := "a.dll", delay := false, functions := [{ name? := none, ordinal? := some 7 }] }] := by decide +kernel
  refine ⟨grouped,fun back => ?_⟩
  rw [grouped] at back
  exact absurd back.whole (by decide)

end Kinds
end LoadMap.Image
