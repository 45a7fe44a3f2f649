import LoadMap.Proofs.Metadata.Directory

/-! The streams of a metadata root are found by their names, in whatever order and wherever they stand: names that are
texts are read as they are. -/
namespace LoadMap.Metadata

open Bytes (Holds holds_append)
open Standard (Stream RawStream Root HoldsRoot HoldsDirectory)
open Text (Utf8.encode)

variable {bytes : ByteArray}

namespace Standard

/-- A stream with the bytes of its name. -/
def Stream.raw (stream : Stream) : RawStream := ⟨Utf8.encode stream.name,stream.offset,stream.content⟩

theorem Stream.raw_text (stream : Stream) : stream.raw.text = stream.name := Text.Utf8.decodeLossy_encode stream.name

theorem Stream.raw_fits (stream : Stream) : stream.raw.Fits := by
  rw [RawStream.Fits,stream.raw_text,← Text.Utf8.length_encode]
  rfl

theorem Stream.raw_name_eq_iff (stream : Stream) (name : String) :
    stream.raw.name = Utf8.encode name ↔ stream.name = name := by
  refine ⟨fun same => ?_,fun same => congrArg Utf8.encode same⟩
  rw [← Text.Utf8.decodeLossy_encode name,← same,raw,Text.Utf8.decodeLossy_encode]

theorem Stream.Stands.raw {stream : Stream} (stands : stream.Stands bytes) : stream.raw.Stands bytes :=
  ⟨Text.Utf8.not_mem_encode stands.1,stands.2⟩

theorem HoldsRoot.holdsDirectory {root : Root} (stands : HoldsRoot bytes root) :
    HoldsDirectory bytes (root.streams.map Stream.raw) := by
  have holds := stands.directory
  simp only [Root.directory,holds_append,List.length_append,stands.head,stands.flags,Bytes.length_digits,
    Nat.reduceAdd,Nat.zero_add] at holds
  obtain ⟨⟨⟨⟨⟨⟨signature,-⟩,length⟩,-⟩,-⟩,count⟩,headers⟩ := holds
  have place : 16 + root.version.length + 2 = 18 + root.version.length := by omega
  rw [place] at headers count
  have same : (root.streams.map Stream.raw).flatMap RawStream.header = root.streams.flatMap Stream.header :=
    List.flatMap_map ..
  refine ⟨signature,?_,⟨root.version.length,stands.version,length,?_⟩,?_⟩
  · rw [List.length_map]
    exact stands.count
  · rw [List.length_map,same,holds_append,Bytes.length_digits]
    exact ⟨count,headers⟩
  · intro raw listed
    obtain ⟨stream,member,rfl⟩ := List.mem_map.mp listed
    exact (stands.streams stream member).raw

end Standard

/-- A root with one stream of tables and one of strings yields these two. -/
theorem streams_eq {root : Root} {tables strings : Stream} (stands : HoldsRoot bytes root)
    (one : root.streams.filter (fun stream => stream.name = "#~" ∨ stream.name = "#-") = [tables])
    (heap : root.streams.filter (·.name = "#Strings") = [strings]) :
    streams bytes = .ok ⟨tables.content.toByteArray,strings.content.toByteArray⟩ := by
  have left : (root.streams.map Stream.raw).filter (·.hasTables) = [tables.raw] := by
    rw [List.filter_map,← List.map_singleton,← one]
    refine congrArg _ (List.filter_congr fun stream _ => ?_)
    simp only [Function.comp_apply,RawStream.hasTables,Stream.raw_name_eq_iff]
  have right : (root.streams.map Stream.raw).filter (·.hasStrings) = [strings.raw] := by
    rw [List.filter_map,← List.map_singleton,← heap]
    refine congrArg _ (List.filter_congr fun stream _ => ?_)
    simp only [Function.comp_apply,RawStream.hasStrings,Stream.raw_name_eq_iff]
  have directory := stands.holdsDirectory
  refine streams_of_scan directory fun first holds => ?_
  have fits : ∀ raw ∈ root.streams.map Stream.raw, raw.Fits := by
    intro raw listed
    obtain ⟨stream,-,rfl⟩ := List.mem_map.mp listed
    exact stream.raw_fits
  have scanned := scanStreams_fitting stands.size directory.streams fits holds 0 {}
  rw [Nat.add_zero,found_of_one left right] at scanned
  exact scanned

end LoadMap.Metadata
