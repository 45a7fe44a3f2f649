import LoadMap.Proofs.Bytes.Range
import LoadMap.Proofs.Metadata.Standard

/-! The directory of streams, whatever bytes the names are. Where a header ends is told from its name as it was read,
and a name that is no text is read longer than it is: when its padding has no room for the difference, the headers
behind it are missed. -/
namespace LoadMap.Metadata

open Bytes (Holds digits holds_append Addressable)
open Text (Utf8.encode Utf8.decodeLossy)

namespace Standard

/-- A stream whose name is any bytes. -/
structure RawStream where
  name : List UInt8
  offset : Nat
  content : List UInt8

namespace RawStream

variable (stream : RawStream)

def header : List UInt8 :=
  digits 4 stream.offset ++ digits 4 stream.content.length ++ stream.name ++
    List.replicate (4 - stream.name.length % 4) 0

/-- The stream lies in the bytes, and its name has no zero. -/
def Stands (bytes : ByteArray) : Prop :=
  0 ∉ stream.name ∧ stream.offset < 2 ^ 32 ∧ stream.content.length < 2 ^ 32 ∧
    Holds bytes stream.offset stream.content

instance (bytes : ByteArray) : Decidable (stream.Stands bytes) := inferInstanceAs (Decidable (_ ∧ _))

def text : String := Utf8.decodeLossy stream.name

/-- The name as it was read fills as many words as it does. -/
def Fits : Prop := stream.text.utf8ByteSize / 4 = stream.name.length / 4

instance : Decidable stream.Fits := inferInstanceAs (Decidable (_ = _))

def hasTables : Bool := stream.name = Utf8.encode "#~" ∨ stream.name = Utf8.encode "#-"

def hasStrings : Bool := stream.name = Utf8.encode "#Strings"

end RawStream

/-- A metadata root as far as its streams go: the signature, behind a version of any length the number of streams and
their headers, and the streams somewhere. -/
structure HoldsDirectory (bytes : ByteArray) (streams : List RawStream) : Prop where
  signature : Holds bytes 0 (digits 4 0x424A5342)
  count : streams.length < 2 ^ 16
  directory : ∃ version < 2 ^ 32, Holds bytes 12 (digits 4 version) ∧
    Holds bytes (18 + version) (digits 2 streams.length ++ streams.flatMap RawStream.header)
  streams : ∀ stream ∈ streams, stream.Stands bytes

end Standard

open Standard (RawStream HoldsDirectory)

variable {bytes : ByteArray} {header : Nat} {stream : RawStream} {streams front : List RawStream}

def Found.add (found : Found) (stream : RawStream) : Found := found.note stream.text stream.content.toByteArray

section Scan

theorem paddedLength_of_fits (header : Nat) (fits : stream.Fits) :
    header + 8 + paddedLength stream.text = header + stream.header.length := by
  have words : stream.text.utf8ByteSize / 4 = stream.name.length / 4 := fits
  rw [paddedLength,RawStream.header]
  simp only [List.length_append,Bytes.length_digits,List.length_replicate]
  omega

theorem cString_name (holds : Holds bytes header stream.header) (free : 0 ∉ stream.name) :
    Bytes.cString bytes (header + 8) = .ok stream.text := by
  obtain ⟨zeros,padded⟩ : ∃ zeros, 4 - stream.name.length % 4 = zeros + 1 :=
    ⟨3 - stream.name.length % 4,by omega⟩
  rw [RawStream.header,List.append_assoc,padded,List.replicate_succ,← List.singleton_append,← List.append_assoc
    stream.name] at holds
  have named := (holds_append.mp holds).2
  rw [List.length_append,Bytes.length_digits,Bytes.length_digits] at named
  exact (holds_append.mp named).1.cString free

theorem scanStreams_header (holds : Holds bytes header stream.header) (stands : stream.Stands bytes)
    (room : header + 8 + paddedLength stream.text < Word.limit 64) (count : Nat) (found : Found) :
    scanStreams bytes (count + 1) header found =
      scanStreams bytes count (header + 8 + paddedLength stream.text) (found.add stream) := by
  obtain ⟨free,low,short,content⟩ := stands
  have named := cString_name holds free
  rw [RawStream.header,List.append_assoc] at holds
  obtain ⟨offset,length⟩ := holds_append.mp (holds_append.mp holds).1
  rw [Bytes.length_digits] at length
  have limit := Word.limit_64
  have size : Bytes.sum header 4 = .ok (header + 4) := Bytes.sum_eq_ok_iff.mpr ⟨by omega,rfl⟩
  have name : Bytes.sum header 8 = .ok (header + 8) := Bytes.sum_eq_ok_iff.mpr ⟨by omega,rfl⟩
  have stop : Bytes.sum stream.offset stream.content.length = .ok (stream.offset + stream.content.length) :=
    Bytes.sum_eq_ok_iff.mpr ⟨by omega,rfl⟩
  have next : Bytes.sum (header + 8) (paddedLength stream.text) = .ok (header + 8 + paddedLength stream.text) :=
    Bytes.sum_eq_ok_iff.mpr ⟨room,rfl⟩
  rw [scanStreams]
  simp only [Bytes.u32,offset.number low,size,length.number short,name,named,stop,content.block?,next,bind,Except.bind]
  rfl

theorem scanStreams_fitting (small : bytes.size < Word.limit 64) (stand : ∀ stream ∈ front, stream.Stands bytes)
    (fits : ∀ stream ∈ front, stream.Fits) (holds : Holds bytes header (front.flatMap RawStream.header)) (count : Nat)
    (found : Found) : scanStreams bytes (front.length + count) header found =
      scanStreams bytes count (header + (front.flatMap RawStream.header).length) (front.foldl Found.add found) := by
  -- By induction on the headers: that a name fits puts the next header where it is looked for.
  induction front generalizing header found with
  | nil =>
    rw [List.length_nil,Nat.zero_add]
    rfl
  | cons stream rest ih =>
    obtain ⟨here,others⟩ := List.forall_mem_cons.mp stand
    obtain ⟨fit,fitting⟩ := List.forall_mem_cons.mp fits
    obtain ⟨first,there⟩ := holds_append.mp (List.flatMap_cons ▸ holds)
    have inside := first.inside
    have next := paddedLength_of_fits header fit
    rw [List.length_cons,Nat.succ_add,scanStreams_header first here (by omega),next,ih others fitting there,
      List.flatMap_cons,List.length_append,Nat.add_assoc]
    rfl

end Scan

section Found

theorem text_eq_iff {name : String} (ascii : name.toList.all fun char => 0 < char.toNat && char.toNat < 128) :
    stream.text = name ↔ stream.name = Utf8.encode name := by
  refine Text.Utf8.decodeLossy_eq_iff fun char listed => ?_
  simpa using List.all_eq_true.mp ascii char listed

theorem tables?_note (found : Found) (name : String) (content : ByteArray) : (found.note name content).tables? =
    if name = "#~" ∨ name = "#-" then some content else found.tables? := by
  rw [Found.note]
  split
  · rfl
  · split <;> rfl

theorem strings?_note (found : Found) (name : String) (content : ByteArray) : (found.note name content).strings? =
    if name = "#Strings" then some content else found.strings? := by
  rw [Found.note]
  split
  · rename_i tables
    rw [if_neg (by rcases tables with rfl | rfl <;> decide)]
  · split <;> rfl

/-- Of the streams with one purpose the last counts. -/
theorem foldl_note {α : Type} {note : Found → α → Found} (view : Found → Option ByteArray) {purpose : α → Bool}
    {content : α → ByteArray}
    (step : ∀ found stream, view (note found stream) = if purpose stream then some (content stream) else view found)
    (streams : List α) (found : Found) :
    view (streams.foldl note found) = ((streams.filter purpose).getLast?.map content).or (view found) := by
  induction streams generalizing found with
  | nil => rfl
  | cons stream rest ih =>
    rw [List.foldl_cons,ih,step]
    cases serves : purpose stream with
    | true =>
      rw [List.filter_cons_of_pos serves,List.getLast?_cons]
      cases (rest.filter purpose).getLast? <;> rfl
    | false =>
      rw [List.filter_cons_of_neg (by simp [serves])]
      rfl

theorem tables?_add (found : Found) (stream : RawStream) : (found.add stream).tables? =
    if stream.hasTables then some stream.content.toByteArray else found.tables? := by
  have tables : stream.hasTables = (stream.text = "#~" ∨ stream.text = "#-" : Bool) := by
    rw [RawStream.hasTables,decide_eq_decide,text_eq_iff (by decide),text_eq_iff (by decide)]
  rw [Found.add,tables?_note,tables]
  simp only [decide_eq_true_eq]

theorem strings?_add (found : Found) (stream : RawStream) : (found.add stream).strings? =
    if stream.hasStrings then some stream.content.toByteArray else found.strings? := by
  have strings : stream.hasStrings = (stream.text = "#Strings" : Bool) := by
    rw [RawStream.hasStrings,decide_eq_decide,text_eq_iff (by decide)]
  rw [Found.add,strings?_note,strings]
  simp only [decide_eq_true_eq]

theorem found_of_one {tables strings : RawStream} (one : streams.filter (·.hasTables) = [tables])
    (heap : streams.filter (·.hasStrings) = [strings]) :
    streams.foldl Found.add {} = ⟨some tables.content.toByteArray,some strings.content.toByteArray⟩ := by
  have left := foldl_note Found.tables? tables?_add streams {}
  have right := foldl_note Found.strings? strings?_add streams {}
  rw [one] at left
  rw [heap] at right
  cases made : streams.foldl Found.add {} with
  | mk tables? strings? =>
    rw [made] at left right
    exact congrArg₂ Found.mk left right

theorem streams_of_scan (stands : HoldsDirectory bytes streams) {tables strings : ByteArray}
    (scanned : ∀ first, Holds bytes first (streams.flatMap RawStream.header) →
      scanStreams bytes streams.length first {} = .ok ⟨some tables,some strings⟩) :
    Metadata.streams bytes = .ok ⟨tables,strings⟩ := by
  obtain ⟨version,low,length,holds⟩ := stands.directory
  obtain ⟨count,headers⟩ := holds_append.mp holds
  rw [Bytes.length_digits] at headers
  have limit := Word.limit_64
  have directory : Bytes.sum 16 version = .ok (16 + version) := Bytes.sum_eq_ok_iff.mpr ⟨by omega,rfl⟩
  have countPlace : Bytes.sum (16 + version) 2 = .ok (18 + version) :=
    Bytes.sum_eq_ok_iff.mpr ⟨by omega,by omega⟩
  have first : Bytes.sum (16 + version) 4 = .ok (18 + version + 2) :=
    Bytes.sum_eq_ok_iff.mpr ⟨by omega,by omega⟩
  have known : (0x424A5342 : Nat) = rootSignature := rfl
  rw [Metadata.streams]
  simp only [Bytes.u32,Bytes.u16,stands.signature.number (show 0x424A5342 < 256 ^ 4 by decide),length.number low,
    directory,countPlace,count.number stands.count,first,scanned _ headers,bind,Except.bind,known,if_true]
  rfl

end Found

/-- A root yields its stream of tables and its stream of strings, whatever the other streams are called and whatever
their order, as long as each name, but for the last, is read as a text that fills as many words. -/
theorem streams_of_directory (stands : HoldsDirectory bytes streams) (whole : Addressable bytes)
    {tables strings : RawStream} (one : streams.filter (·.hasTables) = [tables])
    (heap : streams.filter (·.hasStrings) = [strings]) (fits : ∀ stream ∈ streams.dropLast, stream.Fits) :
    Metadata.streams bytes = .ok ⟨tables.content.toByteArray,strings.content.toByteArray⟩ := by
  refine streams_of_scan stands fun first holds => ?_
  rw [← found_of_one one heap]
  rcases List.eq_nil_or_concat streams with rfl | ⟨front,last,rfl⟩
  · rfl
  rw [List.concat_eq_append] at holds fits ⊢
  have stand := stands.streams
  rw [List.concat_eq_append,List.forall_mem_append] at stand
  rw [List.dropLast_concat] at fits
  rw [List.flatMap_append,List.flatMap_singleton] at holds
  obtain ⟨headers,header⟩ := holds_append.mp holds
  have lastStands := stand.2 last (List.mem_singleton.mpr rfl)
  -- The last name may be read as anything: what would stand behind it is not looked for.
  have text := whole.texts _ _ (cString_name header lastStands.1)
  have file := whole.file
  have inside := header.inside
  have limits : Word.limit 64 = 2 * Word.limit 63 := rfl
  have room : first + (front.flatMap RawStream.header).length + 8 + paddedLength last.text < Word.limit 64 := by
    rw [RawStream.header] at inside
    simp only [List.length_append,Bytes.length_digits,List.length_replicate] at inside
    rw [paddedLength]
    omega
  rw [List.length_append,List.length_singleton,
    scanStreams_fitting (Nat.lt_of_lt_of_le file (by omega)) stand.1 fits headers,
    scanStreams_header header lastStands room,List.foldl_append]
  rfl

section Odd

def oddTables : List UInt8 :=
  [0,0,0,0,2,0,0,1] ++ digits 8 (2 ^ 0x1A) ++ digits 8 0 ++ digits 4 1 ++ digits 2 1

def oddHeap : List UInt8 := [0] ++ Utf8.encode "a.dll" ++ [0]

/-- The two streams that count, between two that are empty, with names of fewer than four bytes. -/
def oddStreams (first last : List UInt8) : List RawStream :=
  [⟨first,80,[]⟩,⟨Utf8.encode "#~",80,oddTables⟩,⟨Utf8.encode "#Strings",110,oddHeap⟩,⟨last,80,[]⟩]

def oddBytes (first last : List UInt8) : ByteArray :=
  ⟨(digits 4 0x424A5342 ++ [1,0,1,0,0,0,0,0] ++ digits 4 4 ++ Utf8.encode "v4.0" ++ [0,0] ++ digits 2 4 ++
    (oddStreams first last).flatMap RawStream.header ++ oddTables ++ oddHeap).toArray⟩

theorem streams_of_directory_odd : HoldsDirectory (oddBytes [0xFF] [0xFF,0xFF]) (oddStreams [0xFF] [0xFF,0xFF]) ∧
    Metadata.streams (oddBytes [0xFF] [0xFF,0xFF]) = .ok ⟨oddTables.toByteArray,oddHeap.toByteArray⟩ := by
  have stands : HoldsDirectory (oddBytes [0xFF] [0xFF,0xFF]) (oddStreams [0xFF] [0xFF,0xFF]) :=
    ⟨by decide +kernel,by decide,⟨4,by decide,by decide +kernel,by decide +kernel⟩,by decide +kernel⟩
  have whole : Addressable (oddBytes [0xFF] [0xFF,0xFF]) := Bytes.addressable_of_small (by decide +kernel)
  exact ⟨stands,streams_of_directory stands whole rfl rfl (by decide +kernel)⟩

/-- A name of two bytes that are no text is read as one of six, and the next header is missed. -/
theorem odd_name_misleads : HoldsDirectory (oddBytes [0xFF,0xFF] [0x23]) (oddStreams [0xFF,0xFF] [0x23]) ∧
    Addressable (oddBytes [0xFF,0xFF] [0x23]) ∧
    (oddStreams [0xFF,0xFF] [0x23]).filter (·.hasTables) = [⟨Utf8.encode "#~",80,oddTables⟩] ∧
    (oddStreams [0xFF,0xFF] [0x23]).filter (·.hasStrings) = [⟨Utf8.encode "#Strings",110,oddHeap⟩] ∧
    Metadata.streams (oddBytes [0xFF,0xFF] [0x23]) = .error (.streamOutOfBounds "n") := by
  have stands : HoldsDirectory (oddBytes [0xFF,0xFF] [0x23]) (oddStreams [0xFF,0xFF] [0x23]) :=
    ⟨by decide +kernel,by decide,⟨4,by decide,by decide +kernel,by decide +kernel⟩,by decide +kernel⟩
  have fault : (match Metadata.streams (oddBytes [0xFF,0xFF] [0x23]) with
      | .ok _ => none
      | .error fault => some fault) = some (.streamOutOfBounds "n") := by decide +kernel
  refine ⟨stands,Bytes.addressable_of_small (by decide +kernel),rfl,rfl,?_⟩
  cases read : Metadata.streams (oddBytes [0xFF,0xFF] [0x23]) with
  | ok found =>
    rw [read] at fault
    cases fault
  | error other =>
    rw [read] at fault
    rw [Option.some.inj fault]

end Odd

end LoadMap.Metadata
