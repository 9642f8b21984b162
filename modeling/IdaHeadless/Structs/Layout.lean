import IdaHeadless.Structs.Lookup
import Mathlib.Data.List.Forall2

/-!
# Members and their bytes (handlers/structs.rs)

A member is laid out in bits. The handlers report it in bytes: the offset is rounded down and
the size is rounded up, each for itself.
-/

namespace IdaHeadless.Structs

open TypedInt

variable {db : Idb} {info : UdtInfo} {member : UdtMember} {addr : ℕ}

/-! ### The window of a member -/

/-- Every bit of the member lies in the bytes that are reported for it. -/
structure Covers (member : UdtMember) (m : StructMemberInfo) : Prop where
  start : m.offset * 8 ≤ member.offsetBits
  stop : member.offsetBits + member.sizeBits ≤ (m.offset + m.size) * 8

/-- The member needs one byte more than its size has: a member of whole bytes that does not
start with a byte, or one whose odd bits do not fit behind the bits before its start. -/
def Straddles (member : UdtMember) : Prop :=
  if member.sizeBits % 8 = 0 then member.offsetBits % 8 ≠ 0
  else 8 < member.offsetBits % 8 + member.sizeBits % 8

theorem byteOffset_le (member : UdtMember) : byteOffset member * 8 ≤ member.offsetBits := by
  unfold byteOffset
  omega

theorem covers_memberInfo_iff : Covers member (memberInfo member) ↔ ¬ Straddles member := by
  have hstop : member.offsetBits + member.sizeBits ≤ (byteOffset member + byteSize member) * 8 ↔
      ¬ Straddles member := by
    unfold byteOffset byteSize Straddles
    split
    · omega
    · omega
  constructor
  · intro h
    exact hstop.mp h.stop
  · intro h
    exact ⟨byteOffset_le member, hstop.mpr h⟩

/-! ### The bytes of a member -/

/-- Below the cap and the end of the address space, the bytes are the read of the window, and
the window itself where all of it is loaded. -/
def ReadsWindow (db : Idb) (addr : ℕ) (m : StructMemberValue) : Prop :=
  m.size ≤ 0x10000 → addr + m.offset + m.size ≤ 2 ^ 64 →
    m.bytes = hexEncode (db.getBytes (addr + m.offset) m.size) ∧
    ∀ window : List UInt8, window.length = m.size →
      (∀ i < m.size, db.byteAt (addr + m.offset + i) = window[i]?) → m.bytes = hexEncode window

theorem getBytes_zero (db : Idb) (a : ℕ) : db.getBytes a 0 = [] :=
  db.getBytes_window a [] (by simp)

theorem memberValue_bytes (hcap : byteSize member ≤ 0x10000)
    (hend : addr + byteOffset member + byteSize member ≤ 2 ^ 64) :
    (memberValue db addr member).bytes =
      hexEncode (db.getBytes (addr + byteOffset member) (byteSize member)) := by
  have hlen : readLen (byteSize member) = byteSize member := by
    unfold readLen
    split
    · omega
    · omega
  simp only [memberValue, hlen]
  by_cases hzero : byteSize member = 0
  · rw [if_pos hzero, hzero, getBytes_zero]
    rfl
  · rw [if_neg hzero]
    -- a window that is not empty starts before the end of the address space
    have hstart : min (addr + byteOffset member) (2 ^ 64 - 1) = addr + byteOffset member := by
      omega
    rw [hstart]

theorem readsWindow_memberValue : ReadsWindow db addr (memberValue db addr member) := by
  intro hcap hend
  have hbytes : (memberValue db addr member).bytes =
      hexEncode (db.getBytes (addr + byteOffset member) (byteSize member)) :=
    memberValue_bytes hcap hend
  refine ⟨hbytes, ?_⟩
  intro window hlen hwindow
  rw [hbytes]
  have hread := db.getBytes_window (addr + byteOffset member) window (by rwa [hlen])
  rw [hlen] at hread
  exact congrArg hexEncode hread

/-! ### The handlers -/

/-- The two handlers report every member of the structure, each with a window that holds all of
it, and the reader returns the bytes of that window. -/
structure CoversMembers (db : Idb) (info : UdtInfo) : Prop where
  structInfo : ∀ ordinal name, resolveUdt db ordinal name "struct_info" = .ok info →
    ∃ r, handleStructInfo (some db) ordinal name = .ok r ∧
      List.Forall₂ Covers (udtMembers db info) r.members
  readStruct : ∀ addr ordinal name, readTarget db addr ordinal name = .ok info →
    ∃ r, handleReadStruct (some db) addr ordinal name = .ok r ∧
      List.Forall₂ (fun member m => Covers member m.toStructMemberInfo ∧ ReadsWindow db addr m)
        (udtMembers db info) r.members

theorem handleStructInfo_members {ordinal : Option ℕ} {name : Option (List Char)}
    (h : resolveUdt db ordinal name "struct_info" = .ok info) :
    ∃ r, handleStructInfo (some db) ordinal name = .ok r ∧
      r.members = (udtMembers db info).map memberInfo := by
  simp only [handleStructInfo, Option.elim_some, bind, Except.bind, h]
  exact ⟨_, rfl, rfl⟩

theorem handleReadStruct_members {ordinal : Option ℕ} {name : Option (List Char)}
    (h : readTarget db addr ordinal name = .ok info) :
    ∃ r, handleReadStruct (some db) addr ordinal name = .ok r ∧
      r.members = (udtMembers db info).map (memberValue db addr) := by
  simp only [handleReadStruct, Option.elim_some, bind, Except.bind, h]
  exact ⟨_, rfl, rfl⟩

/-- The bytes of every member cover it exactly if none needs a byte more than its size has. -/
theorem members_covered_iff (db : Idb) (info : UdtInfo) (ord : ℕ)
    (hinfo : db.udtInfo ord = some info) :
    CoversMembers db info ↔ ∀ member ∈ udtMembers db info, ¬ Straddles member := by
  constructor
  · intro hcovers member hmember
    have hresolve : resolveUdt db (some ord) none "struct_info" = .ok info := by
      rw [resolveUdt, hinfo]
      rfl
    obtain ⟨r, hr, hall⟩ := hcovers.structInfo (some ord) none hresolve
    obtain ⟨r', hr', hmembers⟩ := handleStructInfo_members hresolve
    cases hr.symm.trans hr'
    rw [hmembers, List.forall₂_map_right_iff, List.forall₂_same] at hall
    exact covers_memberInfo_iff.mp (hall member hmember)
  · intro hfits
    constructor
    · intro ordinal name hresolve
      obtain ⟨r, hr, hmembers⟩ := handleStructInfo_members hresolve
      refine ⟨r, hr, ?_⟩
      rw [hmembers, List.forall₂_map_right_iff, List.forall₂_same]
      intro member hmember
      exact covers_memberInfo_iff.mpr (hfits member hmember)
    · intro addr ordinal name hread
      obtain ⟨r, hr, hmembers⟩ := handleReadStruct_members hread
      refine ⟨r, hr, ?_⟩
      rw [hmembers, List.forall₂_map_right_iff, List.forall₂_same]
      intro member hmember
      exact ⟨covers_memberInfo_iff.mpr (hfits member hmember), readsWindow_memberValue⟩

def flagsInfo : UdtInfo := ⟨1, "flags".toList, 4, false, 2⟩

/-- Seven bits, then two bits, packed into one word. -/
def flagsLibrary : Idb :=
  libraryOf [flagsInfo] fun _ idx =>
    [⟨"mode".toList, "int".toList, 0, 7, true⟩, ⟨"kind".toList, "int".toList, 7, 2, true⟩][idx]?

theorem straddling_member_cut :
    ((handleStructInfo (some flagsLibrary) (some 1) none).map fun r =>
        r.members.map fun m => (m.offsetBits, m.sizeBits, m.offset, m.size)) =
      .ok [(0, 7, 0, 1), (7, 2, 0, 1)] ∧
    ¬ 7 + 2 ≤ (0 + 1) * 8 ∧ ¬ CoversMembers flagsLibrary flagsInfo := by
  refine ⟨by rfl, by decide, ?_⟩
  intro hcovers
  obtain ⟨r, hr, hall⟩ := hcovers.structInfo (some 1) none rfl
  cases hr
  cases hall with
  | cons _ htail =>
    cases htail with
    | cons hkind _ => exact absurd hkind.stop (by decide)

def pointInfo : UdtInfo := ⟨1, "point".toList, 8, false, 2⟩

def pointLibrary : Idb :=
  libraryOf [pointInfo] fun _ idx =>
    [⟨"x".toList, "int".toList, 0, 32, false⟩, ⟨"y".toList, "int".toList, 32, 32, false⟩][idx]?

theorem members_covered_point : CoversMembers pointLibrary pointInfo := by
  apply (members_covered_iff pointLibrary pointInfo 1 rfl).mpr
  intro member hmember
  have hmembers : member = ⟨"x".toList, "int".toList, 0, 32, false⟩ ∨
      member = ⟨"y".toList, "int".toList, 32, 32, false⟩ := by
    simpa [udtMembers, pointInfo, pointLibrary, libraryOf, List.range_succ] using hmember
  rcases hmembers with rfl | rfl
  · exact fun h => h rfl
  · exact fun h => h rfl

end IdaHeadless.Structs
