import IdaHeadless.Overlay
import IdaHeadless.Readers
import IdaHeadless.Symbols

/-!
# Edits of the memory (handlers/memory.rs)

`put_int`, `patch` and `patch_asm` write bytes at an address, which the last two may be given as a
name and an offset. Many of them, some of which fail, come one after another; `get_bytes` and
`get_int` read in between. The memory is then that of the writes which succeeded, the last one at
each address on top.
-/

namespace IdaHeadless.Edits

open Overlay Readers TypedInt

/-! ### The database -/

/-- What the edits use of idalib besides: its symbols and its assembler. A patch changes the bytes
that it covers, where bytes are loaded, and no others. -/
structure Editable (σ : Type) extends Memory σ where
  symbols : σ → Symbols.Idb
  assembleLine : σ → ℕ → List Char → Except String (List UInt8)
  byteAt_patch : ∀ db addr bytes db', patchBytes db addr bytes = .ok db' → ∀ a,
    (byteAt db a).isSome = true → byteAt db' a = write (byteAt db) (addr, bytes) a

variable {σ : Type} {lib : Editable σ} {db db' : σ} {addr a : ℕ} {bytes : List UInt8}

/-! ### The handlers -/

/- `u64::checked_add_signed`. -/
def checkedAddSigned (base : ℕ) (offset : Int) : Option ℕ :=
  if 0 ≤ (base : Int) + offset ∧ (base : Int) + offset < 2 ^ 64 then
    some ((base : Int) + offset).toNat
  else none

def resolveAddress (lib : Editable σ) (db : σ) (addr : Option ℕ) (name : Option (List Char))
    (offset : Int) : Except ToolError ℕ := do
  let base ← match addr with
    | some addr => .ok addr
    | none =>
      match name with
      | some name => Symbols.resolveAddressByName (some (lib.symbols db)) name
      | none => .error (.invalidParams "expected address or name")
  (checkedAddSigned base offset).elim
    (.error (.invalidParams ("offset " ++ toString offset ++
      " produces an out-of-range address from base " ++ hexAddr base))) .ok

structure BytesResult where
  address : String
  bytes : List Char
  length : ℕ

def handleGetBytes (lib : Editable σ) (idb : Option σ) (addr : Option ℕ)
    (name : Option (List Char)) (offset : Int) (size : ℕ) : Except ToolError BytesResult := do
  let db ← idb.elim (.error .noDatabaseOpen) .ok
  let addr ← resolveAddress lib db addr name offset
  let bytes := lib.getBytes db addr (min size 0x10000)
  .ok ⟨hexAddr addr, hexEncode bytes, bytes.length⟩

structure PatchResult where
  address : String
  length : ℕ

def handlePatchBytes (lib : Editable σ) (idb : Option σ) (addr : Option ℕ)
    (name : Option (List Char)) (offset : Int) (bytes : List UInt8) :
    Except ToolError (σ × PatchResult) := do
  let db ← idb.elim (.error .noDatabaseOpen) .ok
  let addr ← resolveAddress lib db addr name offset
  let db ← lib.patchBytes db addr bytes
  .ok (db, ⟨hexAddr addr, bytes.length⟩)

structure PatchAsmResult where
  address : String
  line : List Char
  length : ℕ
  bytes : List Char

def handlePatchAsm (lib : Editable σ) (idb : Option σ) (addr : Option ℕ)
    (name : Option (List Char)) (offset : Int) (line : List Char) :
    Except ToolError (σ × PatchAsmResult) := do
  let db ← idb.elim (.error .noDatabaseOpen) .ok
  let addr ← resolveAddress lib db addr name offset
  let bytes ← (lib.assembleLine db addr line).mapError .idaError
  let db ← lib.patchBytes db addr bytes
  .ok (db, ⟨hexAddr addr, line, bytes.length,
    List.intercalate [' '] (bytes.map Radix.lowerByte)⟩)

/-! ### Runs of edits -/

inductive Edit where
  | putInt (addr : ℕ) (spec : IntSpec) (value : Int)
  | patchBytes (addr : Option ℕ) (name : Option (List Char)) (offset : Int) (bytes : List UInt8)
  | patchAsm (addr : Option ℕ) (name : Option (List Char)) (offset : Int) (line : List Char)

def Edit.handle (lib : Editable σ) (db : σ) : Edit → Except ToolError σ
  | .putInt addr spec value =>
    (handlePutInt lib.toIdalib (some db) addr spec value).map Prod.fst
  | .patchBytes addr name offset bytes =>
    (handlePatchBytes lib (some db) addr name offset bytes).map Prod.fst
  | .patchAsm addr name offset line =>
    (handlePatchAsm lib (some db) addr name offset line).map Prod.fst

/- An edit that fails has patched nothing. -/
def Edit.apply (lib : Editable σ) (db : σ) (edit : Edit) : σ :=
  match edit.handle lib db with
  | .ok db' => db'
  | .error _ => db

def applyAll (lib : Editable σ) (db : σ) (edits : List Edit) : σ := edits.foldl (Edit.apply lib) db

/-- The address and the bytes that an edit means to write. -/
def Edit.means (lib : Editable σ) (db : σ) : Edit → Except ToolError (ℕ × List UInt8)
  | .putInt addr spec value => (spec.encode value (lib.isBe db)).map fun bytes => (addr, bytes)
  | .patchBytes addr name offset bytes =>
    (resolveAddress lib db addr name offset).map fun addr => (addr, bytes)
  | .patchAsm addr name offset line => do
    let addr ← resolveAddress lib db addr name offset
    let bytes ← (lib.assembleLine db addr line).mapError .idaError
    .ok (addr, bytes)

/-- The writes of the edits that succeed, in their order. -/
def journal (lib : Editable σ) : σ → List Edit → List (ℕ × List UInt8)
  | _, [] => []
  | db, edit :: edits =>
    match edit.handle lib db, edit.means lib db with
    | .ok db', .ok w => w :: journal lib db' edits
    | _, _ => journal lib db edits

/-! ### One edit -/

variable {edit : Edit} {edits : List Edit} {w : ℕ × List UInt8}

/-- An edit that succeeds has patched what it means to write. -/
theorem handle_ok (h : edit.handle lib db = .ok db') :
    ∃ w, edit.means lib db = .ok w ∧ lib.patchBytes db w.1 w.2 = .ok db' := by
  cases edit with
  | putInt addr spec value =>
    rw [Edit.handle] at h
    cases hput : handlePutInt lib.toIdalib (some db) addr spec value with
    | error e =>
      rw [hput] at h
      cases h
    | ok r =>
      obtain ⟨db'', out⟩ := r
      rw [hput] at h
      cases h
      obtain ⟨bytes, hencode, hpatch⟩ := handlePutInt_ok hput
      exact ⟨(addr, bytes), by rw [Edit.means, hencode]; rfl, hpatch⟩
  | patchBytes addr name offset bytes =>
    simp only [Edit.handle, handlePatchBytes, Option.elim_some, bind, Except.bind] at h
    cases haddr : resolveAddress lib db addr name offset with
    | error e => simp [haddr, Except.map] at h
    | ok base =>
      cases hpatch : lib.patchBytes db base bytes with
      | error e => simp [haddr, hpatch, Except.map] at h
      | ok db'' =>
        simp only [haddr, hpatch, Except.map, Except.ok.injEq] at h
        exact ⟨(base, bytes), by rw [Edit.means, haddr]; rfl, by rw [hpatch, h]⟩
  | patchAsm addr name offset line =>
    simp only [Edit.handle, handlePatchAsm, Option.elim_some, bind, Except.bind] at h
    cases haddr : resolveAddress lib db addr name offset with
    | error e => simp [haddr, Except.map] at h
    | ok base =>
      cases hline : lib.assembleLine db base line with
      | error e => simp [haddr, hline, Except.map, Except.mapError] at h
      | ok bytes =>
        cases hpatch : lib.patchBytes db base bytes with
        | error e => simp [haddr, hline, hpatch, Except.map, Except.mapError] at h
        | ok db'' =>
          simp only [haddr, hline, hpatch, Except.map, Except.mapError, Except.ok.injEq] at h
          refine ⟨(base, bytes), ?_, by rw [hpatch, h]⟩
          simp only [Edit.means, haddr, hline, bind, Except.bind, Except.mapError]

theorem means_putInt {spec : IntSpec} {value : Int}
    (h : (Edit.putInt addr spec value).means lib db = .ok w) :
    ∃ bytes, spec.encode value (lib.isBe db) = .ok bytes ∧ w = (addr, bytes) := by
  rw [Edit.means] at h
  cases hencode : spec.encode value (lib.isBe db) with
  | error e =>
    rw [hencode] at h
    cases h
  | ok bytes =>
    rw [hencode] at h
    exact ⟨bytes, rfl, (Except.ok.inj h).symm⟩

/-! ### Many edits -/

theorem journal_cons (h : edit.handle lib db = .ok db') (hw : edit.means lib db = .ok w) :
    journal lib db (edit :: edits) = w :: journal lib db' edits := by
  simp only [journal, h, hw]

theorem journal_failed {e : ToolError} (h : edit.handle lib db = .error e) :
    journal lib db (edit :: edits) = journal lib db edits := by
  simp only [journal, h]

theorem applyAll_cons (h : edit.handle lib db = .ok db') :
    applyAll lib db (edit :: edits) = applyAll lib db' edits := by
  rw [applyAll, List.foldl_cons, Edit.apply, h]
  rfl

theorem applyAll_failed {e : ToolError} (h : edit.handle lib db = .error e) :
    applyAll lib db (edit :: edits) = applyAll lib db edits := by
  rw [applyAll, List.foldl_cons, Edit.apply, h]
  rfl

theorem journal_append (before after : List Edit) : journal lib db (before ++ after) =
    journal lib db before ++ journal lib (applyAll lib db before) after := by
  induction before generalizing db with
  | nil => rfl
  | cons edit before ih =>
    rw [List.cons_append]
    cases hedit : edit.handle lib db with
    | error e => rw [journal_failed hedit, journal_failed hedit, applyAll_failed hedit, ih]
    | ok db' =>
      obtain ⟨w, hmeans, -⟩ := handle_ok hedit
      rw [journal_cons hedit hmeans, journal_cons hedit hmeans, applyAll_cons hedit, ih,
        List.cons_append]

theorem applyAll_append (before after : List Edit) :
    applyAll lib db (before ++ after) = applyAll lib (applyAll lib db before) after :=
  List.foldl_append

/-- What is loaded stays loaded, and reads as the writes have left it. -/
theorem edits_replayed (db : σ) (edits : List Edit) (h : (lib.byteAt db a).isSome = true) :
    (lib.byteAt (applyAll lib db edits) a).isSome = true ∧
      lib.byteAt (applyAll lib db edits) a = replay (lib.byteAt db) (journal lib db edits) a := by
  induction edits generalizing db with
  | nil => exact ⟨h, rfl⟩
  | cons edit edits ih =>
    cases hedit : edit.handle lib db with
    | error e =>
      rw [journal_failed hedit, applyAll_failed hedit]
      exact ih db h
    | ok db' =>
      obtain ⟨w, hmeans, hpatch⟩ := handle_ok hedit
      have hbyte := lib.byteAt_patch db w.1 w.2 db' hpatch a h
      have hsome : (lib.byteAt db' a).isSome = true := by
        rw [hbyte]
        exact isSome_write h
      obtain ⟨hloaded, hrest⟩ := ih db' hsome
      rw [journal_cons hedit hmeans, applyAll_cons hedit]
      exact ⟨hloaded, hrest.trans (replay_congr hbyte)⟩

theorem isBe_applyAll : lib.isBe (applyAll lib db edits) = lib.isBe db := by
  induction edits generalizing db with
  | nil => rfl
  | cons edit edits ih =>
    cases hedit : edit.handle lib db with
    | error e => rw [applyAll_failed hedit, ih]
    | ok db' =>
      obtain ⟨w, -, hpatch⟩ := handle_ok hedit
      rw [applyAll_cons hedit, ih, lib.isBe_patch db w.1 w.2 db' hpatch]

theorem checkedAddSigned_zero (haddr : addr < 2 ^ 64) :
    checkedAddSigned addr 0 = some addr := by
  rw [checkedAddSigned, Int.add_zero, if_pos ⟨Int.natCast_nonneg addr, by exact_mod_cast haddr⟩,
    Int.toNat_natCast]

theorem resolveAddress_some (name : Option (List Char)) (offset : Int) :
    resolveAddress lib db (some addr) name offset =
      (checkedAddSigned addr offset).elim
        (.error (.invalidParams ("offset " ++ toString offset ++
          " produces an out-of-range address from base " ++ hexAddr addr))) .ok := rfl

theorem handleGetBytes_resolved {name : Option (List Char)} {start : Option ℕ} {offset : Int}
    {size : ℕ} (h : resolveAddress lib db start name offset = .ok addr)
    (hread : lib.getBytes db addr (min size 0x10000) = bytes) :
    handleGetBytes lib (some db) start name offset size =
      .ok ⟨hexAddr addr, hexEncode bytes, bytes.length⟩ := by
  simp only [handleGetBytes, Option.elim_some, bind, Except.bind, h, hread]

/- `get_bytes` shows what the writes have left, as far as it was loaded. -/
theorem loaded_replayed (hloaded : ∀ i < bytes.length, (lib.byteAt db (addr + i)).isSome = true)
    (hbytes : ∀ i b, bytes[i]? = some b →
      replay (lib.byteAt db) (journal lib db edits) (addr + i) = some b) :
    Loaded (lib.byteAt (applyAll lib db edits)) addr bytes := by
  intro i b hb
  have hi : i < bytes.length := (List.getElem?_eq_some_iff.mp hb).1
  rw [(edits_replayed db edits (hloaded i hi)).2, hbytes i b hb]

theorem getBytes_replayed (haddr : addr < 2 ^ 64) (hsize : bytes.length ≤ 0x10000)
    (hloaded : ∀ i < bytes.length, (lib.byteAt db (addr + i)).isSome = true)
    (hbytes : ∀ i b, bytes[i]? = some b →
      replay (lib.byteAt db) (journal lib db edits) (addr + i) = some b) :
    handleGetBytes lib (some (applyAll lib db edits)) (some addr) none 0 bytes.length =
      .ok ⟨hexAddr addr, hexEncode bytes, bytes.length⟩ := by
  have hthere : Loaded (lib.byteAt (applyAll lib db edits)) addr bytes :=
    loaded_replayed hloaded hbytes
  refine handleGetBytes_resolved ?_ ?_
  · rw [resolveAddress_some, checkedAddSigned_zero haddr, Option.elim_some]
  · rw [Nat.min_eq_left hsize, lib.getBytes_loaded _ addr bytes hthere]

/-! ### What an integer is afterwards -/

theorem getInt_after_put {before after : List Edit} {spec : IntSpec} {value : Int}
    (hput : (Edit.putInt addr spec value).handle lib (applyAll lib db before) = .ok db')
    (hloaded : ∀ i < spec.width.bytes, (lib.byteAt db (addr + i)).isSome = true)
    (hafter : ∀ w ∈ journal lib db' after, ∀ i < spec.width.bytes, ¬ Touches w (addr + i)) :
    ∃ out, handleGetInt lib.toIdalib
        (some (applyAll lib db (before ++ .putInt addr spec value :: after))) addr spec =
          .ok out ∧ out.value = toString value := by
  have hfinal : applyAll lib db (before ++ .putInt addr spec value :: after) =
      applyAll lib db' after := by
    rw [applyAll_append, applyAll, List.foldl_cons, Edit.apply, hput]
    rfl
  obtain ⟨w, hmeans, hpatch⟩ := handle_ok hput
  obtain ⟨bytes, hencode, rfl⟩ := means_putInt hmeans
  have hwrites : journal lib db (before ++ .putInt addr spec value :: after) =
      journal lib db before ++ (addr, bytes) :: journal lib db' after := by
    rw [journal_append, journal_cons hput hmeans]
  have hlength := length_of_encode hencode
  -- The put is the last write that reaches the bytes of the integer.
  have hthere : Loaded (lib.byteAt (applyAll lib db' after)) addr bytes := by
    rw [← hfinal]
    refine loaded_replayed (fun i hi => hloaded i (by omega)) fun i b hb => ?_
    have hi : i < bytes.length := (List.getElem?_eq_some_iff.mp hb).1
    have htouched : Touches (addr, bytes) (addr + i) :=
      ⟨Nat.le_add_right addr i, Nat.add_lt_add_left hi addr⟩
    rw [hwrites, replay_last htouched fun x hx => hafter x hx i (by omega),
      Nat.add_sub_cancel_left, hb]
  have hread := lib.getBytes_loaded _ addr bytes hthere
  rw [hlength] at hread
  have hbe : lib.isBe (applyAll lib db' after) = lib.isBe (applyAll lib db before) :=
    isBe_applyAll.trans (lib.isBe_patch _ addr bytes db' hpatch)
  have hdecode : spec.decode bytes (lib.isBe (applyAll lib db' after)) = .ok value := by
    rw [hbe]
    exact decode_encode hencode
  rw [hfinal]
  simp only [handleGetInt, Option.elim_some, bind, Except.bind, hread, hdecode]
  exact ⟨_, rfl, rfl⟩

/-- After any edits, failed ones among them, each loaded address has the byte of the last write
that reached it, and `get_bytes` shows these bytes. An integer that was put reads back as long as
none of the writes after it has reached one of its bytes. -/
theorem int_survives_edits (lib : Editable σ) (db : σ) :
    (∀ edits a, (lib.byteAt db a).isSome = true →
      lib.byteAt (applyAll lib db edits) a =
        replay (lib.byteAt db) (journal lib db edits) a) ∧
    (∀ edits addr (bytes : List UInt8), addr < 2 ^ 64 → bytes.length ≤ 0x10000 →
      (∀ i < bytes.length, (lib.byteAt db (addr + i)).isSome = true) →
      (∀ i b, bytes[i]? = some b →
        replay (lib.byteAt db) (journal lib db edits) (addr + i) = some b) →
      handleGetBytes lib (some (applyAll lib db edits)) (some addr) none 0 bytes.length =
        .ok ⟨hexAddr addr, hexEncode bytes, bytes.length⟩) ∧
    ∀ db' before after addr (spec : IntSpec) value,
      (Edit.putInt addr spec value).handle lib (applyAll lib db before) = .ok db' →
      (∀ i < spec.width.bytes, (lib.byteAt db (addr + i)).isSome = true) →
      (∀ w ∈ journal lib db' after, ∀ i < spec.width.bytes, ¬ Touches w (addr + i)) →
      ∃ out, handleGetInt lib.toIdalib
          (some (applyAll lib db (before ++ .putInt addr spec value :: after))) addr spec =
            .ok out ∧ out.value = toString value := by
  refine ⟨?_, ?_, ?_⟩
  · intro edits a ha
    exact (edits_replayed db edits ha).2
  · intro edits addr bytes haddr hsize hloaded hbytes
    exact getBytes_replayed haddr hsize hloaded hbytes
  · intro db' before after addr spec value hput hloaded hafter
    exact getInt_after_put hput hloaded hafter

/-- All of the memory is loaded, there is one symbol, and `nop` assembles. -/
def flatEditable : Editable (Bool × (ℕ → UInt8)) where
  toMemory := flatReaders
  symbols := fun _ =>
    ⟨[], [⟨"counter".toList, 0x20⟩], fun _ => none, fun _ => none, fun _ => none,
      fun _ => none⟩
  assembleLine := fun _ _ line =>
    if line = "nop".toList then .ok [0x90] else .error "cannot assemble"
  byteAt_patch := by
    intro db addr bytes db' h a _
    have heq : db' = (db.1, fun a => if addr ≤ a then bytes.getD (a - addr) (db.2 a) else db.2 a) :=
      (Except.ok.inj h).symm
    subst heq
    show some (if addr ≤ a then bytes.getD (a - addr) (db.2 a) else db.2 a) = _
    by_cases htouched : Touches (addr, bytes) a
    · have hlt : a - addr < bytes.length := by
        obtain ⟨hfrom, hto⟩ := htouched
        simp only at hfrom hto
        omega
      rw [write_touched htouched, if_pos htouched.1, List.getD_eq_getElem?_getD,
        List.getElem?_eq_getElem hlt, Option.getD_some]
    · rw [write_untouched htouched]
      split
      · rename_i hfrom
        have hge : bytes.length ≤ a - addr := by
          by_contra hlt
          exact htouched ⟨hfrom, by simp only; omega⟩
        rw [List.getD_eq_getElem?_getD, List.getElem?_eq_none hge, Option.getD_none]
        rfl
      · rfl

def beforePut : List Edit := [.patchAsm none (some "counter".toList) 0 "nop".toList]

/- Two edits that fail stand among those that reach other bytes. -/
def afterPut : List Edit :=
  [.patchBytes none (some "count".toList) (-0x10) [1, 2], .putInt 8 ⟨true, .w16, none⟩ 70000,
    .patchAsm (some 10) none 0 "nop".toList, .patchAsm (some 8) none 0 "hlt".toList]

theorem int_survives_edits_four :
    handleGetBytes flatEditable (some (applyAll flatEditable (false, fun _ => 0)
        (beforePut ++ .putInt 8 ⟨true, .w16, some .big⟩ (-2) :: afterPut))) (some 8) none 0 3 =
      .ok ⟨"0x8", "fffe90".toList, 3⟩ ∧
    ∃ out, handleGetInt flatEditable.toIdalib (some (applyAll flatEditable (false, fun _ => 0)
        (beforePut ++ .putInt 8 ⟨true, .w16, some .big⟩ (-2) :: afterPut))) 8
          ⟨true, .w16, some .big⟩ = .ok out ∧ out.value = toString (-2 : Int) := by
  obtain ⟨-, hbytes, hint⟩ := int_survives_edits flatEditable (false, fun _ => 0)
  refine ⟨hbytes _ 8 [0xff, 0xfe, 0x90] (by decide) (by decide) (fun _ _ => rfl) ?_, ?_⟩
  · intro i b hb
    obtain ⟨hi, rfl⟩ := List.getElem?_eq_some_iff.mp hb
    have hall : ∀ i (hi : i < 3), replay (flatEditable.byteAt (false, fun _ => 0))
        (journal flatEditable (false, fun _ => 0)
          (beforePut ++ .putInt 8 ⟨true, .w16, some .big⟩ (-2) :: afterPut)) (8 + i) =
        some ([0xff, 0xfe, 0x90][i]) := by
      decide +kernel
    exact hall i hi
  · exact hint _ beforePut afterPut 8 ⟨true, .w16, some .big⟩ (-2) rfl (fun _ _ => rfl)
      (by decide +kernel)

end IdaHeadless.Edits
