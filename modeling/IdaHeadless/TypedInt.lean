import IdaHeadless.ByteOrder
import IdaHeadless.Radix
import IdaHeadless.ToolError

/-!
# Typed integers (ida/int_spec.rs, handlers/memory.rs)

A token such as `i32` or `u16be` names signedness, width and byte order of an integer; without
a byte order the database's own is meant. Values are encoded into exactly the bytes of their
width and refused if they do not fit. The `u64` arithmetic of the source is kept: a value is
read into eight bytes, and sign extension shifts within 64 bits.

`get_bytes`, `patch_bytes` and the byte order of the database are those of idalib. What is
used of them is that bytes which have been patched are read back.
-/

namespace IdaHeadless.TypedInt

open Text Radix ByteOrder

/-! ### The token -/

inductive Endian where
  | little
  | big
  deriving DecidableEq

inductive IntWidth where
  | w8
  | w16
  | w32
  | w64
  deriving DecidableEq

def IntWidth.bytes : IntWidth → ℕ
  | .w8 => 1
  | .w16 => 2
  | .w32 => 4
  | .w64 => 8

def IntWidth.parse (digits : List Char) : Option IntWidth :=
  if digits = ['8'] then some .w8
  else if digits = ['1', '6'] then some .w16
  else if digits = ['3', '2'] then some .w32
  else if digits = ['6', '4'] then some .w64
  else none

def IntWidth.display (width : IntWidth) : List Char := Nat.toDigits 10 (width.bytes * 8)

structure IntSpec where
  signed : Bool
  width : IntWidth
  endian : Option Endian
  deriving DecidableEq

def IntSpec.display (spec : IntSpec) : List Char :=
  (if spec.signed then 'i' else 'u') :: spec.width.display ++
    match spec.endian with
    | some .little => ['l', 'e']
    | some .big => ['b', 'e']
    | none => []

/- `str::strip_suffix`. -/
def stripEnd (suffix cs : List Char) : Option (List Char) :=
  (stripStart suffix.reverse cs.reverse).map List.reverse

def splitOrder (rest : List Char) : List Char × Option Endian :=
  match stripEnd ['l', 'e'] rest with
  | some digits => (digits, some .little)
  | none =>
    match stripEnd ['b', 'e'] rest with
    | some digits => (digits, some .big)
    | none => (rest, none)

/-- The lower case of a character outside ASCII is, or contains, a character that occurs in no
token, so that lowering ASCII letters alone accepts the same texts. -/
def fromStr (s : List Char) : Except ToolError IntSpec :=
  let token := (trim s).map Char.toLower
  let invalid : ToolError := .invalidParams ("invalid integer type '" ++ String.ofList s ++
    "'; expected i8/u8/i16/u16/i32/u32/i64/u64 with an optional 'le' or 'be' suffix " ++
    "(e.g. 'u32be')")
  match token with
  | [] => .error invalid
  | sign :: rest =>
    if sign ≠ 'i' ∧ sign ≠ 'u' then .error invalid
    else
      match IntWidth.parse (splitOrder rest).1 with
      | none => .error invalid
      | some width =>
        if width = .w8 ∧ (splitOrder rest).2.isSome then
          .error (.invalidParams ("'" ++ String.ofList s ++
            "' names a byte order for a single byte, which has none"))
        else .ok { signed := sign = 'i', width, endian := (splitOrder rest).2 }

/-! ### The codec -/

def IntSpec.byteOrder (spec : IntSpec) (dbIsBigEndian : Bool) : Endian :=
  spec.endian.getD (if dbIsBigEndian then .big else .little)

/- `as i64`. -/
def asI64 (n : ℕ) : Int := if n < 2 ^ 63 then (n : Int) else (n : Int) - 2 ^ 64

def IntSpec.decode (spec : IntSpec) (bytes : List UInt8) (dbIsBigEndian : Bool) :
    Except ToolError Int :=
  let width := spec.width.bytes
  if bytes.length < width then
    .error (.idaError ("needed " ++ toString width ++ " bytes for " ++
      String.ofList spec.display ++ ", read " ++ toString bytes.length))
  else
    let buf := bytes.take width ++ List.replicate (8 - width) 0
    let raw : ℕ := match spec.byteOrder dbIsBigEndian with
      | .little => ofLeBytes buf
      | .big => ofLeBytes buf.reverse >>> (64 - width * 8)
    if !spec.signed then .ok raw
    else
      let shift := 64 - width * 8
      .ok (asI64 ((raw <<< shift) % 2 ^ 64) >>> shift)

def maskFor (bits : ℕ) : ℕ := if 64 ≤ bits then 2 ^ 64 - 1 else 1 <<< bits - 1

/- `1i128 << n`. -/
def IntSpec.minMax (spec : IntSpec) : Int × Int :=
  let bits := spec.width.bytes * 8
  if spec.signed then (-(2 ^ (bits - 1)), 2 ^ (bits - 1) - 1) else (0, 2 ^ bits - 1)

def IntSpec.encode (spec : IntSpec) (value : Int) (dbIsBigEndian : Bool) :
    Except ToolError (List UInt8) :=
  let width := spec.width.bytes
  let (min, max) := spec.minMax
  if value < min ∨ max < value then
    .error (.invalidParams (toString value ++ " does not fit in " ++ String.ofList spec.display ++
      " (range " ++ toString min ++ "..=" ++ toString max ++ ")"))
  else
    let raw := ofSigned 64 value &&& maskFor (width * 8)
    .ok (match spec.byteOrder dbIsBigEndian with
      | .little => (leBytes 8 raw).take width
      | .big => (leBytes 8 raw).reverse.drop (8 - width))

/-! ### The handlers -/

/-- What is used of idalib, for databases of type `σ`. -/
structure Idalib (σ : Type) where
  isBe : σ → Bool
  getBytes : σ → ℕ → ℕ → List UInt8
  patchBytes : σ → ℕ → List UInt8 → Except ToolError σ
  getBytes_patch : ∀ db addr bytes db', patchBytes db addr bytes = .ok db' →
    getBytes db' addr bytes.length = bytes
  isBe_patch : ∀ db addr bytes db', patchBytes db addr bytes = .ok db' → isBe db' = isBe db

structure GetIntResult where
  address : String
  ty : List Char
  size : ℕ
  value : String
  hex : String
  bytes : List Char

structure PutIntResult where
  address : String
  ty : List Char
  size : ℕ
  value : String
  bytes : List Char

def hexEncode (bytes : List UInt8) : List Char := bytes.flatMap lowerByte

def handleGetInt {σ : Type} (lib : Idalib σ) (idb : Option σ) (addr : ℕ) (spec : IntSpec) :
    Except ToolError GetIntResult := do
  let db ← idb.elim (.error .noDatabaseOpen) .ok
  let width := spec.width.bytes
  let bytes := lib.getBytes db addr width
  let value ← spec.decode bytes (lib.isBe db)
  .ok {
    address := hexAddr addr
    ty := spec.display
    size := width
    value := toString value
    hex := hexAddr (ofSigned 64 value &&& (2 ^ 64 - 1) >>> (64 - width * 8))
    bytes := hexEncode bytes }

def handlePutInt {σ : Type} (lib : Idalib σ) (idb : Option σ) (addr : ℕ) (spec : IntSpec)
    (value : Int) : Except ToolError (σ × PutIntResult) := do
  let db ← idb.elim (.error .noDatabaseOpen) .ok
  let bytes ← spec.encode value (lib.isBe db)
  let db ← lib.patchBytes db addr bytes
  .ok (db, {
    address := hexAddr addr
    ty := spec.display
    size := bytes.length
    value := toString value
    bytes := hexEncode bytes })

/-! ### The codec in closed form -/

variable {spec : IntSpec} {value : Int} {bytes : List UInt8} {be : Bool}

def IntSpec.bits (spec : IntSpec) : ℕ := spec.width.bytes * 8

/-- The values that the type holds. -/
def IntSpec.InRange (spec : IntSpec) (value : Int) : Prop :=
  if spec.signed then -(2 ^ (spec.bits - 1)) ≤ value ∧ value < 2 ^ (spec.bits - 1)
  else 0 ≤ value ∧ value < 2 ^ spec.bits

/-- The bytes in the order of their weight, least significant first. -/
def Endian.ordered : Endian → List UInt8 → List UInt8
  | .little, bytes => bytes
  | .big, bytes => bytes.reverse

theorem Endian.ordered_ordered (e : Endian) (bytes : List UInt8) :
    e.ordered (e.ordered bytes) = bytes := by
  cases e with
  | little => rfl
  | big => exact List.reverse_reverse bytes

theorem Endian.length_ordered (e : Endian) (bytes : List UInt8) :
    (e.ordered bytes).length = bytes.length := by
  cases e with
  | little => rfl
  | big => exact List.length_reverse

theorem IntWidth.bytes_le (width : IntWidth) : width.bytes ≤ 8 := by
  cases width <;> decide

theorem IntWidth.bytes_pos (width : IntWidth) : 0 < width.bytes := by
  cases width <;> decide

theorem IntSpec.bits_pos (spec : IntSpec) : 0 < spec.bits := by
  have hpos := spec.width.bytes_pos
  rw [IntSpec.bits]
  omega

theorem IntSpec.bits_le (spec : IntSpec) : spec.bits ≤ 64 := by
  have hle := spec.width.bytes_le
  rw [IntSpec.bits]
  omega

theorem IntSpec.two_pow_bits (spec : IntSpec) : 256 ^ spec.width.bytes = 2 ^ spec.bits := by
  rw [IntSpec.bits, Nat.mul_comm, Nat.pow_mul]

theorem and_maskFor {n bits : ℕ} (hn : n < 2 ^ 64) : n &&& maskFor bits = n % 2 ^ bits := by
  rw [maskFor]
  split
  · rename_i hbits
    have hpow : 2 ^ 64 ≤ 2 ^ bits := Nat.pow_le_pow_right (by omega) hbits
    rw [Nat.and_two_pow_sub_one_eq_mod, Nat.mod_eq_of_lt hn, Nat.mod_eq_of_lt (by omega)]
  · rw [Nat.one_shiftLeft, Nat.and_two_pow_sub_one_eq_mod]

theorem minMax_iff : ¬ (value < spec.minMax.1 ∨ spec.minMax.2 < value) ↔ spec.InRange value := by
  rw [IntSpec.minMax, IntSpec.InRange, ← IntSpec.bits]
  split <;> omega

/- Eight bytes are written and those of the width kept. -/
theorem encode_of_inRange (h : spec.InRange value) :
    spec.encode value be =
      .ok ((spec.byteOrder be).ordered (leBytes spec.width.bytes (ofSigned spec.bits value))) := by
  have hraw : ofSigned 64 value &&& maskFor spec.bits = ofSigned spec.bits value := by
    rw [and_maskFor (ofSigned_lt 64 value), ofSigned_mod spec.bits_le]
  have hwidth : 8 = spec.width.bytes + (8 - spec.width.bytes) := by
    have hle := spec.width.bytes_le
    omega
  have htake : (leBytes 8 (ofSigned spec.bits value)).take spec.width.bytes =
      leBytes spec.width.bytes (ofSigned spec.bits value) := by
    have htake := take_leBytes spec.width.bytes (8 - spec.width.bytes) (ofSigned spec.bits value)
    rwa [← hwidth] at htake
  have hdrop : (leBytes 8 (ofSigned spec.bits value)).reverse.drop (8 - spec.width.bytes) =
      (leBytes spec.width.bytes (ofSigned spec.bits value)).reverse := by
    have hsub : 8 - (8 - spec.width.bytes) = spec.width.bytes := by omega
    rw [List.drop_reverse, length_leBytes, hsub, htake]
  simp only [IntSpec.encode, if_neg (minMax_iff.mpr h)]
  rw [← IntSpec.bits, hraw]
  cases spec.byteOrder be with
  | little => rw [htake, Endian.ordered]
  | big => rw [hdrop, Endian.ordered]

theorem encode_of_not_inRange (h : ¬ spec.InRange value) :
    ∃ e, spec.encode value be = .error e := by
  have hout : value < spec.minMax.1 ∨ spec.minMax.2 < value := not_not.mp (mt minMax_iff.mp h)
  simp only [IntSpec.encode, if_pos hout]
  exact ⟨_, rfl⟩

/- The shifts of a `u64` that extend the sign of a narrower number. -/
theorem sign_extend (width : IntWidth) {raw : ℕ} (h : raw < 2 ^ (width.bytes * 8)) :
    asI64 ((raw <<< (64 - width.bytes * 8)) % 2 ^ 64) >>> (64 - width.bytes * 8) =
      toSigned (width.bytes * 8) raw := by
  rw [Nat.shiftLeft_eq, Int.shiftRight_eq_div_pow, asI64, toSigned]
  cases width <;> simp only [IntWidth.bytes] at h ⊢ <;> norm_num at h ⊢ <;>
    split <;> split <;> omega

def IntSpec.ofRaw (spec : IntSpec) (raw : ℕ) : Int :=
  if spec.signed then toSigned spec.bits raw else raw

theorem decode_of_length (h : spec.width.bytes ≤ bytes.length) :
    spec.decode bytes be = .ok
      (spec.ofRaw (ofLeBytes ((spec.byteOrder be).ordered (bytes.take spec.width.bytes)))) := by
  have hraw : (match spec.byteOrder be with
      | .little =>
        ofLeBytes (bytes.take spec.width.bytes ++ List.replicate (8 - spec.width.bytes) 0)
      | .big => ofLeBytes (bytes.take spec.width.bytes ++
          List.replicate (8 - spec.width.bytes) 0).reverse >>> (64 - spec.width.bytes * 8)) =
      ofLeBytes ((spec.byteOrder be).ordered (bytes.take spec.width.bytes)) := by
    cases spec.byteOrder be with
    | little => exact ofLeBytes_pad _ _
    | big =>
      have hshift : 64 - spec.width.bytes * 8 = 8 * (8 - spec.width.bytes) := by omega
      show ofLeBytes _ >>> _ = ofLeBytes (bytes.take spec.width.bytes).reverse
      rw [hshift, List.reverse_append, List.reverse_replicate, ofLeBytes_pad_front]
  have hlt : ofLeBytes ((spec.byteOrder be).ordered (bytes.take spec.width.bytes)) <
      2 ^ (spec.width.bytes * 8) := by
    have hlen : ((spec.byteOrder be).ordered (bytes.take spec.width.bytes)).length =
        spec.width.bytes := by
      rw [Endian.length_ordered, List.length_take]
      omega
    have hlt := ofLeBytes_lt ((spec.byteOrder be).ordered (bytes.take spec.width.bytes))
    rwa [hlen, IntSpec.two_pow_bits] at hlt
  simp only [IntSpec.decode, if_neg (Nat.not_lt.mpr h)]
  rw [hraw, sign_extend spec.width hlt, IntSpec.ofRaw, ← IntSpec.bits]
  cases spec.signed <;> rfl

theorem ofRaw_inRange {raw : ℕ} (h : raw < 2 ^ spec.bits) : spec.InRange (spec.ofRaw raw) := by
  rw [IntSpec.InRange, IntSpec.ofRaw]
  split
  · exact toSigned_range spec.bits_pos h
  · exact ⟨Int.natCast_nonneg raw, by exact_mod_cast h⟩

theorem ofSigned_ofRaw {raw : ℕ} (h : raw < 2 ^ spec.bits) :
    ofSigned spec.bits (spec.ofRaw raw) = raw := by
  rw [IntSpec.ofRaw]
  split
  · exact ofSigned_toSigned h
  · exact ofSigned_natCast h

theorem ofRaw_ofSigned (h : spec.InRange value) :
    spec.ofRaw (ofSigned spec.bits value) = value := by
  rw [IntSpec.InRange] at h
  rw [IntSpec.ofRaw]
  by_cases hsigned : spec.signed = true
  · rw [if_pos hsigned] at h ⊢
    exact toSigned_ofSigned spec.bits_pos h.1 h.2
  · rw [if_neg hsigned] at h ⊢
    rw [ofSigned_cast]
    exact Int.emod_eq_of_lt h.1 h.2

/-! ### Round trips -/

theorem inRange_of_encode (h : spec.encode value be = .ok bytes) : spec.InRange value := by
  by_contra hout
  obtain ⟨e, he⟩ := @encode_of_not_inRange spec value be hout
  rw [he] at h
  cases h

theorem length_of_encode (h : spec.encode value be = .ok bytes) :
    bytes.length = spec.width.bytes := by
  rw [encode_of_inRange (inRange_of_encode h)] at h
  rw [← Except.ok.inj h, Endian.length_ordered, length_leBytes]

theorem decode_encode (h : spec.encode value be = .ok bytes) :
    spec.decode bytes be = .ok value := by
  have hrange := inRange_of_encode h
  have hlen := length_of_encode h
  rw [encode_of_inRange hrange] at h
  rw [decode_of_length (Nat.le_of_eq hlen.symm), List.take_of_length_le (Nat.le_of_eq hlen),
    ← Except.ok.inj h, Endian.ordered_ordered, ofLeBytes_leBytes, IntSpec.two_pow_bits,
    Nat.mod_eq_of_lt (ofSigned_lt _ _), ofRaw_ofSigned hrange]

theorem encode_decode (h : spec.width.bytes ≤ bytes.length) :
    ∃ v, spec.decode bytes be = .ok v ∧ spec.encode v be = .ok (bytes.take spec.width.bytes) := by
  let body := (spec.byteOrder be).ordered (bytes.take spec.width.bytes)
  have hlen : body.length = spec.width.bytes := by
    rw [Endian.length_ordered, List.length_take]
    omega
  have hlt : ofLeBytes body < 2 ^ spec.bits := by
    have hlt := ofLeBytes_lt body
    rwa [hlen, IntSpec.two_pow_bits] at hlt
  refine ⟨spec.ofRaw (ofLeBytes body), decode_of_length h, ?_⟩
  rw [encode_of_inRange (ofRaw_inRange hlt), ofSigned_ofRaw hlt, ← hlen, leBytes_ofLeBytes,
    Endian.ordered_ordered]
  simp [hlen]

/- A single byte has no order. -/
theorem endian_of_fromStr {s : List Char} (h : fromStr s = .ok spec) :
    ¬ (spec.width = .w8 ∧ spec.endian.isSome = true) := by
  simp only [fromStr] at h
  split at h
  · cases h
  · split at h
    · cases h
    · split at h
      · cases h
      · split at h
        · cases h
        · rename_i hnot
          rw [← Except.ok.inj h]
          exact hnot

theorem fromStr_display (h : ¬ (spec.width = .w8 ∧ spec.endian.isSome = true)) :
    fromStr spec.display = .ok spec := by
  obtain ⟨signed, width, endian⟩ := spec
  cases signed <;> cases width <;> rcases endian with _ | _ | _ <;>
    first | rfl | exact absurd ⟨rfl, rfl⟩ h

section Handlers

variable {σ : Type} {lib : Idalib σ} {db db' : σ} {addr : ℕ} {out : PutIntResult}

theorem handlePutInt_ok (h : handlePutInt lib (some db) addr spec value = .ok (db', out)) :
    ∃ bytes, spec.encode value (lib.isBe db) = .ok bytes ∧
      lib.patchBytes db addr bytes = .ok db' := by
  simp only [handlePutInt, Option.elim_some, bind, Except.bind] at h
  cases hencode : spec.encode value (lib.isBe db) with
  | error e => simp [hencode] at h
  | ok bytes =>
    cases hpatch : lib.patchBytes db addr bytes with
    | error e => simp [hencode, hpatch] at h
    | ok db'' =>
      simp only [hencode, hpatch, Except.ok.injEq, Prod.mk.injEq] at h
      exact ⟨bytes, rfl, by rw [hpatch, h.1]⟩

theorem get_after_put (h : handlePutInt lib (some db) addr spec value = .ok (db', out)) :
    ∃ out', handleGetInt lib (some db') addr spec = .ok out' ∧ out'.value = toString value := by
  obtain ⟨bytes, hencode, hpatch⟩ := handlePutInt_ok h
  have hread := lib.getBytes_patch db addr bytes db' hpatch
  rw [length_of_encode hencode] at hread
  have hdecode : spec.decode bytes (lib.isBe db') = .ok value := by
    rw [lib.isBe_patch db addr bytes db' hpatch]
    exact decode_encode hencode
  simp only [handleGetInt, Option.elim_some, bind, Except.bind, hread, hdecode]
  exact ⟨_, rfl, rfl⟩

end Handlers

/-- Encoding and decoding are inverse to each other on the values of the width, and a value that was
put is what `get_int` shows. -/
theorem integer_codec (spec : IntSpec) (haccepted : ∃ s, fromStr s = .ok spec) :
    (∀ value be, (∃ bytes, spec.encode value be = .ok bytes) ↔ spec.InRange value) ∧
    (∀ value be bytes, spec.encode value be = .ok bytes →
      bytes.length = spec.width.bytes ∧ spec.decode bytes be = .ok value) ∧
    (∀ bytes be, spec.width.bytes ≤ bytes.length → ∃ value,
      spec.decode bytes be = .ok value ∧
        spec.encode value be = .ok (bytes.take spec.width.bytes)) ∧
    fromStr spec.display = .ok spec ∧
    ∀ (σ : Type) (lib : Idalib σ) (db db' : σ) (addr : ℕ) (value : Int) (out : PutIntResult),
      handlePutInt lib (some db) addr spec value = .ok (db', out) →
      ∃ out', handleGetInt lib (some db') addr spec = .ok out' ∧ out'.value = toString value := by
  obtain ⟨s, hs⟩ := haccepted
  refine ⟨?_, ?_, ?_, fromStr_display (endian_of_fromStr hs), ?_⟩
  · intro value be
    constructor
    · rintro ⟨bytes, h⟩
      exact inRange_of_encode h
    · intro h
      exact ⟨_, encode_of_inRange h⟩
  · intro value be bytes h
    exact ⟨length_of_encode h, decode_encode h⟩
  · intro bytes be h
    exact encode_decode h
  · intro σ lib db db' addr value out h
    exact get_after_put h

/-- A byte order and a byte for each address. -/
def flatMemory : Idalib (Bool × (ℕ → UInt8)) where
  isBe := Prod.fst
  getBytes := fun db addr n => (List.range n).map fun i => db.2 (addr + i)
  patchBytes := fun db addr bytes =>
    .ok (db.1, fun a => if addr ≤ a then bytes.getD (a - addr) (db.2 a) else db.2 a)
  getBytes_patch := by
    intro db addr bytes db' h
    rw [← Except.ok.inj h]
    apply List.ext_getElem
    · simp
    · intro i h1 h2
      simp [h2]
  isBe_patch := by
    intro db addr bytes db' h
    rw [← Except.ok.inj h]

theorem integer_codec_i16be :
    fromStr " I16BE ".toList = .ok ⟨true, .w16, some .big⟩ ∧
      ∃ out, handleGetInt flatMemory
        (some (false, fun a => if 8 ≤ a then [0xFF, 0xFE].getD (a - 8) 0 else 0)) 8
        ⟨true, .w16, some .big⟩ = .ok out ∧ out.value = toString (-2 : Int) :=
  ⟨by decide, (integer_codec ⟨true, .w16, some .big⟩ ⟨" I16BE ".toList, by decide⟩).2.2.2.2
    (Bool × (ℕ → UInt8)) flatMemory (false, fun _ => 0) _ 8 (-2)
    ⟨"0x8", "i16be".toList, 2, "-2", "fffe".toList⟩ (by rfl)⟩

end IdaHeadless.TypedInt
