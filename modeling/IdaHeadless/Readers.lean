import IdaHeadless.Address
import IdaHeadless.TypedInt

/-!
# Three readers of an integer (handlers/globals.rs, handlers/memory.rs)

`get_global_value` puts the bytes together by hand, least significant first. `get_int` goes
through the typed codec and `read_int` through the SDK, and both follow the byte order of the
database.
-/

namespace IdaHeadless.Readers

open Address ByteOrder TypedInt

/-! ### The database -/

/-- The bytes of the memory from `addr` on. -/
def Loaded (byteAt : ℕ → Option UInt8) (addr : ℕ) (bytes : List UInt8) : Prop :=
  ∀ i b, bytes[i]? = some b → byteAt (addr + i) = some b

def dbEndian (be : Bool) : Endian := if be then .big else .little

/-- The number of some bytes in the byte order of a database. -/
def nativeNat (be : Bool) (bytes : List UInt8) : ℕ := ofLeBytes ((dbEndian be).ordered bytes)

/-- What the readers use of idalib, and of its names. -/
structure Memory (σ : Type) extends Idalib σ where
  byteAt : σ → ℕ → Option UInt8
  names : σ → List (List Char × ℕ)
  getByte : σ → ℕ → ℕ
  getWord : σ → ℕ → ℕ
  getDword : σ → ℕ → ℕ
  getQword : σ → ℕ → ℕ
  getBytes_loaded : ∀ db addr bytes, Loaded (byteAt db) addr bytes →
    getBytes db addr bytes.length = bytes
  getByte_loaded : ∀ db addr bytes, Loaded (byteAt db) addr bytes → bytes.length = 1 →
    getByte db addr = nativeNat (isBe db) bytes
  getWord_loaded : ∀ db addr bytes, Loaded (byteAt db) addr bytes → bytes.length = 2 →
    getWord db addr = nativeNat (isBe db) bytes
  getDword_loaded : ∀ db addr bytes, Loaded (byteAt db) addr bytes → bytes.length = 4 →
    getDword db addr = nativeNat (isBe db) bytes
  getQword_loaded : ∀ db addr bytes, Loaded (byteAt db) addr bytes → bytes.length = 8 →
    getQword db addr = nativeNat (isBe db) bytes

variable {σ : Type} {lib : Memory σ} {db : σ} {addr : ℕ} {bytes : List UInt8}

/-! ### The handlers -/

structure GlobalValue where
  address : String
  value : ℕ
  hex : String
  bytes : List Char

/-- An address as text, or the first name that is the query. -/
def globalAddress (lib : Memory σ) (db : σ) (query : List Char) : Option ℕ :=
  match parseAddress query with
  | .ok addr => some addr
  | .error _ => ((lib.names db).find? (·.1 = query)).map Prod.snd

def handleGetGlobalValue (lib : Memory σ) (idb : Option σ) (query : List Char) :
    Except ToolError GlobalValue := do
  let db ← idb.elim (.error .noDatabaseOpen) .ok
  let addr ← (globalAddress lib db query).elim
    (.error (.functionNameNotFound (String.ofList query))) .ok
  let bytes := lib.getBytes db addr 8
  let val := (bytes.take 8).zipIdx.foldl (fun val p => val ||| p.1.toNat <<< (p.2 * 8)) 0
  .ok ⟨hexAddr addr, val, hexAddr val, hexEncode bytes⟩

structure ReadIntResult where
  address : String
  size : ℕ
  value : ℕ
  hex : String

def handleReadInt (lib : Memory σ) (idb : Option σ) (addr size : ℕ) :
    Except ToolError ReadIntResult := do
  let db ← idb.elim (.error .noDatabaseOpen) .ok
  let value ← match size with
    | 1 => .ok (lib.getByte db addr)
    | 2 => .ok (lib.getWord db addr)
    | 4 => .ok (lib.getDword db addr)
    | 8 => .ok (lib.getQword db addr)
    | _ => .error (.idaError ("unsupported integer size: " ++ toString size))
  .ok ⟨hexAddr addr, size, value, hexAddr value⟩

/-! ### What each of them reads -/

theorem Loaded.take (h : Loaded (lib.byteAt db) addr bytes) (n : ℕ) :
    Loaded (lib.byteAt db) addr (bytes.take n) := by
  intro i b hb
  rw [List.getElem?_take] at hb
  split at hb
  · exact h i b hb
  · cases hb

theorem Loaded.getBytes (h : Loaded (lib.byteAt db) addr bytes) {n : ℕ} (hn : n ≤ bytes.length) :
    lib.getBytes db addr n = bytes.take n := by
  have hread := lib.getBytes_loaded db addr (bytes.take n) (h.take n)
  rwa [List.length_take, Nat.min_eq_left hn] at hread

theorem nativeNat_lt (be : Bool) (bytes : List UInt8) :
    nativeNat be bytes < 256 ^ bytes.length := by
  have hlt := ofLeBytes_lt ((dbEndian be).ordered bytes)
  rwa [Endian.length_ordered] at hlt

/- Each byte stands above the ones before it. -/
theorem foldl_or_shift (bytes : List UInt8) (k acc : ℕ) (h : acc < 2 ^ (k * 8)) :
    (bytes.zipIdx k).foldl (fun val p => val ||| p.1.toNat <<< (p.2 * 8)) acc =
      acc + 2 ^ (k * 8) * ofLeBytes bytes := by
  induction bytes generalizing k acc with
  | nil => simp [ofLeBytes]
  | cons b bytes ih =>
    have hor : acc ||| b.toNat <<< (k * 8) = acc + 2 ^ (k * 8) * b.toNat := by
      rw [Nat.or_comm, ← Nat.shiftLeft_add_eq_or_of_lt h, Nat.shiftLeft_eq, Nat.mul_comm,
        Nat.add_comm]
    have hpow : 2 ^ ((k + 1) * 8) = 2 ^ (k * 8) * 256 := by
      rw [Nat.succ_mul, Nat.pow_add]
    have hlt : acc + 2 ^ (k * 8) * b.toNat < 2 ^ ((k + 1) * 8) := by
      have hbyte : 2 ^ (k * 8) * b.toNat ≤ 2 ^ (k * 8) * 255 :=
        Nat.mul_le_mul_left _ (Nat.le_of_lt_succ b.toNat_lt)
      rw [hpow]
      omega
    rw [List.zipIdx_cons, List.foldl_cons, hor, ih (k + 1) _ hlt, hpow, ofLeBytes, Nat.mul_add,
      Nat.mul_assoc, Nat.add_assoc]

theorem getGlobalValue_eq (h : Loaded (lib.byteAt db) addr bytes) (hlen : bytes.length = 8)
    {query : List Char} (hquery : globalAddress lib db query = some addr) :
    handleGetGlobalValue lib (some db) query =
      .ok ⟨hexAddr addr, ofLeBytes bytes, hexAddr (ofLeBytes bytes), hexEncode bytes⟩ := by
  have hread := h.getBytes (Nat.le_of_eq hlen.symm)
  rw [List.take_of_length_le (Nat.le_of_eq hlen)] at hread
  have hfold := foldl_or_shift bytes 0 0 (by decide)
  rw [Nat.zero_mul, Nat.pow_zero, Nat.one_mul, Nat.zero_add] at hfold
  simp only [handleGetGlobalValue, Option.elim_some, hquery, bind, Except.bind, hread,
    List.take_of_length_le (Nat.le_of_eq hlen), hfold]

theorem readInt_eq (h : Loaded (lib.byteAt db) addr bytes) (width : IntWidth)
    (hlen : bytes.length = width.bytes) :
    handleReadInt lib (some db) addr width.bytes =
      .ok ⟨hexAddr addr, width.bytes, nativeNat (lib.isBe db) bytes,
        hexAddr (nativeNat (lib.isBe db) bytes)⟩ := by
  cases width with
  | w8 =>
    have hvalue := lib.getByte_loaded db addr bytes h hlen
    simp only [handleReadInt, IntWidth.bytes, Option.elim_some, bind, Except.bind, hvalue]
  | w16 =>
    have hvalue := lib.getWord_loaded db addr bytes h hlen
    simp only [handleReadInt, IntWidth.bytes, Option.elim_some, bind, Except.bind, hvalue]
  | w32 =>
    have hvalue := lib.getDword_loaded db addr bytes h hlen
    simp only [handleReadInt, IntWidth.bytes, Option.elim_some, bind, Except.bind, hvalue]
  | w64 =>
    have hvalue := lib.getQword_loaded db addr bytes h hlen
    simp only [handleReadInt, IntWidth.bytes, Option.elim_some, bind, Except.bind, hvalue]

theorem hex_mask (width : IntWidth) {raw : ℕ} (h : raw < 256 ^ width.bytes) :
    ofSigned 64 (raw : Int) &&& (2 ^ 64 - 1) >>> (64 - width.bytes * 8) = raw := by
  have hmask : (2 ^ 64 - 1) >>> (64 - width.bytes * 8) = 2 ^ (width.bytes * 8) - 1 := by
    cases width <;> decide
  have hpow : (256 : ℕ) ^ width.bytes = 2 ^ (width.bytes * 8) := by
    rw [Nat.mul_comm, Nat.pow_mul]
  have hle : 2 ^ (width.bytes * 8) ≤ 2 ^ 64 := by
    cases width <;> decide
  rw [hpow] at h
  rw [ofSigned_natCast (Nat.lt_of_lt_of_le h hle), hmask, Nat.and_two_pow_sub_one_eq_mod,
    Nat.mod_eq_of_lt h]

theorem getInt_eq (h : Loaded (lib.byteAt db) addr bytes) (width : IntWidth)
    (hlen : bytes.length = width.bytes) :
    ∃ out, handleGetInt lib.toIdalib (some db) addr ⟨false, width, none⟩ = .ok out ∧
      out.value = toString (nativeNat (lib.isBe db) bytes) ∧
      out.hex = hexAddr (nativeNat (lib.isBe db) bytes) := by
  have hread := h.getBytes (Nat.le_of_eq hlen.symm)
  rw [List.take_of_length_le (Nat.le_of_eq hlen)] at hread
  have hdecode : IntSpec.decode ⟨false, width, none⟩ bytes (lib.isBe db) =
      .ok (nativeNat (lib.isBe db) bytes : Int) := by
    rw [decode_of_length (Nat.le_of_eq hlen.symm), List.take_of_length_le (Nat.le_of_eq hlen)]
    rfl
  have hlt := nativeNat_lt (lib.isBe db) bytes
  rw [hlen] at hlt
  simp only [handleGetInt, Option.elim_some, bind, Except.bind, hread, hdecode]
  exact ⟨_, rfl, rfl, congrArg hexAddr (hex_mask width hlt)⟩

/-! ### Agreement -/

/-- Whatever query names the address, the three readers give the same eight bytes, and the last
two of them the same integer of every width. -/
def ReadersAgree (lib : Memory σ) (db : σ) (addr : ℕ) : Prop :=
  (∀ query, globalAddress lib db query = some addr →
    ∃ g i r, handleGetGlobalValue lib (some db) query = .ok g ∧
      handleGetInt lib.toIdalib (some db) addr ⟨false, .w64, none⟩ = .ok i ∧
      handleReadInt lib (some db) addr 8 = .ok r ∧
      i.value = toString g.value ∧ r.value = g.value ∧ i.hex = g.hex ∧ r.hex = g.hex) ∧
  ∀ width : IntWidth,
    ∃ i r, handleGetInt lib.toIdalib (some db) addr ⟨false, width, none⟩ = .ok i ∧
      handleReadInt lib (some db) addr width.bytes = .ok r ∧
      i.value = toString r.value ∧ i.hex = r.hex

theorem ofLeBytes_injective {bs cs : List UInt8} (hlen : bs.length = cs.length)
    (h : ofLeBytes bs = ofLeBytes cs) : bs = cs := by
  rw [← leBytes_ofLeBytes bs, ← leBytes_ofLeBytes cs, hlen, h]

/- In a big-endian database eight bytes read the same both ways only if they are a palindrome. -/
theorem nativeNat_eq_iff (be : Bool) (bytes : List UInt8) :
    nativeNat be bytes = ofLeBytes bytes ↔ be = false ∨ bytes.reverse = bytes := by
  cases be with
  | false => simp [nativeNat, dbEndian, Endian.ordered]
  | true =>
    rw [or_iff_right (by decide)]
    constructor
    · intro h
      exact ofLeBytes_injective List.length_reverse h
    · intro h
      exact congrArg ofLeBytes h

theorem read_int_eq_get_int (h : Loaded (lib.byteAt db) addr bytes) (hlen : bytes.length = 8)
    (width : IntWidth) :
    ∃ i r, handleGetInt lib.toIdalib (some db) addr ⟨false, width, none⟩ = .ok i ∧
      handleReadInt lib (some db) addr width.bytes = .ok r ∧
      i.value = toString r.value ∧ i.hex = r.hex := by
  have hle := width.bytes_le
  have hwidth : (bytes.take width.bytes).length = width.bytes := by
    rw [List.length_take, hlen]
    exact Nat.min_eq_left hle
  obtain ⟨i, hi, hvalue, hhex⟩ := getInt_eq (h.take width.bytes) width hwidth
  exact ⟨i, _, hi, readInt_eq (h.take width.bytes) width hwidth, hvalue, hhex⟩

/-- The readers agree exactly if the database is little-endian or the bytes are a palindrome. -/
theorem readers_agree_iff (lib : Memory σ) (db : σ) (addr : ℕ) (haddr : addr < 2 ^ 64)
    (bytes : List UInt8) (hlen : bytes.length = 8) (hloaded : Loaded (lib.byteAt db) addr bytes) :
    ReadersAgree lib db addr ↔ lib.isBe db = false ∨ bytes.reverse = bytes := by
  obtain ⟨i, hi, hvalue, hhex⟩ := getInt_eq hloaded .w64 hlen
  have hr : handleReadInt lib (some db) addr 8 = _ := readInt_eq hloaded .w64 hlen
  rw [← nativeNat_eq_iff]
  constructor
  · intro hagree
    have hquery : globalAddress lib db (hexAddr addr).toList = some addr := by
      rw [globalAddress, parseAddress_hexAddr haddr]
    obtain ⟨g, i', r, hg, -, hr', -, hsame, -⟩ := hagree.1 _ hquery
    rw [getGlobalValue_eq hloaded hlen hquery] at hg
    rw [hr] at hr'
    cases hg
    cases hr'
    exact hsame
  · intro hsame
    rw [hsame] at hvalue hhex hr
    refine ⟨fun query hquery => ?_, read_int_eq_get_int hloaded hlen⟩
    exact ⟨_, i, _, getGlobalValue_eq hloaded hlen hquery, hi, hr, hvalue, rfl, hhex, rfl⟩

theorem loaded_flat {memory : ℕ → UInt8} {addr : ℕ} {bytes : List UInt8}
    (h : Loaded (fun a => some (memory a)) addr bytes) :
    (List.range bytes.length).map (fun i => memory (addr + i)) = bytes := by
  apply List.ext_getElem
  · simp
  · intro i _ hi
    have hbyte := h i bytes[i] (List.getElem?_eq_getElem hi)
    simpa using hbyte

/-- A byte order and a byte for each address, all of them readable. -/
def flatReaders : Memory (Bool × (ℕ → UInt8)) where
  toIdalib := flatMemory
  byteAt db addr := some (db.2 addr)
  names _ := []
  getByte db addr := nativeNat db.1 ((List.range 1).map fun i => db.2 (addr + i))
  getWord db addr := nativeNat db.1 ((List.range 2).map fun i => db.2 (addr + i))
  getDword db addr := nativeNat db.1 ((List.range 4).map fun i => db.2 (addr + i))
  getQword db addr := nativeNat db.1 ((List.range 8).map fun i => db.2 (addr + i))
  getBytes_loaded _ _ _ h := loaded_flat h
  getByte_loaded db _ _ h hlen := congrArg (nativeNat db.1) (hlen ▸ loaded_flat h)
  getWord_loaded db _ _ h hlen := congrArg (nativeNat db.1) (hlen ▸ loaded_flat h)
  getDword_loaded db _ _ h hlen := congrArg (nativeNat db.1) (hlen ▸ loaded_flat h)
  getQword_loaded db _ _ h hlen := congrArg (nativeNat db.1) (hlen ▸ loaded_flat h)

/-- One byte that is not zero, at address 8. -/
def oneByte (a : ℕ) : UInt8 := if a = 8 then 1 else 0

theorem loaded_oneByte : Loaded (fun a => some (oneByte a)) 8 [1, 0, 0, 0, 0, 0, 0, 0] := by
  intro i b hb
  have hall : ∀ i < 8, ([1, 0, 0, 0, 0, 0, 0, 0] : List UInt8)[i]? = some (oneByte (8 + i)) := by
    decide
  obtain ⟨hi, -⟩ := List.getElem?_eq_some_iff.mp hb
  exact (hall i hi).symm.trans hb

theorem readers_agree_little : ReadersAgree flatReaders (false, oneByte) 8 :=
  (readers_agree_iff flatReaders (false, oneByte) 8 (by decide) [1, 0, 0, 0, 0, 0, 0, 0] rfl
    loaded_oneByte).mpr (.inl rfl)

theorem readers_differ_big :
    handleGetGlobalValue flatReaders (some (true, oneByte)) "8".toList =
        .ok ⟨"0x8", 1, "0x1", "0100000000000000".toList⟩ ∧
      handleReadInt flatReaders (some (true, oneByte)) 8 8 =
        .ok ⟨"0x8", 8, 2 ^ 56, "0x100000000000000"⟩ ∧
      ¬ ReadersAgree flatReaders (true, oneByte) 8 := by
  have hglobal : handleGetGlobalValue flatReaders (some (true, oneByte)) "8".toList =
      .ok ⟨"0x8", 1, "0x1", "0100000000000000".toList⟩ := by rfl
  have hread : handleReadInt flatReaders (some (true, oneByte)) 8 8 =
      .ok ⟨"0x8", 8, 2 ^ 56, "0x100000000000000"⟩ := by rfl
  refine ⟨hglobal, hread, fun hagree => ?_⟩
  obtain ⟨g, i, r, hg, -, hr, -, hsame, -⟩ := hagree.1 "8".toList (by rfl)
  rw [hglobal] at hg
  rw [hread] at hr
  cases hg
  cases hr
  exact absurd hsame (by decide)

end IdaHeadless.Readers
