import IdaHeadless.Overlay
import IdaHeadless.Signature.Make
import IdaHeadless.TypedInt
import Mathlib.Logic.Relation

/-!
# The bytes of operands (ida_sdk_bridge.cpp, ida/sdk_bridge.rs, handlers/definitions.rs)

`ida_mcp_operand_mask` walks over the instructions of a range and clears the bytes that their
operands may change. An operand ends where the first operand after it that begins later begins.
`make_signature` and `signature_bytes` wildcard the bytes that are cleared.

The addresses of a database end before `BADADDR`, so the sums of `ea_t` do not wrap.
-/

namespace IdaHeadless.Signature

open Overlay
open Paging (saturatingAdd usizeMax)

/-! ### Instructions -/

inductive OperandType where
  | void | reg | mem | phrase | displ | imm | far | near | idpspec
  deriving DecidableEq

/- `offb` is 0 for an operand that is not known to begin somewhere. -/
structure Operand where
  type : OperandType
  offb : ℕ

/-- `decode_insn` gives the length 0 to what does not decode. -/
structure Insn where
  length : ℕ
  ops : List Operand

def uaMaxop : ℕ := 8

def OperandType.variable : OperandType → Bool
  | .imm | .mem | .near | .far | .displ => true
  | .void | .reg | .phrase | .idpspec => false

/-! ### The mask -/

def operandEnd (boundedLength offb : ℕ) : List Operand → ℕ
  | [] => boundedLength
  | next :: rest =>
    if next.type = .void then boundedLength
    else if offb < next.offb then min boundedLength next.offb
    else operandEnd boundedLength offb rest

/- `done` is `current - start`. -/
def maskOperands (size done boundedLength : ℕ) : List Operand → List Bool → List Bool
  | [], mask => mask
  | operand :: rest, mask =>
    if operand.type = .void then mask
    else if !operand.type.variable || operand.offb = 0 || boundedLength ≤ operand.offb then
      maskOperands size done boundedLength rest mask
    else maskOperands size done boundedLength rest (fill mask (done + operand.offb)
      (min (done + operandEnd boundedLength operand.offb rest) size) false)

/- Every round goes on by a byte at least, so `size` rounds are enough. -/
def maskInsns (decode : ℕ → Insn) (start size : ℕ) : ℕ → ℕ → List Bool → List Bool
  | 0, _, mask => mask
  | fuel + 1, done, mask =>
    if done < size then
      let insn := decode (start + done)
      if insn.length = 0 then maskInsns decode start size fuel (done + 1) mask
      else maskInsns decode start size fuel (done + insn.length)
        (maskOperands size done (min insn.length (size - done)) (insn.ops.take uaMaxop) mask)
    else mask

def operandMask (decode : ℕ → Insn) (start size : ℕ) : Option (List Bool) :=
  if size = 0 then none
  else some (maskInsns decode start size size 0 (List.replicate size true))

structure SignatureBytes where
  address : String
  bytes : List Char
  mask : List Char
  deriving DecidableEq

/- `None` of the mask is an error only where operands are wildcarded. -/
def signatureMask (db : Idb) (address size : ℕ) (wildcardOperands : Bool) :
    Except ToolError (List Bool) :=
  if wildcardOperands then
    (db.operandMask address size).elim
      (.error (.idaError "failed to derive instruction operand mask")) .ok
  else .ok (List.replicate size true)

def handleSignatureBytes (idb : Option Idb) (address size : ℕ) (wildcardOperands : Bool) :
    Except ToolError SignatureBytes := do
  let db ← idb.elim (.error .noDatabaseOpen) .ok
  if size = 0 ∨ 1000000 < size then
    .error (.invalidParams "signature size must be between 1 and 1000000 bytes")
  else
    let bytes := db.getBytes address size
    if bytes.length ≠ size then .error (.addressOutOfRange address)
    else
      (signatureMask db address size wildcardOperands).map fun mask =>
        ⟨hexAddr address, TypedInt.hexEncode bytes,
          mask.map fun exact => if exact then 'x' else '?'⟩

/-! ### What operands cover -/

def Insn.operands (insn : Insn) : List Operand :=
  (insn.ops.take uaMaxop).takeWhile fun operand => operand.type ≠ .void

/-- Byte `j` of an instruction of `n` bytes comes from the operand on, and before the first
operand after it that begins later. -/
def Operand.Holds (operand : Operand) (after : List Operand) (n j : ℕ) : Prop :=
  operand.type.variable = true ∧ 0 < operand.offb ∧ operand.offb ≤ j ∧ j < n ∧
    ∀ next, after.find? (operand.offb < ·.offb) = some next → j < next.offb

/-- Byte `j` of an instruction of `n` bytes belongs to an operand that may change. -/
def Covered (n j : ℕ) (operands : List Operand) : Prop :=
  ∃ before operand after, operands = before ++ operand :: after ∧ operand.Holds after n j

/-- The walk goes on from one place to the next. -/
def Walks (decode : ℕ → Insn) (start size : ℕ) (d d' : ℕ) : Prop :=
  d < size ∧ d' = d + max 1 (decode (start + d)).length

/-- Byte `i` of the range belongs to an operand of an instruction that the walk comes by. -/
def OperandByte (decode : ℕ → Insn) (start size : ℕ) (first i : ℕ) : Prop :=
  ∃ d, Relation.ReflTransGen (Walks decode start size) first d ∧ d ≤ i ∧
    Covered (min (decode (start + d)).length (size - d)) (i - d) (decode (start + d)).operands

variable {decode : ℕ → Insn} {start size done offb n i j : ℕ} {operand : Operand}
  {ops : List Operand} {mask : List Bool}

theorem not_covered_nil : ¬ Covered n j [] := by
  rintro ⟨before, operand, after, h, -⟩
  simp at h

theorem covered_cons :
    Covered n j (operand :: ops) ↔ operand.Holds ops n j ∨ Covered n j ops := by
  constructor
  · rintro ⟨before, op, after, h, hholds⟩
    cases before with
    | nil =>
      obtain ⟨rfl, rfl⟩ := List.cons.inj h
      exact Or.inl hholds
    | cons first before =>
      obtain ⟨-, hrest⟩ := List.cons.inj h
      exact Or.inr ⟨before, op, after, hrest, hholds⟩
  · rintro (hholds | ⟨before, op, after, h, hholds⟩)
    · exact ⟨[], operand, ops, rfl, hholds⟩
    · exact ⟨operand :: before, op, after, by rw [h, List.cons_append], hholds⟩

theorem Covered.pos (h : Covered n j ops) : 0 < j := by
  obtain ⟨before, op, after, -, -, hpos, hle, -⟩ := h
  omega

theorem Covered.lt (h : Covered n j ops) : j < n := by
  obtain ⟨before, op, after, -, -, -, -, hlt, -⟩ := h
  exact hlt

/-! ### The ops of one instruction -/

theorem lt_operandEnd :
    j < operandEnd n offb ops ↔ j < n ∧
      ∀ next, (ops.takeWhile fun operand => operand.type ≠ .void).find? (offb < ·.offb) =
        some next → j < next.offb := by
  induction ops with
  | nil => simp [operandEnd]
  | cons next rest ih =>
    by_cases hvoid : next.type = .void
    · simp [operandEnd, hvoid]
    · by_cases hlater : offb < next.offb
      · simp [operandEnd, hvoid, hlater]
      · rw [operandEnd, if_neg hvoid, if_neg hlater, ih]
        simp [hvoid, hlater]

@[simp] theorem length_maskOperands :
    (maskOperands size done n ops mask).length = mask.length := by
  induction ops generalizing mask with
  | nil => rfl
  | cons operand rest ih =>
    rw [maskOperands]
    split
    · rfl
    · split
      · exact ih
      · rw [ih, length_fill]

theorem fill_eq_false {l : List Bool} {stop : ℕ} :
    (fill l start stop false)[i]? = some false ↔
      l[i]? = some false ∨ i < l.length ∧ start ≤ i ∧ i < stop := by
  rw [getElem?_fill]
  by_cases hi : i < l.length
  · rw [List.getElem?_eq_getElem hi]
    by_cases hin : start ≤ i ∧ i < stop
    · simp [hi, hin]
    · simp [hin]
  · simp [hi]

/- What one operand clears is what it holds. -/
theorem maskOperands_false (hmask : mask.length = size) :
    (maskOperands size done n ops mask)[i]? = some false ↔ mask[i]? = some false ∨
      i < size ∧ done ≤ i ∧
        Covered n (i - done) (ops.takeWhile fun operand => operand.type ≠ .void) := by
  induction ops generalizing mask with
  | nil => simp [maskOperands, not_covered_nil]
  | cons operand rest ih =>
    by_cases hvoid : operand.type = .void
    · simp [maskOperands, hvoid, not_covered_nil]
    · have htake : (operand :: rest).takeWhile (fun operand => operand.type ≠ .void) =
          operand :: rest.takeWhile fun operand => operand.type ≠ .void := by
        simp [hvoid]
      rw [maskOperands, if_neg hvoid, htake, covered_cons]
      split
      · rename_i hskip
        have hnot : ¬ operand.Holds (rest.takeWhile fun operand => operand.type ≠ .void) n
            (i - done) := by
          rintro ⟨hvar, hpos, hle, hlt, -⟩
          simp only [hvar, Bool.not_true, Bool.false_or, Bool.or_eq_true, decide_eq_true_eq]
            at hskip
          omega
        rw [ih hmask]
        simp only [hnot, false_or]
      · rename_i hclear
        simp only [Bool.or_eq_true, Bool.not_eq_true', decide_eq_true_eq, not_or,
          Bool.not_eq_false, Nat.not_le] at hclear
        obtain ⟨⟨hvar, hpos⟩, hlt⟩ := hclear
        have hend := @lt_operandEnd operand.offb n (i - done) rest
        rw [ih (by rw [length_fill, hmask]), fill_eq_false, hmask]
        have hholds : (done + operand.offb ≤ i ∧
            i < min (done + operandEnd n operand.offb rest) size) ↔ i < size ∧ done ≤ i ∧
              operand.Holds (rest.takeWhile fun operand => operand.type ≠ .void) n (i - done) := by
          rw [Operand.Holds, ← hend]
          constructor
          · rintro ⟨hfrom, hto⟩
            exact ⟨by omega, by omega, hvar, by omega, by omega, by omega⟩
          · rintro ⟨hi, hdone, -, -, hle, hto⟩
            exact ⟨by omega, by omega⟩
        rw [hholds]
        simp only [and_self_left, or_assoc, and_or_left]

/-! ### The walk -/

theorem operandByte_iff {first : ℕ} :
    OperandByte decode start size first i ↔
      (first ≤ i ∧ Covered (min (decode (start + first)).length (size - first)) (i - first)
        (decode (start + first)).operands) ∨
      first < size ∧
        OperandByte decode start size (first + max 1 (decode (start + first)).length) i := by
  constructor
  · rintro ⟨d, hwalk, hd⟩
    rcases Relation.ReflTransGen.cases_head hwalk with rfl | ⟨next, ⟨hlt, rfl⟩, hrest⟩
    · exact Or.inl hd
    · exact Or.inr ⟨hlt, d, hrest, hd⟩
  · rintro (hd | ⟨hlt, d, hwalk, hd⟩)
    · exact ⟨first, .refl, hd⟩
    · exact ⟨d, .head ⟨hlt, rfl⟩ hwalk, hd⟩

theorem not_operandByte_of_le {first : ℕ} (h : size ≤ first) :
    ¬ OperandByte decode start size first i := by
  rw [operandByte_iff]
  rintro (⟨-, hcovered⟩ | ⟨hlt, -⟩)
  · have hlt := hcovered.lt
    omega
  · omega

/- `size ≤ fuel + done` carries the induction: every round spends one of the fuel and goes on by
a byte at least. -/
theorem maskInsns_false {fuel : ℕ} (hmask : mask.length = size) (hfuel : size ≤ fuel + done) :
    (maskInsns decode start size fuel done mask)[i]? = some false ↔
      mask[i]? = some false ∨ i < size ∧ OperandByte decode start size done i := by
  induction fuel generalizing done mask with
  | zero =>
    have hdone : size ≤ done := by omega
    simp [maskInsns, not_operandByte_of_le hdone]
  | succ fuel ih =>
    by_cases hdone : done < size
    · rw [maskInsns, if_pos hdone, operandByte_iff]
      by_cases hzero : (decode (start + done)).length = 0
      · have hnot : ¬ Covered (min (decode (start + done)).length (size - done)) (i - done)
            (decode (start + done)).operands := by
          intro hcovered
          have hlt := hcovered.lt
          omega
        have hnext : done + max 1 (decode (start + done)).length = done + 1 := by omega
        simp only [if_pos hzero, hnot, hnext, hdone, and_false, false_or, true_and]
        exact ih hmask (by omega)
      · have hnext : done + max 1 (decode (start + done)).length =
            done + (decode (start + done)).length := by omega
        simp only [if_neg hzero, hnext, hdone, true_and]
        rw [ih (by rw [length_maskOperands, hmask]) (by omega), maskOperands_false hmask,
          Insn.operands]
        rw [or_assoc, ← and_or_left]
    · rw [maskInsns, if_neg hdone]
      simp [not_operandByte_of_le (Nat.le_of_not_lt hdone)]

@[simp] theorem length_maskInsns {fuel : ℕ} :
    (maskInsns decode start size fuel done mask).length = mask.length := by
  induction fuel generalizing done mask with
  | zero => rfl
  | succ fuel ih =>
    simp only [maskInsns]
    split
    · split
      · exact ih
      · rw [ih, length_maskOperands]
    · rfl

/-- The mask has a place for every byte of the range, and clears those of operands. -/
theorem operandMask_spec (hsize : 0 < size) :
    ∃ mask, operandMask decode start size = some mask ∧ mask.length = size ∧
      ∀ i, mask[i]? = some false ↔ i < size ∧ OperandByte decode start size 0 i := by
  refine ⟨maskInsns decode start size size 0 (List.replicate size true), ?_, ?_, ?_⟩
  · rw [operandMask, if_neg (by omega)]
  · rw [length_maskInsns, List.length_replicate]
  · intro i
    rw [maskInsns_false List.length_replicate (by omega)]
    simp [List.getElem?_replicate]

/- The walk over one instruction goes nowhere else. -/
theorem operandByte_insn (hlen : (decode start).length = size) :
    OperandByte decode start size 0 i ↔ Covered size i (decode start).operands := by
  have hend : ¬ OperandByte decode start size (max 1 size) i :=
    not_operandByte_of_le (Nat.le_max_right 1 size)
  rw [operandByte_iff]
  simp only [Nat.add_zero, Nat.zero_add, hlen, hend, and_false, or_false, Nat.zero_le, true_and,
    Nat.sub_zero, Nat.min_self]

/-! ### The bytes that a signature collects -/

variable {db : Idb} {request : SignatureRequest} {k cursor : ℕ} {sig sig' : Sig}

/-- Byte `i` of the first `k` instructions belongs to an operand of the one it is in. -/
def CollectedOperand (db : Idb) (decode : ℕ → Insn) (request : SignatureRequest) (k i : ℕ) :
    Prop :=
  ∃ j sig cursor len, j < k ∧ collect db request j = some (sig, cursor) ∧
    insnLen db cursor = some len ∧ sig.length ≤ i ∧
    Covered len (i - sig.length) (decode cursor).operands

/-- The instructions and the masks of a database come from one decoder. -/
structure DecodedBy (db : Idb) (decode : ℕ → Insn) : Prop where
  insn : ∀ a len, insnLen db a = some len → (decode a).length = len
  mask : ∀ a n, db.operandMask a n = operandMask decode a n

theorem appendInstruction_wildcard {addr len : ℕ} {wild : Bool} {b : SignatureByte}
    (h : appendInstruction db sig addr len wild = .ok sig')
    (hdb : DecodedBy db decode) (hlen : insnLen db addr = some len) (hi : sig.length ≤ i)
    (hb : sig'[i]? = some b) :
    b.wildcard = true ↔ wild = true ∧ Covered len (i - sig.length) (decode addr).operands := by
  have hpos := insnLen_pos hlen
  have hdecode := hdb.insn addr len hlen
  simp only [appendInstruction] at h
  split at h
  · cases h
  · rename_i hread
    have hread' : (db.getBytes addr len).length = len := not_not.mp hread
    rw [← Except.ok.inj h, List.getElem?_append_right hi, List.getElem?_mapIdx,
      Option.map_eq_some_iff] at hb
    obtain ⟨byte, hbyte, rfl⟩ := hb
    have hplace := (List.getElem?_eq_some_iff.mp hbyte).1
    cases wild with
    | false =>
      have hin : i - sig.length < len := by omega
      simp [hin]
    | true =>
      obtain ⟨mask, hmask, hfull, hfalse⟩ := @operandMask_spec decode addr len hpos
      have hsome : i - sig.length < mask.length := by omega
      rw [← operandByte_insn hdecode]
      have hiff := hfalse (i - sig.length)
      rw [List.getElem?_eq_getElem hsome, Option.some.injEq] at hiff
      rw [hdb.mask, hmask]
      simp only [if_true, Option.getD_some, List.getElem?_eq_getElem hsome, Bool.not_eq_true',
        true_and]
      rw [hiff]
      exact ⟨fun h => h.2, fun h => ⟨by omega, h⟩⟩

theorem appendInstruction_prefix {addr len : ℕ} {wild : Bool}
    (h : appendInstruction db sig addr len wild = .ok sig') : sig <+: sig' := by
  simp only [appendInstruction] at h
  split at h
  · cases h
  · rw [← Except.ok.inj h]
    exact List.prefix_append _ _

theorem collect_length_le {s : Sig} {c : ℕ} (hj : j ≤ k)
    (h : collect db request k = some (sig, cursor))
    (h' : collect db request j = some (s, c)) : s.length ≤ sig.length := by
  induction k generalizing sig cursor with
  | zero =>
    obtain rfl : j = 0 := by omega
    rw [h] at h'
    obtain ⟨rfl, -⟩ := Prod.mk.inj (Option.some.inj h')
    exact Nat.le_refl _
  | succ k ih =>
    by_cases hlast : j = k + 1
    · rw [hlast, h] at h'
      obtain ⟨rfl, -⟩ := Prod.mk.inj (Option.some.inj h')
      exact Nat.le_refl _
    · obtain ⟨s', c', len, hcollect, hlen, happend, -⟩ := collect_succ h
      have hle := ih (by omega) hcollect
      have hlength := appendInstruction_length happend
      simp only at hlength
      omega

/- An instruction that is followed by others ends before they do. -/
theorem collect_insn_le {s : Sig} {c len : ℕ} (hj : j < k)
    (h : collect db request k = some (sig, cursor)) (h' : collect db request j = some (s, c))
    (hlen : insnLen db c = some len) :
    ∃ s', collect db request (j + 1) = some (s', saturatingAdd c len) ∧
      s'.length = s.length + len ∧ s'.length ≤ sig.length := by
  have hsome := collect_isSome_of_le (k := k) (by rw [h]; rfl) (Nat.succ_le_of_lt hj)
  obtain ⟨⟨s', c'⟩, hnext⟩ := Option.isSome_iff_exists.mp hsome
  obtain ⟨s₀, c₀, len₀, hcollect, hlen₀, happend, hcursor⟩ := collect_succ hnext
  rw [h'] at hcollect
  obtain ⟨rfl, rfl⟩ := Prod.mk.inj (Option.some.inj hcollect)
  rw [hlen] at hlen₀
  obtain rfl := Option.some.inj hlen₀
  simp only at happend hcursor
  exact ⟨s', by rw [hnext, hcursor], appendInstruction_length happend,
    collect_length_le (Nat.succ_le_of_lt hj) h hnext⟩

theorem wildcard_iff (hdb : DecodedBy db decode) (h : collect db request k = some (sig, cursor))
    {b : SignatureByte} (hb : sig[i]? = some b) :
    b.wildcard = true ↔
      request.wildcardOperands = true ∧ CollectedOperand db decode request k i := by
  induction k generalizing sig cursor with
  | zero =>
    obtain ⟨rfl, -⟩ := Prod.mk.inj (Option.some.inj h)
    simp at hb
  | succ k ih =>
    obtain ⟨s, c, len, hcollect, hlen, happend, -⟩ := collect_succ h
    simp only at happend
    by_cases hi : i < s.length
    · have hold : s[i]? = some b := by
        obtain ⟨rest, hrest⟩ := appendInstruction_prefix happend
        rw [← hb, ← hrest, List.getElem?_append_left hi]
      rw [ih hcollect hold]
      apply and_congr_right
      intro _
      constructor
      · rintro ⟨j, s', c', len', hj, hrest⟩
        exact ⟨j, s', c', len', by omega, hrest⟩
      · rintro ⟨j, s', c', len', hj, hcollect', hrest⟩
        have hne : j ≠ k := by
          rintro rfl
          rw [hcollect] at hcollect'
          obtain ⟨rfl, -⟩ := Prod.mk.inj (Option.some.inj hcollect')
          have hle := hrest.2.1
          omega
        exact ⟨j, s', c', len', by omega, hcollect', hrest⟩
    · rw [appendInstruction_wildcard happend hdb hlen (Nat.le_of_not_lt hi) hb]
      apply and_congr_right
      intro _
      constructor
      · intro hcovered
        exact ⟨k, s, c, len, Nat.lt_succ_self k, hcollect, hlen, Nat.le_of_not_lt hi, hcovered⟩
      · rintro ⟨j, s', c', len', hj, hcollect', hlen', hle, hcovered⟩
        by_cases hjk : j = k
        · subst hjk
          rw [hcollect] at hcollect'
          obtain ⟨rfl, rfl⟩ := Prod.mk.inj (Option.some.inj hcollect')
          rw [hlen] at hlen'
          obtain rfl := Option.some.inj hlen'
          exact hcovered
        · obtain ⟨s'', -, hlength, hwithin⟩ :=
            collect_insn_le (show j < k by omega) hcollect hcollect' hlen'
          have hlt := hcovered.lt
          omega

/- An operand does not begin where its instruction does. -/
theorem trimmed_ne_nil (hdb : DecodedBy db decode) (hpos : 0 < k)
    (h : collect db request k = some (sig, cursor)) : trimTrailingWildcards sig ≠ [] := by
  have hlength : 0 < sig.length := Nat.lt_of_lt_of_le hpos (le_length_of_collect h)
  intro hnil
  have hall := List.rdropWhile_eq_nil_iff.mp hnil _ (List.getElem_mem hlength)
  rw [wildcard_iff hdb h (List.getElem?_eq_getElem hlength)] at hall
  obtain ⟨-, j, s, c, len, -, -, -, -, hcovered⟩ := hall
  have hfirst := hcovered.pos
  omega

/-- Wherever growth ends there is a signature, with wildcards for the bytes of operands and for
no others. -/
theorem operands_masked (hdb : DecodedBy db decode) (hadmitted : Admitted db request)
    (hstop : StopsAt db request k sig cursor) :
    handleMakeSignature (some db) request = .ok (resultAt db request k sig) ∧
      ∀ (i : ℕ) (b : SignatureByte), sig[i]? = some b →
        (b.wildcard = true ↔
          request.wildcardOperands = true ∧ CollectedOperand db decode request k i) := by
  refine ⟨?_, fun i b hb => wildcard_iff hdb hstop.collected hb⟩
  rcases handleMakeSignature_cases hadmitted with ⟨e, -, hnil⟩ | ⟨j, s, c, hother, -, hok⟩
  · exact absurd (hnil k sig cursor hstop) (trimmed_ne_nil hdb hstop.pos hstop.collected)
  · obtain ⟨rfl, rfl⟩ := hstop.unique hother
    exact hok

/-- A call twice. The operand of a call begins at its second byte. -/
def callInsn (a : ℕ) : Insn := if a = 0x1000 ∨ a = 0x1005 then ⟨5, [⟨.near, 1⟩]⟩ else ⟨0, []⟩

def callsDb : Idb :=
  .ofSegments [⟨0x1000, [0xE8, 1, 0, 0, 0, 0xE8, 2, 0, 0, 0], true, by decide⟩] (by decide)
    (fun a => some (callInsn a).length) (operandMask callInsn)

def callsRequest : SignatureRequest := ⟨0x1000, some 0x100A, true, 16, .ida⟩

def callsSig : Sig :=
  [⟨0xE8, false⟩, ⟨1, true⟩, ⟨0, true⟩, ⟨0, true⟩, ⟨0, true⟩,
    ⟨0xE8, false⟩, ⟨2, true⟩, ⟨0, true⟩, ⟨0, true⟩, ⟨0, true⟩]

theorem callsDb_decoded : DecodedBy callsDb callInsn where
  insn := by
    intro a len h
    have hsome := (Option.filter_eq_some_iff.mp h).1
    exact Option.some.inj hsome
  mask := fun _ _ => rfl

theorem calls_collected : collect callsDb callsRequest 2 = some (callsSig, 0x100A) := by
  decide +kernel

theorem calls_stop : StopsAt callsDb callsRequest 2 callsSig 0x100A where
  pos := by decide
  collected := calls_collected
  before := by
    intro j s c hj hlt h
    obtain rfl : j = 1 := by omega
    have hone : collect callsDb callsRequest 1 = some (callsSig.take 5, 0x1005) := by
      decide +kernel
    obtain ⟨rfl, rfl⟩ := Prod.mk.inj (Option.some.inj (hone.symm.trans h))
    decide
  here := fun h => absurd h.2 (Nat.lt_irrefl 0x100A)

theorem operands_masked_calls :
    handleMakeSignature (some callsDb) callsRequest =
        .ok (resultAt callsDb callsRequest 2 callsSig) ∧
      (true = true ↔ callsRequest.wildcardOperands = true ∧
        CollectedOperand callsDb callInsn callsRequest 2 6) := by
  have hmasked := operands_masked callsDb_decoded ⟨by decide, by decide, by decide⟩ calls_stop
  exact ⟨hmasked.1, hmasked.2 6 ⟨2, true⟩ rfl⟩

/-! ### The same bytes, read as a range -/

/- The walk over the collected bytes comes by the collected instructions. -/
theorem operandByte_collected (hdb : DecodedBy db decode)
    (hend : request.address + sig.length < 2 ^ 64)
    (h : collect db request k = some (sig, cursor)) {s : Sig} {c : ℕ} (hj : j ≤ k)
    (h' : collect db request j = some (s, c)) :
    OperandByte decode request.address sig.length s.length i ↔
      ∃ j' s' c' len, j ≤ j' ∧ j' < k ∧ collect db request j' = some (s', c') ∧
        insnLen db c' = some len ∧ s'.length ≤ i ∧
        Covered len (i - s'.length) (decode c').operands := by
  obtain ⟨m, hm⟩ : ∃ m, m = k - j := ⟨_, rfl⟩
  induction m generalizing j s c with
  | zero =>
    obtain rfl : j = k := by omega
    rw [h] at h'
    obtain ⟨rfl, -⟩ := Prod.mk.inj (Option.some.inj h')
    constructor
    · intro hop
      exact absurd hop (not_operandByte_of_le (Nat.le_refl _))
    · rintro ⟨j', s', c', len, hle, hlt, -⟩
      omega
  | succ m ih =>
    have hjk : j < k := by omega
    obtain ⟨p, hp⟩ : ∃ p, collect db request (j + 1) = some p :=
      Option.isSome_iff_exists.mp
        (collect_isSome_of_le (k := k) (by rw [h]; rfl) (Nat.succ_le_of_lt hjk))
    obtain ⟨s₀, c₀, len, hcollect, hlen, -, -⟩ := collect_succ hp
    rw [h'] at hcollect
    obtain ⟨rfl, rfl⟩ := Prod.mk.inj (Option.some.inj hcollect)
    obtain ⟨s', hnext, hlength, hwithin⟩ := collect_insn_le hjk h h' hlen
    have hpos := insnLen_pos hlen
    have hcursor : c = request.address + s.length := by
      rw [(collect_byte (by omega) h').1, saturatingAdd, usizeMax]
      omega
    have hdecode : (decode (request.address + s.length)).length = len := by
      rw [← hcursor]
      exact hdb.insn c len hlen
    have hstep : s.length + max 1 len = s'.length := by omega
    rw [operandByte_iff, hdecode, hstep, ih (Nat.succ_le_of_lt hjk) hnext (by omega), ← hcursor,
      Nat.min_eq_left (by omega)]
    constructor
    · rintro (⟨hle, hcovered⟩ | ⟨-, j', s', c', len', hle, hrest⟩)
      · exact ⟨j, s, c, len, Nat.le_refl j, hjk, h', hlen, hle, hcovered⟩
      · exact ⟨j', s', c', len', by omega, hrest⟩
    · rintro ⟨j', s'', c', len', hle, hlt, hcollect', hlen', hrest⟩
      by_cases hsame : j' = j
      · subst hsame
        rw [h'] at hcollect'
        obtain ⟨rfl, rfl⟩ := Prod.mk.inj (Option.some.inj hcollect')
        rw [hlen] at hlen'
        obtain rfl := Option.some.inj hlen'
        exact Or.inl hrest
      · exact Or.inr ⟨by omega, j', s'', c', len', by omega, hlt, hcollect', hlen', hrest⟩

theorem getBytes_collected (hcollect : collect db request k = some (sig, cursor))
    (hwithin : Within db request.address sig.length) :
    db.getBytes request.address sig.length = sig.map SignatureByte.value := by
  obtain ⟨seg, hseg, hfrom, hto⟩ := hwithin
  have hlt := seg.end_lt
  have hseglen : seg.len = seg.bytes.length := rfl
  obtain ⟨offset, hoffset⟩ : ∃ offset, request.address = seg.startAddress + offset :=
    ⟨request.address - seg.startAddress, by omega⟩
  by_cases hnil : sig.length = 0
  · rw [List.length_eq_zero_iff.mp hnil, List.map_nil, List.length_nil, hoffset]
    exact List.length_eq_zero_iff.mp (db.length_getBytes seg hseg offset 0 (by omega))
  have hread : (db.getBytes request.address sig.length).length = sig.length := by
    rw [hoffset]
    exact db.length_getBytes seg hseg offset _ (by omega)
  apply List.ext_getElem?
  intro i
  by_cases hi : i < sig.length
  · rw [db.getBytes_byte seg hseg request.address sig.length i (offset + i) (by omega)
        (by omega) (by omega),
      List.getElem?_map, (collect_byte (by omega) hcollect).2 seg hseg i (offset + i) (by omega)
        (by omega) hi]
  · rw [List.getElem?_eq_none (by omega), List.getElem?_eq_none]
    rw [List.length_map]
    omega

theorem operandMask_collected (hdb : DecodedBy db decode) (hpos : 0 < sig.length)
    (hend : request.address + sig.length < 2 ^ 64) (hwild : request.wildcardOperands = true)
    (hcollect : collect db request k = some (sig, cursor)) :
    operandMask decode request.address sig.length = some (sig.map fun b => !b.wildcard) := by
  obtain ⟨mask, hmask, hfull, hfalse⟩ := @operandMask_spec decode request.address sig.length hpos
  rw [hmask, Option.some.injEq]
  apply List.ext_getElem?
  intro i
  by_cases hi : i < sig.length
  · have hin : i < mask.length := by omega
    have hop := wildcard_iff hdb hcollect (List.getElem?_eq_getElem hi)
    have hwalk := operandByte_collected (i := i) (s := []) hdb hend hcollect (Nat.zero_le k) rfl
    simp only [List.length_nil, Nat.zero_le, true_and] at hwalk
    have hplace := hfalse i
    rw [List.getElem?_eq_getElem hin, Option.some.injEq, hwalk] at hplace
    have hclear : mask[i] = false ↔ sig[i].wildcard = true := by
      rw [hplace, hop, hwild]
      simp only [hi, true_and]
      rfl
    rw [List.getElem?_eq_getElem hin, List.getElem?_map, List.getElem?_eq_getElem hi,
      Option.map_some, Option.some.injEq]
    cases hbyte : sig[i].wildcard with
    | false => simpa [hbyte] using hclear
    | true => simpa [hbyte] using hclear
  · rw [List.getElem?_eq_none (by omega), List.getElem?_eq_none]
    rw [List.length_map]
    omega

theorem signatureMask_collected (hdb : DecodedBy db decode) (hpos : 0 < sig.length)
    (hend : request.address + sig.length < 2 ^ 64)
    (hcollect : collect db request k = some (sig, cursor)) :
    signatureMask db request.address sig.length request.wildcardOperands =
      .ok (sig.map fun b => !b.wildcard) := by
  rw [signatureMask]
  cases hwild : request.wildcardOperands with
  | false =>
    have hplain : (sig.map fun b => !b.wildcard) = List.replicate sig.length true := by
      rw [List.eq_replicate_iff]
      refine ⟨List.length_map _, ?_⟩
      intro x hx
      obtain ⟨i, hi⟩ := List.mem_iff_getElem?.mp hx
      rw [List.getElem?_map, Option.map_eq_some_iff] at hi
      obtain ⟨b, hb, rfl⟩ := hi
      have hnot := wildcard_iff hdb hcollect hb
      simpa [hwild] using hnot
    rw [hplain]
    rfl
  | true =>
    rw [if_pos rfl, hdb.mask, operandMask_collected hdb hpos hend hwild hcollect]
    rfl

/-- The two tools agree: the bytes that a signature collects, read as one range, show the
same bytes and the same mask. -/
theorem signature_bytes_agree (hdb : DecodedBy db decode) (hpos : 0 < k)
    (hcollect : collect db request k = some (sig, cursor)) (hsize : sig.length ≤ 1000000)
    (hwithin : Within db request.address sig.length) :
    handleSignatureBytes (some db) request.address sig.length request.wildcardOperands =
      .ok ⟨hexAddr request.address, TypedInt.hexEncode (sig.map SignatureByte.value),
        sig.map fun b => if b.wildcard then '?' else 'x'⟩ := by
  have hlength : 0 < sig.length := Nat.lt_of_lt_of_le hpos (le_length_of_collect hcollect)
  have hend : request.address + sig.length < 2 ^ 64 := by
    obtain ⟨seg, -, -, hto⟩ := hwithin
    exact Nat.lt_of_le_of_lt hto seg.end_lt
  have hread := getBytes_collected hcollect hwithin
  have hfull : ¬ (db.getBytes request.address sig.length).length ≠ sig.length := by
    rw [hread, List.length_map]
    exact not_not.mpr rfl
  have hbound : ¬ (sig.length = 0 ∨ 1000000 < sig.length) := by omega
  have hflip : (fun b : SignatureByte => if (!b.wildcard) = true then 'x' else '?') =
      fun b => if b.wildcard then '?' else 'x' := by
    funext b
    cases b.wildcard <;> rfl
  simp only [handleSignatureBytes, Option.elim_some, bind, Except.bind, if_neg hbound]
  rw [if_neg hfull, signatureMask_collected hdb hlength hend hcollect, Except.map, List.map_map,
    hread]
  simp only [Function.comp_def, hflip]

theorem signature_bytes_agree_calls :
    handleSignatureBytes (some callsDb) 0x1000 10 true =
      .ok ⟨"0x1000", "e801000000e802000000".toList, "x????x????".toList⟩ := by
  have hagree := signature_bytes_agree callsDb_decoded (by decide) calls_collected (by decide)
    ⟨_, List.mem_singleton_self _, by decide, by decide⟩
  have haddress : hexAddr callsRequest.address = "0x1000" := by decide +kernel
  have hbytes : TypedInt.hexEncode (callsSig.map SignatureByte.value) =
      "e801000000e802000000".toList := by decide +kernel
  rw [haddress, hbytes] at hagree
  exact hagree

end IdaHeadless.Signature
