import IdaHeadless.Address.Grammar
import IdaHeadless.Lines
import IdaHeadless.Payload.SignedValue
import IdaHeadless.Traversal

/-!
# Lists of addresses (server/address.rs)

A list of addresses is an array of texts and numbers, such an array as a text, or texts with commas
between them. The last two are told apart by the bracket that begins the array.
-/

namespace IdaHeadless.Address

open Text Radix Payload Traversal

/-- `serde_json::from_str`. White space around an array is read over, and its text begins with a
bracket. -/
structure JsonReader where
  fromStr : List Char → Option Value
  trim_array : ∀ s arr, fromStr s = some (.array arr) → fromStr (trim s) = some (.array arr)
  array_bracket : ∀ s arr, fromStr s = some (.array arr) → (trim s).head? = some '['

variable {json : JsonReader} {tokens : List (List Char)} {arr : List Value} {s t : List Char}
  {v : Value} {n : ℕ} {addrs : List ℕ}

def elementText : Value → Except ToolError (List Char)
  | .string s => .ok s
  | .number n => .ok n.display.toList
  | _ => .error (.idaError "expected string or number")

def arrayStrings (arr : List Value) : Except ToolError (List (List Char)) := arr.mapM elementText

/-- The elements, if the text is that of an array. -/
def arrayText (json : JsonReader) (trimmed : List Char) : Option (List Value) :=
  if trimmed.head? = some '[' then
    match json.fromStr trimmed with
    | some (.array arr) => some arr
    | _ => none
  else none

def separated (trimmed : List Char) : Except ToolError (List (List Char)) :=
  if ',' ∈ trimmed then .ok (((trimmed.splitOn ',').map trim).filter (· ≠ []))
  else if trimmed = [] then .error (.idaError "empty string")
  else .ok [trimmed]

def valueToStrings (json : JsonReader) : Value → Except ToolError (List (List Char))
  | .string s =>
    match arrayText json (trim s) with
    | some arr => arrayStrings arr
    | none => separated (trim s)
  | .number n => .ok [n.display.toList]
  | .array arr => arrayStrings arr
  | _ => .error (.idaError "expected string, number, or array")

def parseAll (strings : List (List Char)) : Except ToolError (List ℕ) :=
  if strings = [] then .error (.invalidAddress "no addresses provided")
  else strings.mapM parseAddress

def valueToAddresses (json : JsonReader) (v : Value) : Except ToolError (List ℕ) :=
  (valueToStrings json v).bind parseAll

/-! ### The spellings of a list -/

/-- An element stands for its text. -/
inductive ElementOf : Value → List Char → Prop
  | string (s : List Char) : ElementOf (.string s) s
  | number (n : Number) : ElementOf (.number n) n.display.toList

inductive Spelling (json : JsonReader) (tokens : List (List Char)) : Value → Prop
  | array {arr : List Value} : List.Forall₂ ElementOf arr tokens → Spelling json tokens (.array arr)
  | commas : Spelling json tokens (.string ([','].intercalate tokens))
  | text {s : List Char} {arr : List Value} : json.fromStr s = some (.array arr) →
    List.Forall₂ ElementOf arr tokens → Spelling json tokens (.string s)
  | bare {t : List Char} : tokens = [t] → Spelling json tokens (.string t)

def Rejected (t : List Char) : Prop := ∃ e, parseAddress t = .error e

/-- All spellings give one list, the addresses of the tokens, and fail for a rejected token. -/
structure FormsAgree (json : JsonReader) (tokens : List (List Char)) : Prop where
  same : ∀ v w addrs, Spelling json tokens v → Spelling json tokens w →
    (valueToAddresses json v = .ok addrs ↔ valueToAddresses json w = .ok addrs)
  reads : ∀ v addrs, Spelling json tokens v → valueToAddresses json v = .ok addrs →
    List.Forall₂ (fun t a => parseAddress t = .ok a) tokens addrs
  fails : ∀ v, Spelling json tokens v →
    ((∃ e, valueToAddresses json v = .error e) ↔ ∃ t ∈ tokens, Rejected t)

/-- Joined by commas, the tokens are the text of an array of addresses. -/
def ReadAsArray (json : JsonReader) (tokens : List (List Char)) : Prop :=
  ∃ arr, json.fromStr (trim ([','].intercalate tokens)) = some (.array arr) ∧ arr ≠ [] ∧
    ∀ v ∈ arr, ∃ t, ElementOf v t ∧ ∃ n, IsAddress t n ∨ IsSignedAddress t n

/-! ### The texts of the elements -/

theorem elementText_eq_ok : elementText v = .ok t ↔ ElementOf v t := by
  constructor
  · intro h
    cases v with
    | string s =>
      cases h
      exact .string _
    | number n =>
      cases h
      exact .number _
    | _ => cases h
  · intro h
    cases h with
    | string => rfl
    | number => rfl

theorem arrayStrings_eq_ok : arrayStrings arr = .ok tokens ↔ List.Forall₂ ElementOf arr tokens := by
  simp only [arrayStrings, mapM_eq_ok_iff, elementText_eq_ok]

/-! ### One list -/

/-- The outcome is the addresses of the tokens, if they all have one. -/
def Reads (tokens : List (List Char)) (out : Except ToolError (List ℕ)) : Prop :=
  ∀ addrs, out = .ok addrs ↔ List.Forall₂ (fun t a => parseAddress t = .ok a) tokens addrs

theorem parseAll_reads (hne : tokens ≠ []) : Reads tokens (parseAll tokens) := by
  intro addrs
  rw [parseAll, if_neg hne, mapM_eq_ok_iff]

theorem parseAddress_trim (t : List Char) : parseAddress (trim t) = parseAddress t := by
  simp only [parseAddress, normalizeAddressToken, trim_trim]

theorem parseAll_trim (hne : tokens ≠ []) : Reads tokens (parseAll (tokens.map trim)) := by
  have hmap : tokens.map trim ≠ [] := fun h => hne (List.map_eq_nil_iff.mp h)
  intro addrs
  rw [parseAll_reads hmap, List.forall₂_map_left_iff]
  simp only [parseAddress_trim]

theorem array_reads (hne : tokens ≠ []) (h : List.Forall₂ ElementOf arr tokens) :
    Reads tokens ((arrayStrings arr).bind parseAll) := by
  rw [arrayStrings_eq_ok.mpr h]
  exact parseAll_reads hne

theorem bind_parseAll_eq_ok {out : Except ToolError (List (List Char))} :
    (∃ addrs, out.bind parseAll = .ok addrs) ↔
      ∃ strings, out = .ok strings ∧ strings ≠ [] ∧ ∀ t ∈ strings, ∃ n, parseAddress t = .ok n := by
  cases out with
  | error e => simp [Except.bind]
  | ok strings =>
    by_cases hnil : strings = []
    · simp [Except.bind, parseAll, hnil]
    · have hreads : ∀ addrs, (Except.ok strings).bind parseAll = .ok addrs ↔ _ :=
        parseAll_reads hnil
      simp only [hreads, exists_forall₂, Except.ok.injEq, exists_eq_left', ne_eq, hnil,
        not_false_eq_true, true_and]

/- An array gives addresses when it has elements and each of them is one. -/
theorem array_eq_ok : (∃ addrs, (arrayStrings arr).bind parseAll = .ok addrs) ↔
    arr ≠ [] ∧ ∀ v ∈ arr, ∃ t, ElementOf v t ∧ ∃ n, IsAddress t n ∨ IsSignedAddress t n := by
  simp only [← parse_iff, bind_parseAll_eq_ok, arrayStrings_eq_ok]
  constructor
  · rintro ⟨strings, helements, hne, hparse⟩
    refine ⟨?_, exists_forall₂.mp ⟨strings, forall₂_and_right helements hparse⟩⟩
    rintro rfl
    exact hne (List.forall₂_nil_left_iff.mp helements)
  · rintro ⟨hne, hall⟩
    obtain ⟨strings, hboth⟩ := exists_forall₂.mpr hall
    have helements := hboth.imp fun v t h => h.1
    refine ⟨strings, helements, ?_, fun t ht => ?_⟩
    · rintro rfl
      exact hne (List.forall₂_nil_right_iff.mp helements)
    · obtain ⟨v, -, hv⟩ := exists_left_of_mem hboth ht
      exact hv.2

theorem arrayText_eq_some :
    arrayText json t = some arr ↔ t.head? = some '[' ∧ json.fromStr t = some (.array arr) := by
  unfold arrayText
  split
  · rename_i hbracket
    split
    · rename_i arr' harr
      simp [hbracket, harr]
    · rename_i hnot
      exact iff_of_false (by simp) fun h => hnot arr h.2
  · rename_i hbracket
    simp [hbracket]

/-! ### The commas -/

theorem separated_join (hne : tokens ≠ []) (htokens : ∀ t ∈ tokens, trim t ≠ [] ∧ ',' ∉ t) :
    separated (trim ([','].intercalate tokens)) = .ok (tokens.map trim) := by
  have hpieces : ((trim ([','].intercalate tokens)).splitOn ',').map trim = tokens.map trim := by
    rw [splitOn_trim (by decide), List.splitOn_intercalate ',' (fun t ht => (htokens t ht).2) hne]
  have hfilter : (tokens.map trim).filter (· ≠ []) = tokens.map trim := by
    rw [List.filter_eq_self]
    intro w hw
    obtain ⟨t, ht, rfl⟩ := List.mem_map.mp hw
    simpa using (htokens t ht).1
  unfold separated
  split
  · rw [hpieces, hfilter]
  · rename_i hcomma
    rw [List.splitOn_eq_singleton hcomma, List.map_singleton, trim_trim] at hpieces
    split
    · rename_i hnil
      rw [hnil] at hpieces
      rw [← hpieces] at hfilter
      simp at hfilter
    · rw [hpieces]

/- No address begins with a bracket. -/
theorem rejected_of_bracket (h : (trim t).head? = some '[') : ¬ ∃ n, parseAddress t = .ok n := by
  rintro ⟨n, hn⟩
  rw [parseAddress_eq_ok] at hn
  obtain ⟨w, hw⟩ := List.head?_eq_some_iff.mp h
  simp [normalizeAddressToken, hw, parseDigits, stripMark, stripStart, Radix.parseUnsigned,
    dropPlus, digitsValue, digitValue, alnumValue] at hn

theorem head_of_join {ts : List (List Char)} (htokens : ∀ u ∈ t :: ts, trim u ≠ [] ∧ ',' ∉ u)
    (h : (trim ([','].intercalate (t :: ts))).head? = some '[') : (trim t).head? = some '[' := by
  obtain ⟨rest, hrest⟩ : ∃ rest, [','].intercalate (t :: ts) = t ++ rest := by
    cases ts with
    | nil => exact ⟨[], by simp⟩
    | cons u us => exact ⟨_, List.intercalate_cons_cons.trans (List.append_assoc _ _ _)⟩
  rwa [hrest, head_trim_append (htokens t List.mem_cons_self).1] at h

theorem reads_of_rejected {out : Except ToolError (List ℕ)} (ht : t ∈ tokens)
    (hrejected : ¬ ∃ n, parseAddress t = .ok n) (hout : ¬ ∃ addrs, out = .ok addrs) :
    Reads tokens out := by
  intro addrs
  apply iff_of_false
  · exact fun h => hout ⟨addrs, h⟩
  · intro hforall
    exact hrejected (exists_forall₂.mp ⟨addrs, hforall⟩ t ht)

/- A text between commas is read as the tokens, unless it is that of an array. -/
theorem commas_read (hne : tokens ≠ []) (htokens : ∀ t ∈ tokens, trim t ≠ [] ∧ ',' ∉ t)
    (harray : ¬ ReadAsArray json tokens) :
    Reads tokens (valueToAddresses json (.string ([','].intercalate tokens))) := by
  rw [valueToAddresses, valueToStrings]
  cases htext : arrayText json (trim ([','].intercalate tokens)) with
  | none =>
    simp only [separated_join hne htokens]
    exact parseAll_trim hne
  | some arr =>
    obtain ⟨hbracket, harr⟩ := arrayText_eq_some.mp htext
    obtain ⟨t, ts, rfl⟩ := List.exists_cons_of_ne_nil hne
    -- The bracket begins the first token, which is rejected.
    apply reads_of_rejected List.mem_cons_self
      (rejected_of_bracket (head_of_join htokens hbracket))
    rw [array_eq_ok]
    rintro ⟨hnonempty, hall⟩
    exact harray ⟨arr, harr, hnonempty, hall⟩

theorem spelling_reads {v : Value} (hne : tokens ≠ [])
    (htokens : ∀ t ∈ tokens, trim t ≠ [] ∧ ',' ∉ t) (harray : ¬ ReadAsArray json tokens)
    (h : Spelling json tokens v) : Reads tokens (valueToAddresses json v) := by
  cases h with
  | array helements => exact array_reads hne helements
  | commas => exact commas_read hne htokens harray
  | bare hone =>
    have hcommas := commas_read hne htokens harray
    rwa [hone, List.intercalate_singleton, ← hone] at hcommas
  | text htext helements =>
    have harrayText := arrayText_eq_some.mpr
      ⟨json.array_bracket _ _ htext, json.trim_array _ _ htext⟩
    rw [valueToAddresses, valueToStrings, harrayText]
    exact array_reads hne helements

/-! ### When the spellings agree -/

theorem error_iff {ε α : Type} {out : Except ε α} :
    (∃ e, out = .error e) ↔ ¬ ∃ a, out = .ok a := by
  cases out with
  | error e => simp
  | ok a => simp

theorem formsAgree_of_reads
    (h : ∀ v, Spelling json tokens v → Reads tokens (valueToAddresses json v)) :
    FormsAgree json tokens where
  same v w addrs hv hw := (h v hv addrs).trans (h w hw addrs).symm
  reads v addrs hv := (h v hv addrs).mp
  fails v hv := by
    have hok : (∃ addrs, valueToAddresses json v = .ok addrs) ↔
        ∀ t ∈ tokens, ∃ n, parseAddress t = .ok n := by
      simp only [h v hv _, exists_forall₂]
    rw [error_iff, hok]
    simp only [Rejected, error_iff, not_forall, exists_prop]

/- The array is accepted, the text between commas is read as another one. -/
theorem not_formsAgree (hne : tokens ≠ []) (htokens : ∀ t ∈ tokens, trim t ≠ [] ∧ ',' ∉ t)
    (harray : ReadAsArray json tokens) : ¬ FormsAgree json tokens := by
  intro hagree
  obtain ⟨arr, harr, hall⟩ := harray
  have hbracket : (trim ([','].intercalate tokens)).head? = some '[' := by
    have hhead := json.array_bracket _ _ harr
    rwa [trim_trim] at hhead
  obtain ⟨addrs, haddrs⟩ := array_eq_ok.mpr hall
  have hcommas : valueToAddresses json (.string ([','].intercalate tokens)) = .ok addrs := by
    rw [valueToAddresses, valueToStrings, arrayText_eq_some.mpr ⟨hbracket, harr⟩]
    exact haddrs
  obtain ⟨t, ts, rfl⟩ := List.exists_cons_of_ne_nil hne
  have hforall := hagree.reads _ addrs .commas hcommas
  have hfirst := exists_forall₂.mp ⟨addrs, hforall⟩ t List.mem_cons_self
  exact rejected_of_bracket (head_of_join htokens hbracket) hfirst

/-- Without a plus sign exactly the addresses are accepted, a printed address is read back, and the
spellings of a list agree exactly when its text between commas is not that of an array. -/
theorem addresses_read (json : JsonReader) :
    (∀ s, (¬ ∃ n, IsSignedAddress s n) → ∀ n, parseAddress s = .ok n ↔ IsAddress s n) ∧
      (∀ a, a < 2 ^ 64 → parseAddress (hexAddr a).toList = .ok a) ∧
      ∀ tokens, tokens ≠ [] → (∀ t ∈ tokens, trim t ≠ [] ∧ ',' ∉ t) →
        (FormsAgree json tokens ↔ ¬ ReadAsArray json tokens) := by
  refine ⟨?_, fun a ha => parseAddress_hexAddr ha, ?_⟩
  · intro s hunsigned n
    rw [parse_iff]
    exact or_iff_left fun hsigned => hunsigned ⟨n, hsigned⟩
  · intro tokens hne htokens
    constructor
    · intro hagree harray
      exact not_formsAgree hne htokens harray hagree
    · intro harray
      exact formsAgree_of_reads fun v hv => spelling_reads hne htokens harray hv

/-- A reader that knows two arrays. -/
def twoArrays : JsonReader where
  fromStr s :=
    if trim s = "[1]".toList then some (.array [.number (.posInt 1)])
    else if trim s = "[\"0x10\", 32]".toList then
      some (.array [.string "0x10".toList, .number (.posInt 32)])
    else none
  trim_array s arr h := by rwa [trim_trim]
  array_bracket s arr h := by
    split at h
    · rename_i htrim
      rw [htrim]
      decide
    · split at h
      · rename_i htrim
        rw [htrim]
        decide
      · cases h

theorem addresses_read_two :
    (parseAddress "0x1_0".toList = .ok 16 ↔ IsAddress "0x1_0".toList 16) ∧
      parseAddress (hexAddr 255).toList = .ok 255 ∧
      FormsAgree twoArrays ["0x10".toList, " 32".toList] := by
  obtain ⟨haccepts, hdisplay, hforms⟩ := addresses_read twoArrays
  refine ⟨haccepts _ ?_ 16, hdisplay 255 (by decide), (hforms _ (by simp) ?_).mpr ?_⟩
  · rintro ⟨n, radix, ds, hspelled, -⟩
    have htoken : normalizeAddressToken "0x1_0".toList = ['0', 'x', '1', '0'] := by decide +kernel
    rw [htoken] at hspelled
    cases hspelled
  · decide +kernel
  · rintro ⟨arr, harr, -⟩
    have hnone : twoArrays.fromStr (trim ([','].intercalate ["0x10".toList, " 32".toList])) =
        none := rfl
    rw [hnone] at harr
    cases harr

/- A plus sign is taken, and a token in front of whose bracket stands a blank is read as an array
where it is not an element of one. -/
theorem addresses_misread :
    (parseAddress "+5".toList = .ok 5 ∧ ¬ IsAddress "+5".toList 5) ∧
      (trim " [1]".toList ≠ [] ∧ ',' ∉ " [1]".toList ∧ " [1]".toList.head? ≠ some '[') ∧
      valueToAddresses twoArrays (.array [.string " [1]".toList]) =
        .error (.invalidAddress "[1]") ∧
      valueToAddresses twoArrays (.string " [1]".toList) = .ok [1] := by
  refine ⟨⟨by decide +kernel, ?_⟩, by decide +kernel, rfl, rfl⟩
  rintro ⟨radix, ds, hspelled, -, hv, -⟩
  have htoken : normalizeAddressToken "+5".toList = ['+', '5'] := by decide +kernel
  rw [htoken] at hspelled
  cases hspelled
  exact absurd hv (by decide)

end IdaHeadless.Address
