import Mathlib.Data.List.Basic
import Mathlib.Data.Nat.Notation

/-!
# Private metadata of a worker (ida/remote.rs)

A worker answers with session ids and close tokens that are no business of the client.
`strip_call_tool_result` takes them off the structured half of a result and off its first text, if
that is the same JSON or, without a structured half, an object.
-/

namespace IdaHeadless.WorkerMetadata

/-! ### JSON values -/

/-- `serde_json::Map`: the keys of an object are sorted, each of them stands there once. -/
@[ext]
structure Map (ν : Type) where
  fields : List (String × ν)
  sorted : (fields.map Prod.fst).Pairwise (· < ·)

/-- A JSON value. What stands under a key is only compared. -/
inductive Value (ν : Type) where
  | object (map : Map ν)
  | other (value : ν)

variable {ν β μ : Type} {m m' : Map ν} {v w p q : Value ν} {key : String} {keys : List String}

def Map.get (m : Map ν) (key : String) : Option ν := (m.fields.find? (·.1 = key)).map Prod.snd

def Map.remove (m : Map ν) (key : String) : Map ν where
  fields := m.fields.filter (·.1 ≠ key)
  sorted := m.sorted.sublist (List.filter_sublist.map Prod.fst)

/- `Value::get`. -/
def Value.get (v : Value ν) (key : String) : Option ν :=
  match v with
  | .object map => map.get key
  | .other _ => none

instance [BEq ν] : BEq (Value ν) where
  beq
    | .object m, .object m' => m.fields == m'.fields
    | .other a, .other b => a == b
    | _, _ => false

/-- What is used of `serde_json`. No value gets a key by being printed and read, and most values are
read back as they were. -/
structure SerdeJson (ν : Type) where
  fromStr : String → Option (Value ν)
  toStringPretty : Value ν → Option String
  display : Value ν → String
  /-- Nested no deeper than the reader goes, and without a float that it only reads approximately:
  the feature that reads every float back is off. -/
  Readable : Value ν → Prop
  readable_remove : ∀ m key, Readable (.object m) → Readable (.object (m.remove key))
  read_pretty : ∀ v text, Readable v → toStringPretty v = some text → fromStr text = some v
  read_display : ∀ v, Readable v → fromStr (display v) = some v
  keys_pretty : ∀ v w text key, toStringPretty v = some text → fromStr text = some w →
    v.get key = none → w.get key = none
  keys_display : ∀ v w key, fromStr (display v) = some w → v.get key = none → w.get key = none

/-- What is used of the blocks of `rmcp`. -/
structure ContentBlock (β : Type) where
  asText : β → Option String
  text : String → β
  asText_text : ∀ s, asText (text s) = some s

structure CallToolResult (ν β μ : Type) where
  content : List β
  structuredContent : Option (Value ν)
  isError : Option Bool
  resultMeta : Option μ

/-! ### `strip_worker_metadata` -/

def privateKeys : List String :=
  ["session_id", "close_hint", "close_owner_session_id", "close_token", "close_token_reused",
    "close_recovery_hint"]

def stripWorkerMetadata : Value ν → Value ν
  | .object map => .object (privateKeys.foldl Map.remove map)
  | .other value => .other value

/-! ### `strip_call_tool_result` -/

section Strip

variable [BEq ν] (json : SerdeJson ν) (block : ContentBlock β) (r : CallToolResult ν β μ)

def firstText : Option String := r.content.head?.bind block.asText

def rewriteFirstText (text : String) : CallToolResult ν β μ :=
  if (firstText block r).isSome then { r with content := r.content.set 0 (block.text text) } else r

def printed (v : Value ν) : String := (json.toStringPretty v).getD (json.display v)

/- The JSON value of the first text. -/
def firstValue : Option (Value ν) := (firstText block r).bind json.fromStr

def stripCallToolResult : CallToolResult ν β μ :=
  match r.structuredContent with
  | some structured =>
    let stripped := stripWorkerMetadata structured
    let rewritten :=
      if (firstValue json block r).any (· == structured) then
        rewriteFirstText block r (printed json stripped)
      else r
    { rewritten with structuredContent := some stripped }
  | none =>
    match firstValue json block r with
    | some original =>
      let value := stripWorkerMetadata original
      if value != original then rewriteFirstText block r (printed json value) else r
    | none => r

end Strip

/-! ### What is promised -/

/-- No private key is left, every other one keeps its value. -/
structure Cleaned (v w : Value ν) : Prop where
  hidden : ∀ key ∈ privateKeys, w.get key = none
  kept : ∀ key ∉ privateKeys, w.get key = v.get key
  object : ∀ m, v = .object m → ∃ m', w = .object m'
  other : ∀ a, v = .other a → w = v

section Promise

variable [BEq ν] (json : SerdeJson ν) (block : ContentBlock β)

/-- Two results, as JSON. -/
structure JsonEqual (r s : CallToolResult ν β μ) : Prop where
  structured : r.structuredContent = s.structuredContent
  first : r.content.head? = s.content.head? ∨ ∃ p q, firstValue json block r = some p ∧
    firstValue json block s = some q ∧ (p == q) = true
  others : r.content.tail = s.content.tail
  isError : r.isError = s.isError
  resultMeta : r.resultMeta = s.resultMeta

/-- The first text is the JSON of the structured half or, without one, an object. -/
def HasJsonText (r : CallToolResult ν β μ) : Prop :=
  match r.structuredContent with
  | some v => ∃ p, firstValue json block r = some p ∧ (p == v) = true
  | none => ∃ m, firstValue json block r = some (.object m)

/-- `s` is `r` without the private keys of the structured half and of such a first text, which is
the same JSON as the structured half after as before. -/
structure Strips (r s : CallToolResult ν β μ) : Prop where
  structured : ∀ v, r.structuredContent = some v → ∃ w, s.structuredContent = some w ∧ Cleaned v w
  unstructured : r.structuredContent = none → s.structuredContent = none
  hidden_text : HasJsonText json block r → ∀ q, firstValue json block s = some q →
    ∀ key ∈ privateKeys, q.get key = none
  same_text : ∀ v, r.structuredContent = some v → HasJsonText json block r → json.Readable v →
    ∃ q w, s.structuredContent = some w ∧ firstValue json block s = some q ∧ (q == w) = true ∧
      Cleaned v q
  object_text : ∀ m, r.structuredContent = none → firstValue json block r = some (.object m) →
    json.Readable (.object m) → ∃ q, firstValue json block s = some q ∧ Cleaned (.object m) q
  other_text : ¬ HasJsonText json block r → s.content = r.content
  others : s.content.tail = r.content.tail
  isError : s.isError = r.isError
  resultMeta : s.resultMeta = r.resultMeta

end Promise

/-! ### Removing keys -/

theorem fields_removeAll (m : Map ν) (keys : List String) :
    (keys.foldl Map.remove m).fields = m.fields.filter (·.1 ∉ keys) := by
  induction keys generalizing m with
  | nil =>
    rw [List.foldl_nil, eq_comm, List.filter_eq_self]
    simp
  | cons key keys ih =>
    rw [List.foldl_cons, ih, Map.remove, List.filter_filter]
    apply List.filter_congr
    intro f _
    simp [not_or, Bool.and_comm]

theorem get_removeAll (m : Map ν) (keys : List String) (key : String) :
    (keys.foldl Map.remove m).get key = if key ∈ keys then none else m.get key := by
  rw [Map.get, fields_removeAll, List.find?_filter]
  split
  · rename_i hkey
    rw [List.find?_eq_none.mpr, Option.map_none]
    intro f _ hf
    simp only [decide_eq_true_eq] at hf
    rw [hf.2] at hf
    exact hf.1 hkey
  · rename_i hkey
    have hfind : (fun f : String × ν => decide (decide (f.1 ∉ keys) = true ∧
        decide (f.1 = key) = true)) = fun f => decide (f.1 = key) := by
      funext f
      by_cases hf : f.1 = key
      · simp [hf, hkey]
      · simp [hf]
    rw [hfind, Map.get]

theorem strip_cleaned (v : Value ν) : Cleaned v (stripWorkerMetadata v) := by
  cases v with
  | object m =>
    refine ⟨?_, ?_, ?_, ?_⟩
    · intro key hkey
      rw [stripWorkerMetadata, Value.get, get_removeAll, if_pos hkey]
    · intro key hkey
      rw [stripWorkerMetadata, Value.get, get_removeAll, if_neg hkey, Value.get]
    · intro m' _
      exact ⟨_, by rw [stripWorkerMetadata]⟩
    · intro a ha
      cases ha
  | other a =>
    refine ⟨fun key _ => by rw [stripWorkerMetadata, Value.get], fun key _ => ?_, ?_, ?_⟩
    · rw [stripWorkerMetadata]
    · intro m hm
      cases hm
    · intro b _
      rw [stripWorkerMetadata]

/- Without a private key nothing is lost. -/
theorem strip_fields (h : ∀ f ∈ m.fields, f.1 ∉ privateKeys) :
    stripWorkerMetadata (.object m) = .object m := by
  have hfields : (privateKeys.foldl Map.remove m).fields = m.fields := by
    rw [fields_removeAll, List.filter_eq_self]
    intro f hf
    exact decide_eq_true (h f hf)
  rw [stripWorkerMetadata, Map.ext hfields]

theorem strip_of_hidden (h : ∀ key ∈ privateKeys, v.get key = none) :
    stripWorkerMetadata v = v := by
  cases v with
  | object m =>
    apply strip_fields
    intro f hf hkey
    have hnone := h f.1 hkey
    rw [Value.get, Map.get, Option.map_eq_none_iff, List.find?_eq_none] at hnone
    exact hnone f hf (by simp)
  | other a => rfl

theorem strip_twice (v : Value ν) :
    stripWorkerMetadata (stripWorkerMetadata v) = stripWorkerMetadata v :=
  strip_of_hidden (strip_cleaned v).hidden

section Equality

variable [BEq ν]

theorem object_beq : ((Value.object m : Value ν) == .object m') = (m.fields == m'.fields) := rfl

theorem beq_self [ReflBEq ν] (v : Value ν) : (v == v) = true := by
  cases v with
  | object m => rw [object_beq, beq_self_eq_true]
  | other a =>
    have hbeq : ((Value.other a : Value ν) == .other a) = (a == a) := rfl
    rw [hbeq, beq_self_eq_true]

/- What equals what is left of it has lost nothing. -/
theorem strip_eq_self (h : (stripWorkerMetadata v == v) = true) : stripWorkerMetadata v = v := by
  cases v with
  | object m =>
    rw [stripWorkerMetadata, object_beq] at h
    have hlength := List.length_eq_of_beq h
    rw [fields_removeAll, List.length_filter_eq_length_iff] at hlength
    apply strip_fields
    intro f hf
    exact of_decide_eq_true (hlength f hf)
  | other a => rfl

end Equality

/-! ### The reader and the first text -/

section Results

variable {json : SerdeJson ν} {block : ContentBlock β} {r : CallToolResult ν β μ}

theorem readable_removeAll (keys : List String) (h : json.Readable (.object m)) :
    json.Readable (.object (keys.foldl Map.remove m)) := by
  induction keys generalizing m with
  | nil => exact h
  | cons key keys ih => exact ih (json.readable_remove m key h)

theorem readable_strip (h : json.Readable v) : json.Readable (stripWorkerMetadata v) := by
  cases v with
  | object m =>
    rw [stripWorkerMetadata]
    exact readable_removeAll privateKeys h
  | other a => exact h

theorem read_printed (h : json.Readable v) : json.fromStr (printed json v) = some v := by
  unfold printed
  cases hpretty : json.toStringPretty v with
  | none => exact json.read_display v h
  | some text => exact json.read_pretty v text h hpretty

theorem keys_printed (h : json.fromStr (printed json v) = some w) (hkey : v.get key = none) :
    w.get key = none := by
  unfold printed at h
  cases hpretty : json.toStringPretty v with
  | none =>
    rw [hpretty] at h
    exact json.keys_display v w key h hkey
  | some text =>
    rw [hpretty] at h
    exact json.keys_pretty v w text key hpretty h hkey

theorem firstText_of_value (h : firstValue json block r = some v) :
    ∃ b bs, r.content = b :: bs ∧ (block.asText b).isSome = true := by
  obtain ⟨text, htext, -⟩ := Option.bind_eq_some_iff.mp h
  cases hcontent : r.content with
  | nil =>
    rw [firstText, hcontent] at htext
    cases htext
  | cons b bs =>
    rw [firstText, hcontent, List.head?_cons, Option.bind_some] at htext
    exact ⟨b, bs, rfl, by rw [htext, Option.isSome_some]⟩

/- Rewriting a first text. -/
theorem rewrite_eq (h : firstValue json block r = some v) (text : String) :
    rewriteFirstText block r text =
      { r with content := block.text text :: r.content.tail } := by
  obtain ⟨b, bs, hcontent, hsome⟩ := firstText_of_value h
  have hfirst : (firstText block r).isSome = true := by
    rw [firstText, hcontent, List.head?_cons, Option.bind_some, hsome]
  rw [rewriteFirstText, if_pos hfirst, hcontent, List.set_cons_zero, List.tail_cons]

theorem firstValue_cons (b : β) (bs : List β) (h : r.content = b :: bs) :
    firstValue json block r = (block.asText b).bind json.fromStr := by
  rw [firstValue, firstText, h, List.head?_cons, Option.bind_some]

/- A text that was printed is read back. -/
theorem firstValue_printed {content : List β}
    (hcontent : r.content = block.text (printed json v) :: content) (h : json.Readable v) :
    firstValue json block r = some v := by
  rw [firstValue_cons _ _ hcontent, block.asText_text, Option.bind_some, read_printed h]

theorem hidden_printed {content : List β}
    (hcontent : r.content = block.text (printed json (stripWorkerMetadata v)) :: content)
    (hq : firstValue json block r = some q) : ∀ key ∈ privateKeys, q.get key = none := by
  rw [firstValue_cons _ _ hcontent, block.asText_text, Option.bind_some] at hq
  intro key hkey
  exact keys_printed hq ((strip_cleaned v).hidden key hkey)

/-! ### The four ways through `strip_call_tool_result` -/

variable [BEq ν]

theorem strip_same (hv : r.structuredContent = some v) (hp : firstValue json block r = some p)
    (hbeq : (p == v) = true) :
    stripCallToolResult json block r =
      { r with content := block.text (printed json (stripWorkerMetadata v)) :: r.content.tail
               structuredContent := some (stripWorkerMetadata v) } := by
  have hany : (firstValue json block r).any (· == v) = true := by rw [hp, Option.any_some, hbeq]
  unfold stripCallToolResult
  rw [hv]
  simp only [hany, if_true]
  rw [rewrite_eq hp]

theorem strip_different (hv : r.structuredContent = some v)
    (hp : ∀ p, firstValue json block r = some p → (p == v) = false) :
    stripCallToolResult json block r =
      { r with structuredContent := some (stripWorkerMetadata v) } := by
  have hany : (firstValue json block r).any (· == v) = false := by
    cases hvalue : firstValue json block r with
    | none => rfl
    | some p => rw [Option.any_some, hp p hvalue]
  unfold stripCallToolResult
  rw [hv]
  simp only [hany, if_false, Bool.false_eq_true]

theorem strip_private (hnone : r.structuredContent = none) (hp : firstValue json block r = some p)
    (hne : (stripWorkerMetadata p == p) = false) :
    stripCallToolResult json block r =
      { r with content := block.text (printed json (stripWorkerMetadata p)) ::
                 r.content.tail } := by
  unfold stripCallToolResult
  rw [hnone]
  simp only [hp, bne, hne, Bool.not_false, if_true]
  rw [rewrite_eq hp, hnone]

theorem strip_public (hnone : r.structuredContent = none)
    (hp : ∀ p, firstValue json block r = some p → (stripWorkerMetadata p == p) = true) :
    stripCallToolResult json block r = r := by
  unfold stripCallToolResult
  rw [hnone]
  cases hvalue : firstValue json block r with
  | none => rfl
  | some p => simp only [bne, hp p hvalue, Bool.not_true, if_false, Bool.false_eq_true]

/-! ### What comes out -/

theorem strips_different (hv : r.structuredContent = some v)
    (hp : ∀ p, firstValue json block r = some p → (p == v) = false) :
    Strips json block r (stripCallToolResult json block r) := by
  have hother : ¬ HasJsonText json block r := by
    simp only [HasJsonText, hv]
    rintro ⟨p, hvalue, hbeq⟩
    rw [hp p hvalue] at hbeq
    cases hbeq
  rw [strip_different hv hp]
  constructor
  case structured =>
    intro w hw
    rw [hv, Option.some.injEq] at hw
    exact ⟨_, rfl, hw ▸ strip_cleaned v⟩
  case unstructured =>
    intro hnone
    rw [hv] at hnone
    cases hnone
  case hidden_text => exact fun htext => absurd htext hother
  case same_text => exact fun _ _ htext => absurd htext hother
  case object_text =>
    intro m hnone
    rw [hv] at hnone
    cases hnone
  case other_text => exact fun _ => rfl
  case others => rfl
  case isError => rfl
  case resultMeta => rfl

theorem strips_public (hnone : r.structuredContent = none)
    (hp : ∀ p, firstValue json block r = some p → (stripWorkerMetadata p == p) = true) :
    Strips json block r (stripCallToolResult json block r) := by
  rw [strip_public hnone hp]
  constructor
  case structured =>
    intro v hv
    rw [hnone] at hv
    cases hv
  case unstructured => exact fun _ => hnone
  case hidden_text =>
    intro _ q hq
    have hcleaned := strip_cleaned q
    rw [strip_eq_self (hp q hq)] at hcleaned
    exact hcleaned.hidden
  case same_text =>
    intro v hv
    rw [hnone] at hv
    cases hv
  case object_text =>
    intro m _ hm _
    have hcleaned := strip_cleaned (.object m)
    rw [strip_eq_self (hp _ hm)] at hcleaned
    exact ⟨_, hm, hcleaned⟩
  case other_text => exact fun _ => rfl
  case others => rfl
  case isError => rfl
  case resultMeta => rfl

theorem JsonEqual.refl (r : CallToolResult ν β μ) : JsonEqual json block r r :=
  ⟨rfl, Or.inl rfl, rfl, rfl, rfl⟩

/- A structured half without private keys is kept, and a text that is its JSON stays so. -/
theorem jsonEqual_structured (hv : r.structuredContent = some v)
    (hclean : stripWorkerMetadata v = v) (hreadable : json.Readable v) :
    JsonEqual json block r (stripCallToolResult json block r) := by
  by_cases hsame : ∃ p, firstValue json block r = some p ∧ (p == v) = true
  · obtain ⟨p, hp, hbeq⟩ := hsame
    rw [strip_same hv hp hbeq, hclean]
    exact ⟨hv, .inr ⟨p, v, hp, firstValue_printed rfl hreadable, hbeq⟩, rfl, rfl, rfl⟩
  · have hdifferent : ∀ p, firstValue json block r = some p → (p == v) = false := by
      intro p hp
      exact Bool.eq_false_iff.mpr fun hbeq => hsame ⟨p, hp, hbeq⟩
    rw [strip_different hv hdifferent, hclean]
    exact ⟨hv, .inl rfl, rfl, rfl, rfl⟩

/-! ### Values that equal themselves -/

variable [ReflBEq ν]

theorem strips_same (hv : r.structuredContent = some v) (hp : firstValue json block r = some p)
    (hbeq : (p == v) = true) : Strips json block r (stripCallToolResult json block r) := by
  rw [strip_same hv hp hbeq]
  constructor
  case structured =>
    intro w hw
    rw [hv, Option.some.injEq] at hw
    exact ⟨_, rfl, hw ▸ strip_cleaned v⟩
  case unstructured =>
    intro hnone
    rw [hv] at hnone
    cases hnone
  case hidden_text => exact fun _ q hq => hidden_printed rfl hq
  case same_text =>
    intro w hw _ hreadable
    rw [hv, Option.some.injEq] at hw
    subst hw
    exact ⟨_, _, rfl, firstValue_printed rfl (readable_strip hreadable), beq_self _,
      strip_cleaned v⟩
  case object_text =>
    intro m hnone
    rw [hv] at hnone
    cases hnone
  case other_text =>
    intro hother
    have htext : HasJsonText json block r := by
      simp only [HasJsonText, hv]
      exact ⟨p, hp, hbeq⟩
    exact absurd htext hother
  case others => rfl
  case isError => rfl
  case resultMeta => rfl

theorem strips_private (hnone : r.structuredContent = none) (hp : firstValue json block r = some p)
    (hne : (stripWorkerMetadata p == p) = false) :
    Strips json block r (stripCallToolResult json block r) := by
  rw [strip_private hnone hp hne]
  constructor
  case structured =>
    intro v hv
    rw [hnone] at hv
    cases hv
  case unstructured => exact fun _ => hnone
  case hidden_text => exact fun _ q hq => hidden_printed rfl hq
  case same_text =>
    intro v hv
    rw [hnone] at hv
    cases hv
  case object_text =>
    intro m _ hm hreadable
    rw [hp, Option.some.injEq] at hm
    subst hm
    exact ⟨_, firstValue_printed rfl (readable_strip hreadable), strip_cleaned _⟩
  case other_text =>
    intro hother
    -- Only an object has something to lose.
    cases p with
    | object m =>
      have htext : HasJsonText json block r := by
        simp only [HasJsonText, hnone]
        exact ⟨m, hp⟩
      exact absurd htext hother
    | other a =>
      rw [stripWorkerMetadata, beq_self] at hne
      cases hne
  case others => rfl
  case isError => rfl
  case resultMeta => rfl

/-! ### A second time -/

theorem strip_unstructured_twice (hnone : r.structuredContent = none) :
    stripCallToolResult json block (stripCallToolResult json block r) =
      stripCallToolResult json block r := by
  by_cases hpublic : ∀ p, firstValue json block r = some p → (stripWorkerMetadata p == p) = true
  · rw [strip_public hnone hpublic, strip_public hnone hpublic]
  · push Not at hpublic
    obtain ⟨p, hp, hne⟩ := hpublic
    rw [strip_private hnone hp (Bool.eq_false_iff.mpr hne)]
    apply strip_public
    · exact hnone
    · intro q hq
      rw [strip_of_hidden (hidden_printed rfl hq), beq_self]

theorem strip_jsonEqual (hreadable : ∀ v, r.structuredContent = some v → json.Readable v) :
    JsonEqual json block (stripCallToolResult json block r)
      (stripCallToolResult json block (stripCallToolResult json block r)) := by
  cases hstructured : r.structuredContent with
  | none =>
    rw [strip_unstructured_twice hstructured]
    exact JsonEqual.refl _
  | some v =>
    have hafter : (stripCallToolResult json block r).structuredContent =
        some (stripWorkerMetadata v) := by
      unfold stripCallToolResult
      rw [hstructured]
    exact jsonEqual_structured hafter (strip_twice v) (readable_strip (hreadable v hstructured))

end Results

/-- The private keys, and only they, are taken off both halves of a result, whatever a worker
answers, and taking them off again changes nothing. -/
theorem strip_call_tool_result [BEq ν] [ReflBEq ν] (json : SerdeJson ν) (block : ContentBlock β)
    (r : CallToolResult ν β μ) :
    Strips json block r (stripCallToolResult json block r) ∧
      ((∀ v, r.structuredContent = some v → json.Readable v) →
        JsonEqual json block (stripCallToolResult json block r)
          (stripCallToolResult json block (stripCallToolResult json block r))) := by
  refine ⟨?_, strip_jsonEqual⟩
  cases hstructured : r.structuredContent with
  | some v =>
    by_cases hsame : ∃ p, firstValue json block r = some p ∧ (p == v) = true
    · obtain ⟨p, hp, hbeq⟩ := hsame
      exact strips_same hstructured hp hbeq
    · apply strips_different hstructured
      intro p hp
      exact Bool.eq_false_iff.mpr fun hbeq => hsame ⟨p, hp, hbeq⟩
  | none =>
    by_cases hpublic : ∀ p, firstValue json block r = some p → (stripWorkerMetadata p == p) = true
    · exact strips_public hstructured hpublic
    · push Not at hpublic
      obtain ⟨p, hp, hne⟩ := hpublic
      exact strips_private hstructured hp (Bool.eq_false_iff.mpr hne)

/-! ### A result with a session id -/

/- An object with an address, with a session id, with both or with neither. -/
def sampleMap (addr session : Bool) : Map ℕ where
  fields := (if addr then [("addr", 1)] else []) ++ if session then [("session_id", 2)] else []
  sorted := by cases addr <;> cases session <;> decide

def sampleText : Bool → Bool → String
  | true, true => "\x7b\n  \"addr\": 1,\n  \"session_id\": 2\n\x7d"
  | true, false => "\x7b\n  \"addr\": 1\n\x7d"
  | false, true => "\x7b\n  \"session_id\": 2\n\x7d"
  | false, false => "\x7b\x7d"

def sampleDisplay : Value ℕ → String
  | .object m => sampleText (m.get "addr").isSome (m.get "session_id").isSome
  | .other _ => "null"

def sampleRead (text : String) : Option (Value ℕ) :=
  [(true, true), (true, false), (false, true), (false, false)].findSome? fun s =>
    if text = sampleText s.1 s.2 then some (.object (sampleMap s.1 s.2)) else none

theorem sample_remove (addr session : Bool) (key : String) :
    (sampleMap addr session).remove key =
      sampleMap (addr && key ≠ "addr") (session && key ≠ "session_id") := by
  apply Map.ext
  by_cases haddr : key = "addr"
  · subst haddr
    cases addr <;> cases session <;> rfl
  · by_cases hsession : key = "session_id"
    · subst hsession
      cases addr <;> cases session <;> rfl
    · cases addr <;> cases session <;>
        simp [Map.remove, sampleMap, haddr, hsession, Ne.symm haddr, Ne.symm hsession]

theorem sampleRead_text (addr session : Bool) :
    sampleRead (sampleText addr session) = some (.object (sampleMap addr session)) := by
  cases addr <;> cases session <;> rfl

theorem sample_get_eq_none {addr session : Bool} (haddr : key = "addr" → addr = false)
    (hsession : key = "session_id" → session = false) :
    (sampleMap addr session).get key = none := by
  rw [Map.get, Option.map_eq_none_iff, List.find?_eq_none]
  intro f hf hkey
  rw [decide_eq_true_eq] at hkey
  rw [sampleMap, List.mem_append] at hf
  rcases hf with hf | hf
  · cases addr with
    | false => cases hf
    | true =>
      rw [List.mem_singleton.mp hf] at hkey
      cases haddr hkey.symm
  · cases session with
    | false => cases hf
    | true =>
      rw [List.mem_singleton.mp hf] at hkey
      cases hsession hkey.symm

theorem sample_keys {v w : Value ℕ} (hread : sampleRead (sampleDisplay v) = some w)
    (hkey : v.get key = none) : w.get key = none := by
  cases v with
  | other n => cases hread
  | object m =>
    rw [Value.get] at hkey
    rw [sampleDisplay, sampleRead_text, Option.some.injEq] at hread
    rw [← hread, Value.get]
    apply sample_get_eq_none
    · intro haddr
      rw [← haddr, hkey, Option.isSome_none]
    · intro hsession
      rw [← hsession, hkey, Option.isSome_none]

def sampleJson : SerdeJson ℕ where
  fromStr := sampleRead
  toStringPretty v := some (sampleDisplay v)
  display := sampleDisplay
  Readable v := ∃ addr session, v = .object (sampleMap addr session)
  readable_remove m key h := by
    obtain ⟨addr, session, hm⟩ := h
    cases hm
    exact ⟨_, _, by rw [sample_remove]⟩
  read_pretty v text h htext := by
    obtain ⟨addr, session, rfl⟩ := h
    cases htext
    cases addr <;> cases session <;> rfl
  read_display v h := by
    obtain ⟨addr, session, rfl⟩ := h
    cases addr <;> cases session <;> rfl
  keys_pretty v w text key htext := by
    cases htext
    exact sample_keys
  keys_display v w key := sample_keys

/- A text, or an image. -/
def sampleBlock : ContentBlock (Option String) where
  asText := id
  text := some
  asText_text _ := rfl

def sampleResult : CallToolResult ℕ (Option String) ℕ where
  content := [some (sampleText true true), none]
  structuredContent := some (.object (sampleMap true true))
  isError := some false
  resultMeta := none

theorem strip_session_id :
    stripCallToolResult sampleJson sampleBlock sampleResult =
        { sampleResult with
          content := [some "\x7b\n  \"addr\": 1\n\x7d", none]
          structuredContent := some (.object (sampleMap true false)) } ∧
      Strips sampleJson sampleBlock sampleResult
        (stripCallToolResult sampleJson sampleBlock sampleResult) ∧
      JsonEqual sampleJson sampleBlock (stripCallToolResult sampleJson sampleBlock sampleResult)
        (stripCallToolResult sampleJson sampleBlock
          (stripCallToolResult sampleJson sampleBlock sampleResult)) := by
  obtain ⟨hstrips, hagain⟩ := strip_call_tool_result sampleJson sampleBlock sampleResult
  refine ⟨rfl, hstrips, hagain fun v hv => ?_⟩
  cases hv
  exact ⟨true, true, rfl⟩

end IdaHeadless.WorkerMetadata
