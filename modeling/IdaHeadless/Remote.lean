import IdaHeadless.MainLoop.Step
import IdaHeadless.Text

/-!
# A tool error across the process hop (error.rs, ida/remote.rs)

A worker turns its error into a result with one sentence, and the parent finds the
class again by looking for phrases in that sentence. The sentence quotes names, paths
and messages, so what is read depends on the text that was quoted.

`CallToolResult` and its content blocks belong to `rmcp`; the other kinds of content
block are one constructor here, since no reader below looks into them.
-/

namespace IdaHeadless.Remote
open IdaHeadless.MainLoop IdaHeadless.Text

variable {pre post text : String} {phrase : Literal} {e : ToolError} {n b : ℕ}

/-! ### Writing and reading a result -/

inductive ContentBlock where
  | text (text : String)
  | other
  deriving DecidableEq

def ContentBlock.asText : ContentBlock → Option String
  | .text text => some text
  | .other => none

structure CallToolResult where
  content : List ContentBlock
  structuredContent : Option String
  isError : Option Bool
  deriving DecidableEq

/- `ToolError::to_tool_result`. -/
def toToolResult (e : ToolError) : CallToolResult where
  content := [.text e.display]
  structuredContent :=
    match e with
    | .idaErrorDetail _ detail => some detail
    | _ => none
  isError := some true

/- `str::contains` after `to_ascii_lowercase`. -/
def mentions (message phrase : String) : Bool :=
  phrase.toList <:+: message.toList.map Char.toLower

def resultErrorMessage (result : CallToolResult) (tool : String) : String :=
  (result.content.head?.bind ContentBlock.asText).getD
    ("child tool " ++ tool ++ " returned an error")

def classifyChildError (message : String) : ToolError :=
  if mentions message workerRetiredMarker then .workerRetired message
  else if mentions message "worker channel closed" then .workerClosed
  else if mentions message "timed out after" || mentions message "operation timed out" ||
      mentions message "exceeded worker operation timeout" then .timeoutDetailed message
  else if mentions message "cancelled" || mentions message "canceled" then .cancelled message
  else .idaError message

def resultError (result : CallToolResult) (tool : String) : Option ToolError :=
  if result.isError ≠ some true then none
  else
    match classifyChildError (resultErrorMessage result tool), result.structuredContent with
    | .idaError message, some detail => some (.idaErrorDetail message detail)
    | classified, _ => some classified

/-! ### What a sentence says -/

/- The three kinds of phrase, in the order they are looked for. -/
def saysDead (message : String) : Bool :=
  mentions message workerRetiredMarker || mentions message "worker channel closed"

def saysLate (message : String) : Bool :=
  mentions message "timed out after" || mentions message "operation timed out" ||
    mentions message "exceeded worker operation timeout"

def saysStopped (message : String) : Bool :=
  mentions message "cancelled" || mentions message "canceled"

def phrases : List Literal :=
  [⟨workerRetiredMarker, _, rfl⟩, ⟨"worker channel closed", _, rfl⟩, ⟨"timed out after", _, rfl⟩,
    ⟨"operation timed out", _, rfl⟩, ⟨"exceeded worker operation timeout", _, rfl⟩,
    ⟨"cancelled", _, rfl⟩, ⟨"canceled", _, rfl⟩]

theorem classify_lifecycle (message : String) :
    isLifecycleError (classifyChildError message) =
      (saysDead message || saysLate message || saysStopped message) := by
  simp only [classifyChildError, saysDead, saysLate, saysStopped]
  split_ifs with hmarker hclosed hlate hstopped <;> simp_all [isLifecycleError]

theorem classify_retires (message : String) :
    childToolErrorRetiresWorker (classifyChildError message) = saysDead message := by
  simp only [classifyChildError, saysDead]
  split_ifs with hmarker hclosed hlate hstopped <;> simp_all [childToolErrorRetiresWorker]

/- The payload changes neither class: only the catch-all class takes one. -/
theorem resultError_class (e : ToolError) (tool : String) :
    ∃ read, resultError (toToolResult e) tool = some read ∧
      isLifecycleError read = (saysDead e.display || saysLate e.display || saysStopped e.display) ∧
      childToolErrorRetiresWorker read = saysDead e.display := by
  have hmessage : resultErrorMessage (toToolResult e) tool = e.display := rfl
  rw [← classify_lifecycle, ← classify_retires, resultError, hmessage]
  rw [if_neg (by simp [toToolResult])]
  split
  · rename_i message detail hread _
    exact ⟨_, rfl, by rw [hread]; rfl, by rw [hread]; rfl⟩
  · exact ⟨_, rfl, rfl, rfl⟩

/-! ### The quoted text decides -/

/- The text of a caller, a database or the SDK that the sentence quotes. -/
def quoted : ToolError → String
  | .databaseAlreadyOpen text | .openFailed text | .databaseLocked text | .invalidAddress text
  | .invalidPath text | .invalidParams text | .invalidToolCategory text | .invalidToolName text
  | .functionNameNotFound text | .timeoutDetailed text | .cancelled text | .workerCrashed _ text
  | .remoteProtocol text | .idaError text | .idaErrorDetail text _ | .workerRetired text
  | .notSupported text | .idaInstallFault text => text
  | _ => ""

/- No phrase begins in the words before the quoted text or ends in those after it. -/
def clear (pre post : List Char) : Bool :=
  phrases.all fun phrase =>
    clearBefore phrase.chars (pre.map Char.toLower) &&
      clearAfter phrase.chars (post.map Char.toLower)

theorem mentions_framed {before after : List Char} (hpre : pre = String.ofList before)
    (hpost : post = String.ofList after) (h : clear before after = true) (hp : phrase ∈ phrases) :
    mentions (pre ++ text ++ post) phrase.text = mentions text phrase.text := by
  have hboth := List.all_eq_true.mp h phrase hp
  rw [Bool.and_eq_true] at hboth
  simp only [mentions, hpre, hpost, phrase.toList_text, String.toList_append, String.toList_ofList,
    List.map_append, decide_eq_decide]
  rw [infix_append_iff_left hboth.2, infix_append_iff_right hboth.1]

theorem mentions_after {before : List Char} (hpre : pre = String.ofList before)
    (h : clear before [] = true) (hp : phrase ∈ phrases) :
    mentions (pre ++ text) phrase.text = mentions text phrase.text := by
  have hframed : mentions (pre ++ text ++ "") phrase.text = mentions text phrase.text :=
    mentions_framed hpre rfl h hp
  rwa [String.append_empty] at hframed

theorem mentions_words {before : List Char} (hpre : pre = String.ofList before)
    (h : clear before [] = true) (hp : phrase ∈ phrases) :
    mentions pre phrase.text = mentions "" phrase.text := by
  have hafter : mentions (pre ++ "") phrase.text = mentions "" phrase.text :=
    mentions_after hpre h hp
  rwa [String.append_empty] at hafter

/-! ### Numbers in a sentence -/

/- The symbols a sentence prints numbers with. -/
def numerals : List Char := ['0', '1', '2', '3', '4', '5', '6', '7', '8', '9', 'a', 'b', 'c',
  'd', 'e', 'f', 'x', '/']

/- Every phrase needs a symbol besides these. -/
def tooFew (symbols : List Char) : Bool :=
  phrases.all fun phrase => phrase.chars.any fun z => !symbols.contains z

theorem tooFew_letter {symbols : List Char} (h : tooFew symbols = true) (hp : phrase ∈ phrases) :
    ∃ z ∈ phrase.chars, z ∉ symbols := by
  obtain ⟨z, hz, hnot⟩ := List.any_eq_true.mp (List.all_eq_true.mp h phrase hp)
  exact ⟨z, hz, by simpa using hnot⟩

theorem mentions_number (h : ∀ c ∈ text.toList.map Char.toLower, c ∈ numerals)
    (hp : phrase ∈ phrases) : mentions text phrase.text = false := by
  have hletter : tooFew numerals = true := by decide
  obtain ⟨z, hz, hnot⟩ := tooFew_letter hletter hp
  simp only [mentions, phrase.toList_text, decide_eq_false_iff_not]
  exact not_infix_of_not_mem hz fun hmem => hnot (h z hmem)

theorem numerals_of_digits (hb : 1 < b) (hb' : b ≤ 16) :
    ∀ c ∈ (Nat.toDigits b n).map Char.toLower, c ∈ numerals := by
  intro c hc
  have hdigit : ∀ d < 16, (Nat.digitChar d).toLower ∈ numerals := by decide
  obtain ⟨digit, hmem, rfl⟩ := List.mem_map.mp hc
  obtain ⟨d, hd, rfl⟩ := mem_digits hb hmem
  exact hdigit d (by omega)

theorem toList_toString (n : ℕ) : (toString n).toList = Nat.toDigits 10 n := by
  simp [ToString.toString, Nat.repr]

theorem numerals_of_toString (n : ℕ) :
    ∀ c ∈ (toString n).toList.map Char.toLower, c ∈ numerals := by
  rw [toList_toString]
  exact numerals_of_digits (by omega) (by omega)

theorem numerals_of_hexAddr (n : ℕ) :
    ∀ c ∈ (hexAddr n).toList.map Char.toLower, c ∈ numerals := by
  intro c hc
  simp only [hexAddr, String.toList_append, String.toList_ofList, List.map_append,
    List.mem_append] at hc
  rcases hc with hc | hc
  · have hstart : ("0x".toList.map Char.toLower).all numerals.contains = true := by decide
    exact List.contains_iff_mem.mp (List.all_eq_true.mp hstart c hc)
  · exact numerals_of_digits (by omega) (by omega) c hc

theorem numerals_of_ratio (m n : ℕ) :
    ∀ c ∈ (toString m ++ "/" ++ toString n).toList.map Char.toLower, c ∈ numerals := by
  intro c hc
  simp only [String.toList_append, List.map_append, List.mem_append] at hc
  rcases hc with (hc | hc) | hc
  · exact numerals_of_toString m c hc
  · have hslash : ("/".toList.map Char.toLower).all numerals.contains = true := by decide
    exact List.contains_iff_mem.mp (List.all_eq_true.mp hslash c hc)
  · exact numerals_of_toString n c hc

theorem mentions_framed_number {before after : List Char} (hpre : pre = String.ofList before)
    (hpost : post = String.ofList after) (h : clear before after = true)
    (hn : ∀ c ∈ text.toList.map Char.toLower, c ∈ numerals) (hp : phrase ∈ phrases) :
    mentions (pre ++ text ++ post) phrase.text = mentions "" phrase.text := by
  rw [mentions_framed hpre hpost h hp, mentions_number hn hp, mentions_number _ hp]
  simp

theorem mentions_after_number {before : List Char} (hpre : pre = String.ofList before)
    (h : clear before [] = true) (hn : ∀ c ∈ text.toList.map Char.toLower, c ∈ numerals)
    (hp : phrase ∈ phrases) : mentions (pre ++ text) phrase.text = mentions "" phrase.text := by
  rw [mentions_after hpre h hp, mentions_number hn hp, mentions_number _ hp]
  simp

theorem mentions_framed_ratio {before after : List Char} (m n : ℕ)
    (hpre : pre = String.ofList before) (hpost : post = String.ofList after)
    (h : clear before after = true) (hp : phrase ∈ phrases) :
    mentions (pre ++ toString m ++ "/" ++ toString n ++ post) phrase.text =
      mentions "" phrase.text := by
  have hratio : pre ++ toString m ++ "/" ++ toString n =
      pre ++ (toString m ++ "/" ++ toString n) := by
    rw [String.append_assoc, String.append_assoc, String.append_assoc]
  rw [hratio]
  exact mentions_framed_number hpre hpost h (numerals_of_ratio m n) hp

/- No phrase holds a decimal digit, so a number parts the sentence. -/
theorem mentions_parted {before after : List Char} (hpre : pre = String.ofList before)
    (hbefore : tooFew (before.map Char.toLower ++ numerals) = true)
    (hpost : post = String.ofList after) (hafter : clear after [] = true)
    (hp : phrase ∈ phrases) :
    mentions (pre ++ toString n ++ post ++ text) phrase.text = mentions text phrase.text := by
  have hdigits : Nat.toDigits 10 n ≠ [] := Nat.toDigits_ne_nil
  obtain ⟨digits, digit, hsplit⟩ := (List.eq_nil_or_concat' _).resolve_left hdigits
  have hdecimal : digit.toLower ∉ phrase.chars := by
    have hnone : ∀ d < 10, ∀ phrase ∈ phrases, (Nat.digitChar d).toLower ∉ phrase.chars := by
      decide
    have hmem : digit ∈ Nat.toDigits 10 n := by simp [hsplit]
    obtain ⟨d, hd, rfl⟩ := mem_digits (by omega) hmem
    exact hnone d hd phrase hp
  have hleft : ¬ phrase.chars <:+: before.map Char.toLower ++ digits.map Char.toLower := by
    obtain ⟨z, hz, hnot⟩ := tooFew_letter hbefore hp
    rw [List.mem_append, not_or] at hnot
    apply not_infix_of_not_mem hz
    rw [List.mem_append, not_or]
    refine ⟨hnot.1, fun hmem => hnot.2 ?_⟩
    have hall : ∀ c ∈ (Nat.toDigits 10 n).map Char.toLower, c ∈ numerals :=
      numerals_of_digits (by omega) (by omega)
    rw [hsplit, List.map_append] at hall
    exact hall z (List.mem_append_left _ hmem)
  have hright : mentions (post ++ text) phrase.text = mentions text phrase.text :=
    mentions_after hpost hafter hp
  have hlist : (pre ++ toString n ++ post ++ text).toList.map Char.toLower =
      (before.map Char.toLower ++ digits.map Char.toLower) ++ digit.toLower ::
        (post ++ text).toList.map Char.toLower := by
    simp [hpre, hsplit]
  rw [← hright, mentions, mentions, phrase.toList_text, hlist, decide_eq_decide,
    infix_append_cons_iff hdecimal, or_iff_right hleft]

set_option maxRecDepth 1024 in
/- Apart from the two errors that are a phrase themselves, a sentence says what its quoted
text says. -/
theorem mentions_display (hclosed : e ≠ .workerClosed) (htimeout : ∀ secs, e ≠ .timeout secs)
    (hp : phrase ∈ phrases) : mentions e.display phrase.text = mentions (quoted e) phrase.text := by
  cases e with
  | workerClosed => exact absurd rfl hclosed
  | timeout secs => exact absurd rfl (htimeout secs)
  | noDatabaseOpen | databaseReplaced | backgroundTaskHandlePrivate =>
    exact (mentions_after rfl (by decide +kernel) hp).trans
      (mentions_words rfl (by decide +kernel) hp)
  | busy => exact mentions_words rfl (by decide +kernel) hp
  | databaseAlreadyOpen path => exact mentions_framed rfl rfl (by decide +kernel) hp
  | openFailed message => exact mentions_after rfl (by decide +kernel) hp
  | databaseLocked message => exact mentions_after rfl (by decide +kernel) hp
  | invalidAddress text => exact mentions_after rfl (by decide +kernel) hp
  | invalidPath text => exact mentions_after rfl (by decide +kernel) hp
  | invalidParams text => exact mentions_after rfl (by decide +kernel) hp
  | invalidToolCategory text => exact mentions_after rfl (by decide +kernel) hp
  | invalidToolName text => exact mentions_after rfl (by decide +kernel) hp
  | functionNameNotFound name => exact mentions_after rfl (by decide +kernel) hp
  | remoteProtocol message => exact mentions_after rfl (by decide +kernel) hp
  | idaError message => exact mentions_after rfl (by decide +kernel) hp
  | notSupported message => exact mentions_after rfl (by decide +kernel) hp
  | timeoutDetailed message => rfl
  | cancelled message => rfl
  | idaErrorDetail message detail => rfl
  | workerRetired message => rfl
  | idaInstallFault message => rfl
  | workerCrashed workerId lastOp =>
    exact mentions_parted rfl (by decide +kernel) rfl (by decide +kernel) hp
  | addressOutOfRange address =>
    exact mentions_framed_number rfl rfl (by decide +kernel) (numerals_of_hexAddr address) hp
  | functionNotFound address =>
    exact mentions_after_number rfl (by decide +kernel) (numerals_of_hexAddr address) hp
  | backgroundTaskRegistryFull max =>
    exact mentions_framed_number rfl rfl (by decide +kernel) (numerals_of_toString max) hp
  | poolExhausted active max =>
    exact mentions_framed_ratio active max rfl rfl (by decide +kernel) hp

/-! ### The class across the hop -/

theorem says_congr {message message' : String}
    (h : ∀ phrase ∈ phrases, mentions message phrase.text = mentions message' phrase.text) :
    saysDead message = saysDead message' ∧ saysLate message = saysLate message' ∧
      saysStopped message = saysStopped message' := by
  rw [phrases] at h
  simp only [List.forall_mem_cons] at h
  obtain ⟨hmarker, hclosed, hafter, hout, hexceeded, hcancelled, hcanceled, _⟩ := h
  refine ⟨?_, ?_, ?_⟩
  · rw [saysDead, hmarker, hclosed, saysDead]
  · rw [saysLate, hafter, hout, hexceeded, saysLate]
  · rw [saysStopped, hcancelled, hcanceled, saysStopped]

theorem says_display (hclosed : e ≠ .workerClosed) (htimeout : ∀ secs, e ≠ .timeout secs) :
    saysDead e.display = saysDead (quoted e) ∧ saysLate e.display = saysLate (quoted e) ∧
      saysStopped e.display = saysStopped (quoted e) :=
  says_congr fun _ hp => mentions_display hclosed htimeout hp

/- The parent reads the class the worker meant. -/
def Survives (e : ToolError) (tool : String) : Prop :=
  ∃ read, resultError (toToolResult e) tool = some read ∧
    isLifecycleError read = isLifecycleError e ∧
    childToolErrorRetiresWorker read = childToolErrorRetiresWorker e

/- What the quoted text must say, and must not say, for the class to survive. A broken
protocol never survives: no sentence is read as an error that retires the worker and
is no lifecycle error. -/
def QuotesClass (e : ToolError) : Prop :=
  match e with
  | .remoteProtocol _ => False
  | .workerCrashed _ text | .workerRetired text => saysDead text = true
  | .timeoutDetailed text | .cancelled text =>
    saysDead text = false ∧ (saysLate text || saysStopped text) = true
  | e => saysDead (quoted e) = false ∧ saysLate (quoted e) = false ∧
    saysStopped (quoted e) = false

theorem survives_iff (e : ToolError) (tool : String) :
    Survives e tool ↔
      (saysDead e.display || saysLate e.display || saysStopped e.display) = isLifecycleError e ∧
        saysDead e.display = childToolErrorRetiresWorker e := by
  obtain ⟨read, hread, hlifecycle, hretires⟩ := resultError_class e tool
  rw [← hlifecycle, ← hretires]
  constructor
  · rintro ⟨read', hread', hclass⟩
    rw [hread, Option.some_inj] at hread'
    rw [hread']
    exact hclass
  · intro hclass
    exact ⟨read, hread, hclass⟩

theorem mentions_append_left {words : String} (h : mentions pre words = true) :
    mentions (pre ++ text) words = true := by
  simp only [mentions, String.toList_append, List.map_append, decide_eq_true_eq] at h ⊢
  exact h.trans (List.prefix_append _ _).isInfix

theorem saysLate_timeout (secs : ℕ) : saysLate (ToolError.timeout secs).display = true := by
  have hwords : mentions "Operation timed out after " "timed out after" = true := by
    decide
  have hmentions : mentions (ToolError.timeout secs).display "timed out after" = true :=
    mentions_append_left (mentions_append_left hwords)
  rw [saysLate, hmentions, Bool.true_or, Bool.true_or]

theorem saysDead_timeout (secs : ℕ) : saysDead (ToolError.timeout secs).display = false := by
  have hletter : 'w' ∉ ("Operation timed out after " ++ toString secs ++ " seconds").toList.map
      Char.toLower := by
    have hwords : 'w' ∉ "Operation timed out after ".toList.map Char.toLower ∧
        'w' ∉ " seconds".toList.map Char.toLower := by decide
    have hnumber : 'w' ∉ (toString secs).toList.map Char.toLower :=
      fun h => absurd (numerals_of_toString secs 'w' h) (by decide)
    simp only [-String.reduceToList, String.toList_append, List.map_append, List.mem_append, not_or]
    exact ⟨⟨hwords.1, hnumber⟩, hwords.2⟩
  have hmarker : mentions (ToolError.timeout secs).display workerRetiredMarker = false :=
    decide_eq_false (not_infix_of_not_mem (by decide) hletter)
  have hclosed : mentions (ToolError.timeout secs).display "worker channel closed" = false :=
    decide_eq_false (not_infix_of_not_mem (by decide) hletter)
  rw [saysDead, hmarker, hclosed, Bool.or_false]

/-- An error comes back with its class exactly if the phrases in the text it quotes are those of its
class. -/
theorem error_class_survives (e : ToolError) (tool : String) :
    Survives e tool ↔ QuotesClass e := by
  rw [survives_iff]
  have hempty : saysDead "" = false ∧ saysLate "" = false ∧ saysStopped "" = false := by
    decide
  by_cases hclosed : e = .workerClosed
  · subst hclosed
    have hdead : saysDead (ToolError.workerClosed).display = true := by decide
    simp [hdead, QuotesClass, quoted, hempty, isLifecycleError, childToolErrorRetiresWorker]
  by_cases htimeout : ∃ secs, e = .timeout secs
  · obtain ⟨secs, rfl⟩ := htimeout
    simp [saysDead_timeout, saysLate_timeout, QuotesClass, quoted, hempty, isLifecycleError,
      childToolErrorRetiresWorker]
  obtain ⟨hdead, hlate, hstopped⟩ := says_display hclosed (not_exists.mp htimeout)
  rw [hdead, hlate, hstopped]
  cases e <;>
    simp only [QuotesClass, quoted, isLifecycleError, childToolErrorRetiresWorker] <;>
    grind

/- Ordinary failures that quote a phrase, and a broken protocol. -/
theorem error_class_lost :
    resultError (toToolResult (.functionNameNotFound "is_cancelled")) "decompile" =
        some (.cancelled "Function not found: is_cancelled") ∧
      ¬ Survives (.functionNameNotFound "is_cancelled") "decompile" ∧
      ¬ Survives (.functionNameNotFound "worker channel closed") "decompile" ∧
      ¬ Survives (.remoteProtocol "unexpected end of file") "decompile" := by
  simp only [survives_iff]
  refine ⟨?_, ?_, ?_, ?_⟩ <;> decide

end IdaHeadless.Remote
