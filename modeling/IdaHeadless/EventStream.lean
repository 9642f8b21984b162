import IdaHeadless.Transducer
import Mathlib.Data.Nat.Notation
import Mathlib.Tactic.Common

/-!
# Event streams

The `text/event-stream` format as its readers see it. A line ends with a line feed, a carriage
return or both. An empty line ends an event, and an event without data is none. A reader keeps
the unfinished line and the fields of the unfinished event, so it does not matter how the text is
cut into chunks.
-/

namespace IdaHeadless.EventStream

open Transducer (run Reads)

structure Event where
  type : List Char
  data : List Char
  deriving DecidableEq

/- The fields of the event that is being read; `data` has a line feed behind each line. -/
structure Fields where
  type : List Char
  data : List Char
  deriving DecidableEq

structure Reader where
  line : List Char
  afterReturn : Bool
  fields : Fields
  deriving DecidableEq

def Fields.empty : Fields := ⟨[], []⟩

def Reader.start : Reader := ⟨[], false, .empty⟩

/-! ### Lines -/

/- The name and the value of a field; one blank behind the colon belongs to neither. -/
def splitField (line : List Char) : List Char × List Char :=
  (line.takeWhile (· ≠ ':'),
    match line.dropWhile (· ≠ ':') with
    | _ :: ' ' :: value => value
    | _ :: value => value
    | [] => [])

/- A comment has the empty name. Other fields than these two say nothing about an event. -/
def Fields.set (fields : Fields) (name value : List Char) : Fields :=
  if name = ['e', 'v', 'e', 'n', 't'] then { fields with type := value }
  else if name = ['d', 'a', 't', 'a'] then { fields with data := fields.data ++ value ++ ['\n'] }
  else fields

def Fields.event (fields : Fields) : List Event :=
  if fields.data = [] then []
  else
    [⟨if fields.type = [] then ['m', 'e', 's', 's', 'a', 'g', 'e'] else fields.type,
      fields.data.dropLast⟩]

def endLine (fields : Fields) (line : List Char) : Fields × List Event :=
  if line = [] then (.empty, fields.event)
  else (fields.set (splitField line).1 (splitField line).2, [])

/-! ### The reader -/

def step (r : Reader) (c : Char) : Option (Reader × List Event) :=
  if c = '\n' then
    -- the second half of a line end
    if r.afterReturn then some ({ r with afterReturn := false }, [])
    else some (⟨[], false, (endLine r.fields r.line).1⟩, (endLine r.fields r.line).2)
  else if c = '\r' then
    some (⟨[], true, (endLine r.fields r.line).1⟩, (endLine r.fields r.line).2)
  else some (⟨r.line ++ [c], false, r.fields⟩, [])

/- The reader after some chunks of text, and the events it has found. -/
def readChunks (r : Reader) : List (List Char) → Option (Reader × List Event)
  | [] => some (r, [])
  | chunk :: chunks =>
    (run step r chunk).bind fun (r', es) =>
      (readChunks r' chunks).map fun (r'', es') => (r'', es ++ es')

def decode (chunks : List (List Char)) : List Event :=
  (readChunks .start chunks).elim [] Prod.snd

variable {r r' : Reader} {fields : Fields} {line cs value : List Char} {es : List Event}

theorem readChunks_eq (r : Reader) (chunks : List (List Char)) :
    readChunks r chunks = run step r chunks.flatten := by
  induction chunks generalizing r with
  | nil => rfl
  | cons chunk chunks ih =>
    rw [readChunks, List.flatten_cons, Transducer.run_append]
    simp only [ih]

/- How the text is cut makes no difference. -/
theorem decode_flatten (chunks : List (List Char)) (h : Reads step .start chunks.flatten r es) :
    decode chunks = es := by
  rw [Reads] at h
  rw [decode, readChunks_eq, h]
  rfl

/-! ### Whole lines -/

theorem reads_plain (fields : Fields) (hline : '\n' ∉ line) (hreturn : '\r' ∉ line)
    (pre : List Char) (ret : Bool) :
    ∃ ret', Reads step ⟨pre, ret, fields⟩ line ⟨pre ++ line, ret', fields⟩ [] ∧
      (line = [] → ret' = ret) ∧ (line ≠ [] → ret' = false) := by
  induction line generalizing pre ret with
  | nil =>
    refine ⟨ret, ?_, fun _ => rfl, fun h => absurd rfl h⟩
    rw [List.append_nil]
    exact Reads.nil
  | cons c line ih =>
    have hc : c ≠ '\n' := fun h => hline (h ▸ List.mem_cons_self)
    have hc' : c ≠ '\r' := fun h => hreturn (h ▸ List.mem_cons_self)
    have hstep : step ⟨pre, ret, fields⟩ c = some (⟨pre ++ [c], false, fields⟩, []) := by
      rw [step, if_neg hc, if_neg hc']
    obtain ⟨ret', hreads, hnil, hne⟩ :=
      ih (fun h => hline (List.mem_cons_of_mem c h)) (fun h => hreturn (List.mem_cons_of_mem c h))
        (pre ++ [c]) false
    have hret : ret' = false := by
      by_cases hempty : line = []
      · exact hnil hempty
      · exact hne hempty
    refine ⟨ret', ?_, fun h => (List.cons_ne_nil c line h).elim, fun _ => hret⟩
    have hcons := Reads.cons hstep hreads
    rwa [List.append_assoc, List.singleton_append] at hcons

/- A line without its own line ends, and the line feed behind it. -/
theorem reads_line (line : List Char) (hline : '\n' ∉ line) (hreturn : '\r' ∉ line)
    (fields : Fields) :
    Reads step ⟨[], false, fields⟩ (line ++ ['\n']) ⟨[], false, (endLine fields line).1⟩
      (endLine fields line).2 := by
  obtain ⟨ret, hreads, hnil, hne⟩ := reads_plain fields hline hreturn [] false
  have hret : ret = false := by
    by_cases hempty : line = []
    · exact hnil hempty
    · exact hne hempty
  have hstep : step ⟨[] ++ line, ret, fields⟩ '\n' =
      some (⟨[], false, (endLine fields line).1⟩, (endLine fields line).2) := by
    rw [step, if_pos rfl, if_neg (by simp [hret])]
    rfl
  exact Reads.append hreads (Reads.single hstep)

theorem splitField_blank (name : List Char) (hname : ':' ∉ name) (value : List Char) :
    splitField (name ++ ':' :: ' ' :: value) = (name, value) := by
  have hall : ∀ c ∈ name, decide (c ≠ ':') = true := by
    intro c hc
    have hne : c ≠ ':' := fun h => hname (h ▸ hc)
    simpa using hne
  have htake : (name ++ ':' :: ' ' :: value).takeWhile (· ≠ ':') = name := by
    rw [List.takeWhile_append_of_pos hall, List.takeWhile_cons_of_neg (by simp), List.append_nil]
  have hdrop : (name ++ ':' :: ' ' :: value).dropWhile (· ≠ ':') = ':' :: ' ' :: value := by
    rw [List.dropWhile_append_of_pos hall, List.dropWhile_cons_of_neg (by simp)]
  rw [splitField, htake, hdrop]
  rfl

end IdaHeadless.EventStream
