import IdaHeadless.EventStream
import IdaHeadless.Lines

/-!
# The frames of the legacy transport (supervisor/legacy_sse.rs)

`sse_event` writes each event as one frame. A reader of the event stream finds the events again,
in their order, as soon as their frames have arrived, however the stream is cut into chunks.
-/

namespace IdaHeadless.LegacySse

open EventStream Text
open Transducer (run Reads)

def dataLine (line : List Char) : List Char := ['d', 'a', 't', 'a', ':', ' '] ++ line ++ ['\n']

/- The event without the line feed that ends it. -/
def eventBody (event data : List Char) : List Char :=
  ['e', 'v', 'e', 'n', 't', ':', ' '] ++ event ++ ['\n'] ++
    if data = [] then ['d', 'a', 't', 'a', ':', '\n'] else (lines data).flatMap dataLine

def sseEvent (event data : List Char) : List Char := eventBody event data ++ ['\n']

/- What a reader makes of the data: its lines, without a line end behind the last one. -/
def receivedData (data : List Char) : List Char := ['\n'].intercalate (lines data)

def withoutLineEnd (data : List Char) : List Char :=
  if data.getLast? = some '\n' then data.dropLast else data

variable {event data line acc cs : List Char} {sent : List (List Char × List Char)}

/-! ### The lines of the data -/

theorem linesFrom_ne_nil (acc cs : List Char) (h : acc ≠ [] ∨ cs ≠ []) : linesFrom acc cs ≠ [] := by
  induction cs generalizing acc with
  | nil =>
    rw [linesFrom, if_neg (h.resolve_right fun hne => hne rfl)]
    exact List.cons_ne_nil _ _
  | cons c cs ih =>
    rw [linesFrom]
    split
    · exact List.cons_ne_nil _ _
    · exact ih (c :: acc) (.inl (List.cons_ne_nil _ _))

theorem withoutLineEnd_append (line : List Char) (hcs : cs ≠ []) :
    withoutLineEnd (line ++ cs) = line ++ withoutLineEnd cs := by
  rw [withoutLineEnd, withoutLineEnd, List.getLast?_append_of_ne_nil line hcs]
  split
  · exact List.dropLast_append_of_ne_nil hcs
  · rfl

theorem withoutLineEnd_line (hnl : '\n' ∉ line) : withoutLineEnd line = line :=
  if_neg fun hlast => hnl (List.mem_of_getLast? hlast)

/- The induction is on the rest of the data behind the line that has begun. -/
theorem intercalate_linesFrom (hacc : '\n' ∉ acc) (hret : '\r' ∉ acc) (hcs : '\r' ∉ cs) :
    ['\n'].intercalate (linesFrom acc cs) = withoutLineEnd (acc.reverse ++ cs) := by
  induction cs generalizing acc with
  | nil =>
    rw [linesFrom, List.append_nil, withoutLineEnd_line (fun h => hacc (List.mem_reverse.mp h))]
    split
    · rename_i hempty
      rw [hempty]
      rfl
    · exact List.intercalate_singleton
  | cons c cs ih =>
    rw [List.mem_cons, not_or] at hcs
    rw [linesFrom]
    split
    · rename_i hc
      have hline : dropReturn acc = acc := by
        unfold dropReturn
        split
        · exact absurd List.mem_cons_self hret
        · rfl
      have hrest := @ih [] List.not_mem_nil List.not_mem_nil hcs.2
      rw [hline, hc]
      by_cases hempty : cs = []
      · rw [hempty, linesFrom, if_pos rfl, List.intercalate_singleton, withoutLineEnd,
          if_pos List.getLast?_concat, List.dropLast_concat]
      · obtain ⟨next, later, hlines⟩ :=
          List.exists_cons_of_ne_nil (linesFrom_ne_nil [] cs (.inr hempty))
        rw [hlines] at hrest ⊢
        have hcons : withoutLineEnd ('\n' :: cs) = ['\n'] ++ withoutLineEnd cs :=
          withoutLineEnd_append ['\n'] hempty
        rw [List.intercalate_cons_cons, hrest, List.reverse_nil, List.nil_append,
          List.append_assoc, withoutLineEnd_append _ (List.cons_ne_nil '\n' cs), hcons]
    · rename_i hc
      rw [ih (by simp [hacc, Ne.symm hc]) (by simp [hret, hcs.1]) hcs.2, List.reverse_cons,
        List.append_assoc, List.singleton_append]

/- Only a line feed at the very end is lost. -/
theorem receivedData_eq (hdata : '\r' ∉ data) : receivedData data = withoutLineEnd data :=
  intercalate_linesFrom List.not_mem_nil List.not_mem_nil hdata

theorem receivedData_line (hnl : '\n' ∉ data) (hret : '\r' ∉ data) : receivedData data = data := by
  rw [receivedData_eq hret, withoutLineEnd_line hnl]

theorem dropLast_lines (ls : List (List Char)) :
    (ls.flatMap fun l => l ++ ['\n']).dropLast = ['\n'].intercalate ls := by
  induction ls with
  | nil => rfl
  | cons l ls ih =>
    cases ls with
    | nil => simp
    | cons l' ls =>
      have hne : ((l' :: ls).flatMap fun l => l ++ ['\n']) ≠ [] := by simp
      rw [List.flatMap_cons, List.dropLast_append_of_ne_nil hne, ih, List.intercalate_cons_cons,
        List.append_assoc]

/-! ### One frame -/

theorem reads_event (hnl : '\n' ∉ event) (hret : '\r' ∉ event) :
    Reads step .start (['e', 'v', 'e', 'n', 't', ':', ' '] ++ event ++ ['\n'])
      ⟨[], false, ⟨event, []⟩⟩ [] := by
  have hsplit : splitField (['e', 'v', 'e', 'n', 't', ':', ' '] ++ event) =
      (['e', 'v', 'e', 'n', 't'], event) :=
    splitField_blank ['e', 'v', 'e', 'n', 't'] (by decide) event
  have hend : endLine .empty (['e', 'v', 'e', 'n', 't', ':', ' '] ++ event) =
      (⟨event, []⟩, []) := by
    rw [endLine, if_neg (by simp), hsplit]
    rfl
  have hreads := reads_line (['e', 'v', 'e', 'n', 't', ':', ' '] ++ event)
    (by simpa using hnl) (by simpa using hret) .empty
  rwa [hend] at hreads

theorem reads_dataLine (hnl : '\n' ∉ line) (hret : '\r' ∉ line) (fields : Fields) :
    Reads step ⟨[], false, fields⟩ (dataLine line)
      ⟨[], false, { fields with data := fields.data ++ (line ++ ['\n']) }⟩ [] := by
  have hsplit : splitField (['d', 'a', 't', 'a', ':', ' '] ++ line) =
      (['d', 'a', 't', 'a'], line) :=
    splitField_blank ['d', 'a', 't', 'a'] (by decide) line
  have hend : endLine fields (['d', 'a', 't', 'a', ':', ' '] ++ line) =
      ({ fields with data := fields.data ++ (line ++ ['\n']) }, []) := by
    rw [endLine, if_neg (by simp), hsplit, ← List.append_assoc]
    rfl
  have hreads := reads_line (['d', 'a', 't', 'a', ':', ' '] ++ line)
    (by simpa using hnl) (by simpa using hret) fields
  rwa [hend] at hreads

theorem reads_dataLines (ls : List (List Char)) (hls : ∀ l ∈ ls, '\n' ∉ l ∧ '\r' ∉ l)
    (fields : Fields) :
    Reads step ⟨[], false, fields⟩ (ls.flatMap dataLine)
      ⟨[], false, { fields with data := fields.data ++ ls.flatMap fun l => l ++ ['\n'] }⟩ [] := by
  induction ls generalizing fields with
  | nil =>
    simp only [List.flatMap_nil, List.append_nil]
    exact Reads.nil
  | cons l ls ih =>
    obtain ⟨hnl, hret⟩ := hls l List.mem_cons_self
    have hrest := ih (fun k hk => hls k (List.mem_cons_of_mem l hk))
      { fields with data := fields.data ++ (l ++ ['\n']) }
    have happend := Reads.append (reads_dataLine hnl hret fields) hrest
    simp only [List.append_assoc] at happend
    simpa only [List.flatMap_cons, List.append_assoc, List.append_nil] using happend

/- The event's name and data as they may be sent: a name is part of a line. -/
def Sendable (e : List Char × List Char) : Prop :=
  e.1 ≠ [] ∧ '\n' ∉ e.1 ∧ '\r' ∉ e.1 ∧ '\r' ∉ e.2

instance (e : List Char × List Char) : Decidable (Sendable e) :=
  inferInstanceAs (Decidable (_ ∧ _))

/- Up to the last line feed the reader finds no event, and then it finds this one. -/
theorem reads_eventBody (h : Sendable (event, data)) :
    ∃ fields, Reads step .start (eventBody event data) ⟨[], false, fields⟩ [] ∧
      fields.event = [⟨event, receivedData data⟩] := by
  obtain ⟨hne, hnl, hret, hdata⟩ := h
  have hname := reads_event hnl hret
  by_cases hempty : data = []
  · refine ⟨⟨event, ['\n']⟩, ?_, ?_⟩
    · rw [eventBody, if_pos hempty]
      have hline := reads_line ['d', 'a', 't', 'a', ':'] (by decide) (by decide)
        ⟨event, []⟩
      exact Reads.append hname hline
    · rw [Fields.event, if_neg (List.cons_ne_nil _ _), if_neg hne, hempty]
      rfl
  · have hlines : ∀ l ∈ lines data, '\n' ∉ l ∧ '\r' ∉ l := by
      intro l hl
      obtain ⟨hl', hmem⟩ := mem_linesFrom hl List.not_mem_nil
      exact ⟨hl', fun h => hdata ((hmem _ h).resolve_left List.not_mem_nil)⟩
    refine ⟨⟨event, (lines data).flatMap fun l => l ++ ['\n']⟩, ?_, ?_⟩
    · rw [eventBody, if_neg hempty]
      exact Reads.append hname (reads_dataLines (lines data) hlines ⟨event, []⟩)
    · have hsome : lines data ≠ [] := linesFrom_ne_nil [] data (.inr hempty)
      have hbuffer : ((lines data).flatMap fun l => l ++ ['\n']) ≠ [] := by
        obtain ⟨l, ls, hl⟩ := List.exists_cons_of_ne_nil hsome
        simp [hl]
      rw [Fields.event, if_neg hbuffer, if_neg hne, dropLast_lines]
      rfl

theorem reads_sseEvent (h : Sendable (event, data)) :
    Reads step .start (sseEvent event data) .start [⟨event, receivedData data⟩] := by
  obtain ⟨fields, hbody, hevent⟩ := reads_eventBody h
  have hend := reads_line [] (by simp) (by simp) fields
  have hfields : endLine fields [] = (.empty, [⟨event, receivedData data⟩]) := by
    rw [endLine, if_pos rfl, hevent]
  rw [hfields] at hend
  exact Reads.append hbody hend

/-! ### The stream -/

/- A reader refuses no text. -/
theorem reads_total (r : Reader) (cs : List Char) : ∃ r' es, Reads step r cs r' es := by
  induction cs generalizing r with
  | nil => exact ⟨r, [], Reads.nil⟩
  | cons c cs ih =>
    have hstep : ∃ r₁ es₁, step r c = some (r₁, es₁) := by
      unfold step
      split
      · split
        · exact ⟨_, _, rfl⟩
        · exact ⟨_, _, rfl⟩
      · split
        · exact ⟨_, _, rfl⟩
        · exact ⟨_, _, rfl⟩
    obtain ⟨r₁, es₁, h₁⟩ := hstep
    obtain ⟨r₂, es₂, h₂⟩ := ih r₁
    exact ⟨r₂, es₁ ++ es₂, Reads.cons h₁ h₂⟩

/- A part of a frame shows no event. -/
theorem reads_part (h : Sendable (event, data)) {rest : List Char}
    (hcs : cs ++ rest = sseEvent event data) (hrest : rest ≠ []) :
    ∃ r, Reads step .start cs r [] := by
  obtain ⟨fields, hbody, -⟩ := reads_eventBody h
  obtain ⟨body, c, rfl⟩ := (List.eq_nil_or_concat rest).resolve_left hrest
  have hsplit : cs ++ body = eventBody event data := by
    rw [sseEvent, List.concat_eq_append, ← List.append_assoc] at hcs
    exact (List.append_inj' hcs rfl).1
  obtain ⟨r, es, hreads⟩ := reads_total .start cs
  rw [← hsplit] at hbody
  obtain ⟨es', hes, -⟩ := Transducer.run_append_eq_some hreads hbody
  refine ⟨r, ?_⟩
  rwa [(List.append_eq_nil_iff.mp hes.symm).1] at hreads

/- How many of the frames are whole in the first `n` characters. -/
def wholeFrames : List (List Char) → ℕ → ℕ
  | [], _ => 0
  | frame :: frames, n =>
    if frame.length ≤ n then wholeFrames frames (n - frame.length) + 1 else 0

def frames (sent : List (List Char × List Char)) : List (List Char) :=
  sent.map fun e => sseEvent e.1 e.2

def received (e : List Char × List Char) : Event := ⟨e.1, receivedData e.2⟩

theorem reads_frames (hsent : ∀ e ∈ sent, Sendable e) {rest : List Char}
    (hcs : cs ++ rest = (frames sent).flatten) :
    ∃ r, Reads step .start cs r
      ((sent.take (wholeFrames (frames sent) cs.length)).map received) := by
  induction sent generalizing cs with
  | nil =>
    have hempty : cs = [] := (List.append_eq_nil_iff.mp hcs).1
    rw [hempty]
    exact ⟨.start, Reads.nil⟩
  | cons e sent ih =>
    have he : Sendable (e.1, e.2) := hsent e List.mem_cons_self
    have hframes : frames (e :: sent) = sseEvent e.1 e.2 :: frames sent := rfl
    rw [hframes, List.flatten_cons] at hcs
    rw [hframes, wholeFrames]
    by_cases hlen : (sseEvent e.1 e.2).length ≤ cs.length
    · obtain ⟨cs', rfl⟩ : sseEvent e.1 e.2 <+: cs :=
        List.prefix_of_prefix_length_le (List.prefix_append _ _) ⟨rest, hcs⟩ hlen
      rw [List.append_assoc] at hcs
      obtain ⟨r, hreads⟩ :=
        ih (fun d hd => hsent d (List.mem_cons_of_mem e hd)) (List.append_cancel_left hcs)
      refine ⟨r, ?_⟩
      rw [if_pos hlen, List.length_append, Nat.add_sub_cancel_left]
      exact Reads.append (reads_sseEvent he) hreads
    · obtain ⟨part, hpart⟩ : cs <+: sseEvent e.1 e.2 :=
        List.prefix_of_prefix_length_le ⟨rest, hcs⟩ (List.prefix_append _ _) (by omega)
      have hne : part ≠ [] := by
        intro h
        rw [h, List.append_nil] at hpart
        rw [hpart] at hlen
        exact hlen le_rfl
      obtain ⟨r, hreads⟩ := reads_part he hpart hne
      refine ⟨r, ?_⟩
      rwa [if_neg hlen]

theorem decode_frames (hsent : ∀ e ∈ sent, Sendable e) {chunks : List (List Char)}
    {rest : List Char} (h : chunks.flatten ++ rest = (frames sent).flatten) :
    decode chunks =
      (sent.take (wholeFrames (frames sent) chunks.flatten.length)).map received := by
  obtain ⟨r, hreads⟩ := reads_frames hsent h
  exact decode_flatten chunks hreads

/-- A client that has received some chunks of the stream has found the events whose frames are
whole in them, one after another, and nothing else. Each has its name and its data, but for a
line feed at the end of the data. -/
theorem stream_decodes (sent : List (List Char × List Char)) (hsent : ∀ e ∈ sent, Sendable e)
    (chunks : List (List Char)) (rest : List Char)
    (h : chunks.flatten ++ rest = (frames sent).flatten) :
    decode chunks =
        (sent.take (wholeFrames (frames sent) chunks.flatten.length)).map received ∧
      ∀ e ∈ sent, received e = ⟨e.1, withoutLineEnd e.2⟩ := by
  refine ⟨decode_frames hsent h, fun e he => ?_⟩
  obtain ⟨-, -, -, hret⟩ := hsent e he
  rw [received, receivedData_eq hret]

/- The third frame is cut off, and the second event loses the line feed at its end. -/
theorem stream_decodes_cut :
    decode ["even".toList, "t: p\ndata: x\ndata: y\n\neven".toList,
        "t: p\ndata: z\n\neve".toList] =
      [⟨['p'], ['x', '\n', 'y']⟩, ⟨['p'], ['z']⟩] := by
  have hdecodes := stream_decodes
    [(['p'], ['x', '\n', 'y']), (['p'], ['z', '\n']), (['p'], ['u'])] (by decide)
    ["even".toList, "t: p\ndata: x\ndata: y\n\neven".toList, "t: p\ndata: z\n\neve".toList]
    "nt: p\ndata: u\n\n".toList (by decide)
  rw [hdecodes.1]
  decide

end IdaHeadless.LegacySse
