import IdaHeadless.Foreground.Calls
import Mathlib.Data.List.Nodup

/-!
# What the history tells about the calls

In every interleaving each operation leaves one trail: it is queued, it makes progress in the order
in which the worker sent it, and once its call has answered it has ended, in the way that the answer
says. An operation whose call is dropped stays unfinished.
-/

namespace IdaHeadless.Foreground

open Operation Radix

variable {T : Type} {c c' : Call T} {s s' : Server T} {history : Operation.World}
  {act : Option Operation.Act} {outcome : Outcome T} {answer : Answer T}

/-! ### Identifiers -/

theorem digitsValue_zeros (n : ℕ) (ds : List Char) :
    digitsValue 16 0 (List.replicate n '0' ++ ds) = digitsValue 16 0 ds := by
  induction n with
  | zero => rfl
  | succ n ih =>
    rw [List.replicate_succ, List.cons_append]
    exact ih

theorem digitsValue_hexPadded (width n : ℕ) : digitsValue 16 0 (hexPadded width n) = some n :=
  (digitsValue_zeros _ _).trans (digitsValue_hex n)

theorem dash_not_mem_hexPadded (width n : ℕ) : '-' ∉ hexPadded width n := by
  intro h
  have := digit_of_mem (digitsValue_hexPadded width n) h
  revert this
  decide

theorem nextOperationId_nonce {now now' nonce nonce' : ℕ}
    (h : nextOperationId now nonce = nextOperationId now' nonce') :
    nonce % 2 ^ 64 = nonce' % 2 ^ 64 := by
  have hlists := String.ofList_injective h
  have hparts : hexPadded 8 (nonce % 2 ^ 64) = hexPadded 8 (nonce' % 2 ^ 64) := by
    rw [List.append_assoc, List.append_assoc] at hlists
    have htail := List.append_cancel_left hlists
    exact ((List.append_cons_inj_of_notMem (dash_not_mem_hexPadded _ _)
      (dash_not_mem_hexPadded _ _)).mp htail).2.2
  have hvalue := digitsValue_hexPadded 8 (nonce % 2 ^ 64)
  rw [hparts, digitsValue_hexPadded] at hvalue
  exact (Option.some.inj hvalue).symm

/-! ### The server -/

/- The log knows only operations that have started, and every one of these is of a call. -/
structure Coherent (s : Server T) : Prop where
  reached : Runs.Reaches Operation.step Operation.empty s.history
  named : ∀ i c, s.calls[i]? = some c → ∃ now, c.opId = nextOperationId now i
  known : ∀ id ∈ s.history.started, ∃ c ∈ s.calls, c.opId = id
  kept : ∀ c ∈ s.calls, c.Sound ∧ c.Filed s.history

theorem idle_coherent : Coherent (idle T) where
  reached := ⟨[], rfl⟩
  named i c hc := absurd hc (by simp [idle])
  known id hid := absurd hid List.not_mem_nil
  kept c hc := absurd hc List.not_mem_nil

theorem Coherent.inv (h : Coherent s) : Operation.Inv s.history := by
  obtain ⟨acts, hrun⟩ := h.reached
  exact Runs.run_inv Operation.Inv (fun _ _ _ hI hstep => step_inv hI hstep) empty_inv hrun

theorem Coherent.apart (h : Coherent s) (hfew : s.calls.length ≤ 2 ^ 64) {i j : ℕ} {c d : Call T}
    (hc : s.calls[i]? = some c) (hd : s.calls[j]? = some d) (hne : i ≠ j) : c.opId ≠ d.opId := by
  intro heq
  obtain ⟨now, hc'⟩ := h.named i c hc
  obtain ⟨now', hd'⟩ := h.named j d hd
  rw [hc', hd'] at heq
  have hi := (List.getElem?_eq_some_iff.mp hc).1
  have hj := (List.getElem?_eq_some_iff.mp hd).1
  have hmod := nextOperationId_nonce heq
  rw [Nat.mod_eq_of_lt (by omega), Nat.mod_eq_of_lt (by omega)] at hmod
  exact hne hmod

theorem trail_eq_nil {id : String} (hI : Operation.Inv history) (h : id ∉ history.started) :
    trail history.log id = [] := by
  rw [trail, List.map_eq_nil_iff, List.filter_eq_nil_iff]
  intro e he
  have hne : e.opId ≠ id := by
    rintro rfl
    exact h (hI.known e he)
  simpa using hne

/- The id that is drawn next belongs to nobody. -/
theorem Coherent.fresh (h : Coherent s) (hfew : s.calls.length < 2 ^ 64) (now : ℕ) :
    nextOperationId now s.calls.length ∉ s.history.started := by
  intro hmem
  obtain ⟨c, hc, heq⟩ := h.known _ hmem
  obtain ⟨i, hi, rfl⟩ := List.getElem_of_mem hc
  obtain ⟨now', hnamed⟩ := h.named i _ (List.getElem?_eq_getElem hi)
  rw [hnamed] at heq
  have hmod := nextOperationId_nonce heq
  rw [Nat.mod_eq_of_lt (by omega), Nat.mod_eq_of_lt hfew] at hmod
  omega

theorem draw_coherent (h : Coherent s) (hfew : s.calls.length < 2 ^ 64) (now : ℕ)
    (toolName targetSummary : String) (timeoutSecs : Option ℕ) (defaultTimeoutSecs : ℕ) :
    Coherent { s with
      calls := s.calls ++ [.drawn T (nextOperationId now s.calls.length) toolName targetSummary
        timeoutSecs defaultTimeoutSecs] } := by
  have hfresh := h.fresh hfew now
  refine ⟨h.reached, ?_, ?_, ?_⟩
  · intro i c hc
    rcases Nat.lt_or_ge i s.calls.length with hi | hi
    · rw [List.getElem?_append_left hi] at hc
      exact h.named i c hc
    · rw [List.getElem?_append_right hi] at hc
      obtain ⟨hlt, rfl⟩ := List.getElem?_eq_some_iff.mp hc
      have hi' : i = s.calls.length := by
        rw [List.length_singleton] at hlt
        omega
      subst hi'
      refine ⟨now, ?_⟩
      simp [Call.drawn]
  · intro id hid
    obtain ⟨c, hc, hopId⟩ := h.known id hid
    exact ⟨c, List.mem_append_left _ hc, hopId⟩
  · intro c hc
    rcases List.mem_append.mp hc with hc | hc
    · exact h.kept c hc
    · rw [List.mem_singleton.mp hc]
      refine ⟨⟨le_rfl, nofun, rfl, rfl, rfl⟩, trail_eq_nil h.inv hfresh, hfresh⟩

theorem move_coherent (h : Coherent s) (hfew : s.calls.length ≤ 2 ^ 64) {call : ℕ} {m : Move T}
    (hc : s.calls[call]? = some c) (hmove : c.move s.history.inner m = some (c', act)) :
    Coherent ⟨act.elim s.history (advance s.history), s.calls.set call c'⟩ := by
  have hmem : c ∈ s.calls := List.mem_of_getElem? hc
  obtain ⟨hsound, hfiled⟩ := h.kept c hmem
  have hopId : c'.opId = c.opId := (move_same hmove).opId
  have hcalls : ∀ i d, (s.calls.set call c')[i]? = some d →
      (i = call ∧ d = c') ∨ (i ≠ call ∧ s.calls[i]? = some d) := by
    intro i d hd
    rw [List.getElem?_set] at hd
    split at hd
    · rename_i heq
      split at hd
      · cases hd
        exact .inl ⟨heq.symm, rfl⟩
      · cases hd
    · rename_i hne
      exact .inr ⟨fun heq => hne heq.symm, hd⟩
  have hnamed :
      ∀ i d, (s.calls.set call c')[i]? = some d → ∃ now, d.opId = nextOperationId now i := by
    intro i d hd
    rcases hcalls i d hd with ⟨rfl, rfl⟩ | ⟨-, hd⟩
    · rw [hopId]
      exact h.named i c hc
    · exact h.named i d hd
  have hall : ∀ id, (∃ d ∈ s.calls, d.opId = id) → ∃ d ∈ s.calls.set call c', d.opId = id := by
    rintro id ⟨d, hd, rfl⟩
    obtain ⟨i, hi, rfl⟩ := List.getElem_of_mem hd
    by_cases heq : i = call
    · subst heq
      have hci : s.calls[i] = c := by
        rw [List.getElem?_eq_getElem hi] at hc
        exact Option.some.inj hc
      rw [hci]
      exact ⟨c', List.mem_set hi c', hopId⟩
    · refine ⟨s.calls[i], ?_, rfl⟩
      rw [List.mem_iff_getElem?]
      refine ⟨i, ?_⟩
      rw [List.getElem?_set_ne (fun h => heq h.symm), List.getElem?_eq_getElem hi]
  cases act with
  | none =>
    obtain ⟨hsound', hfiled'⟩ := quiet_kept hsound hmove
    refine ⟨h.reached, hnamed, fun id hid => hall id (h.known id hid), fun d hd => ?_⟩
    obtain ⟨i, hi⟩ := List.mem_iff_getElem?.mp hd
    rcases hcalls i d hi with ⟨-, rfl⟩ | ⟨-, hd⟩
    · exact ⟨hsound', hfiled' _ hfiled⟩
    · exact h.kept d (List.mem_of_getElem? hd)
  | some a =>
    obtain ⟨hsound', hfiled', hact, hnew⟩ := told_kept hsound hfiled hmove
    refine ⟨?_, hnamed, ?_, fun d hd => ?_⟩
    · obtain ⟨acts, hrun⟩ := h.reached
      exact ⟨acts ++ [a], Runs.run_snoc_iff.mpr ⟨_, hrun, step_advance hnew⟩⟩
    · intro id hid
      by_cases heq : a.opId = id
      · exact hall id ⟨c, hmem, hact.symm.trans heq⟩
      · exact hall id (h.known id ((started_advance_other heq).mp hid))
    · obtain ⟨i, hi⟩ := List.mem_iff_getElem?.mp hd
      rcases hcalls i d hi with ⟨-, rfl⟩ | ⟨hne, hd⟩
      · exact ⟨hsound', hfiled'⟩
      · obtain ⟨hsoundd, hfiledd⟩ := h.kept d (List.mem_of_getElem? hd)
        refine ⟨hsoundd, hfiledd.advance_other ?_⟩
        rw [hact]
        exact (h.apart hfew hd hc hne).symm

theorem step_length {a : Act T} (h : step s a = some s') : s.calls.length ≤ s'.calls.length := by
  cases a with
  | draw =>
    cases h
    rw [List.length_append]
    exact Nat.le_add_right _ _
  | move call m =>
    obtain ⟨c, -, h⟩ := Option.bind_eq_some_iff.mp h
    obtain ⟨moved, -, rfl⟩ := Option.map_eq_some_iff.mp h
    exact le_of_eq (List.length_set ..).symm

theorem step_coherent {a : Act T} (h : Coherent s) (hfew : s'.calls.length ≤ 2 ^ 64)
    (hstep : step s a = some s') : Coherent s' := by
  cases a with
  | draw now toolName targetSummary timeoutSecs defaultTimeoutSecs =>
    cases hstep
    rw [List.length_append, List.length_singleton] at hfew
    exact draw_coherent h (by omega) _ _ _ _ _
  | move call m =>
    have hlength := step_length hstep
    obtain ⟨c, hc, hstep⟩ := Option.bind_eq_some_iff.mp hstep
    obtain ⟨⟨c', act⟩, hmove, rfl⟩ := Option.map_eq_some_iff.mp hstep
    exact move_coherent h (hlength.trans hfew) hc hmove

theorem run_coherent {as : List (Act T)} (hrun : Runs.run step (idle T) as = some s)
    (hfew : s.calls.length ≤ 2 ^ 64) : Coherent s := by
  have hinv : s.calls.length ≤ 2 ^ 64 → Coherent s :=
    Runs.run_inv (fun s : Server T => s.calls.length ≤ 2 ^ 64 → Coherent s)
      (fun t a t' ht hstep hfew => step_coherent (ht ((step_length hstep).trans hfew)) hfew hstep)
      (fun _ => idle_coherent) hrun
  exact hinv hfew

/-! ### Trails of every run -/

theorem Coherent.nodup (h : Coherent s) (hfew : s.calls.length ≤ 2 ^ 64) :
    (s.calls.map Call.opId).Nodup := by
  rw [List.nodup_iff_getElem?_ne_getElem?]
  intro i j hij hj heq
  rw [List.length_map] at hj
  rw [List.getElem?_map, List.getElem?_map, List.getElem?_eq_getElem (hij.trans hj),
    List.getElem?_eq_getElem hj] at heq
  exact h.apart hfew (List.getElem?_eq_getElem (hij.trans hj)) (List.getElem?_eq_getElem hj)
    hij.ne (Option.some.inj heq)

/- The registry holds the operations whose calls have neither answered nor begun. -/
theorem Coherent.unfinished (h : Coherent s) (id : String) :
    id ∈ s.history.unfinished ↔ ∃ c ∈ s.calls, c.opId = id ∧ c.point.isOpen = true := by
  rw [← h.inv.getCurrent_isSome]
  constructor
  · intro hsome
    have hunfinished := h.inv.getCurrent_isSome.mp hsome
    obtain ⟨c, hc, rfl⟩ := h.known id (h.inv.started id hunfinished)
    refine ⟨c, hc, rfl, ?_⟩
    have hfiled := (h.kept c hc).2
    unfold Call.Filed at hfiled
    split at hfiled
    · exact absurd (h.inv.started _ hunfinished) hfiled.2
    · rw [hfiled.1] at hsome
      cases hsome
    all_goals
      rename_i hpoint
      rw [hpoint]
      rfl
  · rintro ⟨c, hc, rfl, hopen⟩
    obtain ⟨-, state, hstate, -⟩ := (h.kept c hc).2.isOpen hopen
    rw [hstate]
    rfl

theorem Coherent.answered (h : Coherent s) (hc : c ∈ s.calls)
    (hpoint : c.point = .answered outcome answer) : c.Answered s.history outcome answer := by
  have hfiled := (h.kept c hc).2
  simpa only [Call.Filed, hpoint] using hfiled

/-- Every run of the calls is a run of the registry, in which each operation leaves its trail. -/
theorem operations_leave_trails {as : List (Act T)} (hrun : Runs.run step (idle T) as = some s)
    (hfew : s.calls.length ≤ 2 ^ 64) :
    Runs.Reaches Operation.step Operation.empty s.history ∧
    (s.calls.map Call.opId).Nodup ∧
    (∀ id, id ∈ s.history.unfinished ↔ ∃ c ∈ s.calls, c.opId = id ∧ c.point.isOpen = true) ∧
    ∀ c ∈ s.calls,
      (c.point.isDrawn = true → trail s.history.log c.opId = []) ∧
      (c.point.isOpen = true → trail s.history.log c.opId = c.marks c.received) ∧
      ∀ outcome answer, c.point = .answered outcome answer →
        ∃ told, told <+: c.sent ∧ (c.drain = .ended → told = c.sent) ∧
          trail s.history.log c.opId = c.marks told ++ [c.ended told outcome] := by
  have h := run_coherent hrun hfew
  refine ⟨h.reached, h.nodup hfew, h.unfinished, fun c hc => ⟨?_, ?_, ?_⟩⟩
  · intro hdrawn
    have hfiled := (h.kept c hc).2
    unfold Call.Filed at hfiled
    split at hfiled
    · exact hfiled.1
    all_goals
      rename_i hpoint
      rw [hpoint] at hdrawn
      cases hdrawn
  · intro hopen
    exact ((h.kept c hc).2.isOpen hopen).1
  · intro outcome answer hpoint
    obtain ⟨-, told, htold, htrail, hended, -⟩ := h.answered hc hpoint
    exact ⟨told, htold, hended, htrail⟩

/- The first call answers, and the second one is timed out while its worker is stuck. -/
def twoCalls : List (Act Unit) :=
  [.draw 1 "open_idb" "a.i64" none 300, .draw 2 "run_script" "s.py" (some 1000) 120,
    .move 1 (.start ⟨3, 3⟩), .move 0 (.start ⟨4, 4⟩), .move 0 (.send ⟨"opening", "a.i64"⟩),
    .move 0 (.drain ⟨5, 5⟩), .move 0 .dropSenders, .move 0 (.drain ⟨6, 6⟩),
    .move 0 (.complete (.ok ())), .move 0 .poll, .move 0 .drained, .move 0 (.close ⟨7, 7⟩),
    .move 1 (.send ⟨"executing", "s.py"⟩), .move 1 .elapse, .move 1 .poll, .move 1 .cleanupElapsed,
    .move 1 (.drain ⟨8, 8⟩), .move 1 .stopDrain, .move 1 (.send ⟨"executing", "late"⟩),
    .move 1 .awaited, .move 1 (.close ⟨9, 9⟩)]

def Point.timedOutAfter (timeoutSecs : ℕ) : Point T → Bool
  | .answered (.interrupted (.timedOut secs)) _ => secs = timeoutSecs
  | _ => false

theorem Point.timedOutAfter_eq {point : Point T} {timeoutSecs : ℕ}
    (h : point.timedOutAfter timeoutSecs = true) :
    ∃ answer, point = .answered (.interrupted (.timedOut timeoutSecs)) answer := by
  unfold Point.timedOutAfter at h
  split at h
  · rename_i secs answer
    rw [of_decide_eq_true h]
    exact ⟨answer, rfl⟩
  · cases h

theorem twoCalls_run : ∃ s, Runs.run step (idle Unit) twoCalls = some s ∧ s.calls.length = 2 ∧
    ∃ c, s.calls[1]? = some c ∧ c.point.timedOutAfter 600 = true ∧ c.sent.length = 2 := by
  have hrun : (Runs.run step (idle Unit) twoCalls).any (fun s => decide (s.calls.length = 2) &&
      s.calls[1]?.any fun c => c.point.timedOutAfter 600 && decide (c.sent.length = 2)) = true := by
    decide +kernel
  obtain ⟨s, hs, hfacts⟩ := (Option.any_eq_true _ _).mp hrun
  rw [Bool.and_eq_true] at hfacts
  obtain ⟨c, hc, hcfacts⟩ := (Option.any_eq_true _ _).mp hfacts.2
  rw [Bool.and_eq_true] at hcfacts
  exact ⟨s, hs, of_decide_eq_true hfacts.1, c, hc, hcfacts.1, of_decide_eq_true hcfacts.2⟩

theorem operations_leave_trails_stuck :
    ∃ s, Runs.run step (idle Unit) twoCalls = some s ∧
      ∃ c ∈ s.calls, ∃ told, told <+: c.sent ∧
        trail s.history.log c.opId =
          c.marks told ++ [c.ended told (.interrupted (.timedOut 600))] := by
  obtain ⟨s, hrun, hlength, c, hc, htimedOut, -⟩ := twoCalls_run
  obtain ⟨answer, hpoint⟩ := Point.timedOutAfter_eq htimedOut
  have hmem : c ∈ s.calls := List.mem_of_getElem? hc
  obtain ⟨told, htold, -, htrail⟩ :=
    ((operations_leave_trails hrun (by omega)).2.2.2 c hmem).2.2 _ _ hpoint
  exact ⟨s, hrun, c, hmem, told, htold, htrail⟩

/-! ### Timeouts -/

/-- What a drawn call is asked for; its timeout is the requested or the default one, capped. -/
def Act.asked : Act T → Option (String × String × ℕ)
  | .draw _ toolName targetSummary timeoutSecs defaultTimeoutSecs =>
    some (toolName, targetSummary, timeoutOf timeoutSecs defaultTimeoutSecs)
  | .move .. => none

theorem step_asked {a : Act T} (h : step s a = some s') :
    s'.calls.map Call.asked = s.calls.map Call.asked ++ a.asked.toList := by
  cases a with
  | draw =>
    cases h
    rw [List.map_append]
    rfl
  | move call m =>
    obtain ⟨c, hc, hmoved⟩ := Option.bind_eq_some_iff.mp h
    obtain ⟨⟨c', act⟩, hmove, rfl⟩ := Option.map_eq_some_iff.mp hmoved
    have hasked : (s.calls.map Call.asked)[call]? = some c'.asked := by
      rw [List.getElem?_map, hc, Option.map_some, (move_same hmove).asked]
    obtain ⟨hlt, hget⟩ := List.getElem?_eq_some_iff.mp hasked
    rw [List.map_set, ← hget, List.set_getElem_self]
    exact (List.append_nil _).symm

/- The calls are those that were drawn, in their order. -/
theorem run_asked {as : List (Act T)} (hrun : Runs.run step s as = some s') :
    s'.calls.map Call.asked = s.calls.map Call.asked ++ as.filterMap Act.asked := by
  induction as generalizing s with
  | nil =>
    cases hrun
    exact (List.append_nil _).symm
  | cons a as ih =>
    obtain ⟨t, hstep, hrest⟩ := Runs.run_cons_iff.mp hrun
    rw [ih hrest, step_asked hstep, List.append_assoc]
    cases hasked : a.asked with
    | none => rw [List.filterMap_cons_none hasked, Option.toList_none, List.nil_append]
    | some asked => rw [List.filterMap_cons_some hasked, Option.toList_some, List.singleton_append]

theorem timeout_le {as : List (Act T)} (h : c.asked ∈ as.filterMap Act.asked) :
    c.timeout ≤ 600 := by
  obtain ⟨a, -, ha⟩ := List.mem_filterMap.mp h
  cases a with
  | draw now toolName targetSummary timeoutSecs defaultTimeoutSecs =>
    have htimeout : timeoutOf timeoutSecs defaultTimeoutSecs = c.timeout :=
      congrArg (fun asked => asked.2.2) (Option.some.inj ha)
    rw [← htimeout]
    exact Nat.min_le_right _ _
  | move => cases ha

/-! ### Answers -/

/-- An answer says why the call has ended, and shows the operation as the history ends it. A call
that has timed out did so after the seconds that it was drawn with, 600 at most. -/
theorem answers_show_the_end {as : List (Act T)} (hrun : Runs.run step (idle T) as = some s)
    (hfew : s.calls.length ≤ 2 ^ 64) (hc : c ∈ s.calls)
    (hpoint : c.point = .answered outcome answer) :
    (∃ call : ℕ, s.calls[call]? = some c ∧
      (as.filterMap Act.asked)[call]? = some (c.toolName, c.targetSummary, c.timeout)) ∧
    c.timeout ≤ 600 ∧ c.Comes outcome ∧ c.drain ≠ .running ∧
      ∃ snapshot, answer = outcome.answer snapshot ∧
        (trail s.history.log c.opId).getLast? = some snapshot.mark ∧
        snapshot.status = (outcome.ending c.toolName).1.status ∧
        snapshot.message = (outcome.ending c.toolName).2 := by
  have h := run_coherent hrun hfew
  have hat := (h.kept c hc).1.at_point
  simp only [Call.At, hpoint] at hat
  obtain ⟨-, told, -, htrail, -, snapshot, hanswer, hmark⟩ := h.answered hc hpoint
  obtain ⟨call, hcall⟩ := List.mem_iff_getElem?.mp hc
  have hasked : (as.filterMap Act.asked)[call]? = some c.asked := by
    have hdrawn : s.calls.map Call.asked = as.filterMap Act.asked := run_asked hrun
    rw [← hdrawn, List.getElem?_map, hcall, Option.map_some]
  refine ⟨⟨call, hcall, hasked⟩, timeout_le (List.mem_of_getElem? hasked), hat.1, hat.2, snapshot,
    hanswer, ?_, congrArg Mark.status hmark, congrArg Mark.message hmark⟩
  rw [htrail, List.getLast?_concat, hmark]

theorem answers_show_the_end_stuck :
    ∃ s c, Runs.run step (idle Unit) twoCalls = some s ∧ c ∈ s.calls ∧ c.timeout = 600 ∧
      c.workerCancelled = true ∧ ∃ snapshot : OperationSnapshot,
        (trail s.history.log c.opId).getLast? = some snapshot.mark ∧
        snapshot.status = .timedOut := by
  obtain ⟨s, hrun, hlength, c, hc, htimedOut, -⟩ := twoCalls_run
  obtain ⟨answer, hpoint⟩ := Point.timedOutAfter_eq htimedOut
  have hmem : c ∈ s.calls := List.mem_of_getElem? hc
  obtain ⟨-, -, ⟨htimeout, -, hcancelled⟩, -, snapshot, -, hlast, hstatus, -⟩ :=
    answers_show_the_end hrun (by omega) hmem hpoint
  exact ⟨s, c, hrun, hmem, htimeout.symm, hcancelled, snapshot, hlast, hstatus⟩

end IdaHeadless.Foreground
