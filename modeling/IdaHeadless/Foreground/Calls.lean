import IdaHeadless.Foreground.Registry

/-!
# One call and the registry

What is asked of a call and of what the registry holds about its operation, and that every move of
the call keeps both.
-/

namespace IdaHeadless.Foreground

open Operation

variable {T : Type} {c c' : Call T} {history : Operation.World} {inner : OperationRegistryInner}
  {act : Option Operation.Act} {outcome : Outcome T} {answer : Answer T} {k : ℕ}

/-! ### Trails -/

def Call.queued (c : Call T) : Mark :=
  ⟨c.opId, c.toolName, c.targetSummary, "queued", .queued, "Queued for IDA worker execution"⟩

def Call.progress (c : Call T) (update : ProgressUpdate) : Mark :=
  ⟨c.opId, c.toolName, c.targetSummary, update.phase, .running, update.message⟩

/-- The trail of an operation after the progress that is told. -/
def Call.marks (c : Call T) (told : List ProgressUpdate) : List Mark :=
  c.queued :: told.map c.progress

def Call.last (c : Call T) (told : List ProgressUpdate) : Mark :=
  (told.getLast?.map c.progress).getD c.queued

def Call.ended (c : Call T) (told : List ProgressUpdate) (outcome : Outcome T) : Mark :=
  let ending := outcome.ending c.toolName
  let last := c.last told
  { last with
    phase := if last.phase = "queued" then finishedPhase last.phase ending.1.status else last.phase
    status := ending.1.status
    message := ending.2 }

theorem last_names (c : Call T) (told : List ProgressUpdate) :
    (c.last told).opId = c.opId ∧ (c.last told).tool = c.toolName ∧
      (c.last told).targetSummary = c.targetSummary := by
  unfold Call.last
  cases told.getLast? with
  | none => exact ⟨rfl, rfl, rfl⟩
  | some update => exact ⟨rfl, rfl, rfl⟩

theorem progressed_mark {state : OperationState} {told : List ProgressUpdate}
    (h : state.mark = c.last told) (clock : Clock) (update : ProgressUpdate) :
    (progressedState state clock update.phase update.message).mark = c.progress update := by
  obtain ⟨hopId, htool, htarget⟩ := last_names c told
  rw [← h] at hopId htool htarget
  change (⟨state.opId, state.tool, state.targetSummary, update.phase, .running, update.message⟩ :
    Mark) = _
  rw [show state.opId = c.opId from hopId, show state.tool = c.toolName from htool,
    show state.targetSummary = c.targetSummary from htarget]
  rfl

theorem finished_mark {state : OperationState} {told : List ProgressUpdate}
    (h : state.mark = c.last told) (clock : Clock) (outcome : Outcome T) :
    (finishedState state clock (outcome.ending c.toolName).1.status
      (outcome.ending c.toolName).2).mark = c.ended told outcome := by
  rw [Call.ended, ← h]
  rfl

/-- What the drain has received. -/
def Call.received (c : Call T) : List ProgressUpdate := c.sent.take c.taken

/-! ### Calls -/

/-- Why a call comes to its outcome. -/
def Call.Comes (c : Call T) : Outcome T → Prop
  | .finished result => c.ready = some result ∧ c.workerCancelled = false
  | .interrupted .cancelled => c.clientCancelled = true ∧ c.workerCancelled = true
  | .interrupted (.timedOut timeoutSecs) =>
    timeoutSecs = c.timeout ∧ c.elapsed = true ∧ c.workerCancelled = true

def Call.At (c : Call T) : Prop :=
  match c.point with
  | .drawn => c.taken = 0 ∧ c.drain = .running ∧ c.workerCancelled = false
  | .selecting => c.workerCancelled = false
  | .draining result => c.Comes (.finished result)
  | .cleaning why => c.Comes (.interrupted why)
  | .stopping why => c.Comes (.interrupted why) ∧ c.drain ≠ .running
  | .closing outcome | .answered outcome _ => c.Comes outcome ∧ c.drain ≠ .running
  | .dropped => True

structure Call.Sound (c : Call T) : Prop where
  taken_le : c.taken ≤ c.sent.length
  drained : c.drain = .ended → c.taken = c.sent.length ∧ c.senders = false
  at_point : c.At

/-! ### The registry -/

def Call.Open (c : Call T) (history : Operation.World) : Prop :=
  trail history.log c.opId = c.marks c.received ∧
    ∃ state, getCurrent history.inner.current c.opId = some state ∧ state.mark = c.last c.received

/- What the drain receives after the end is lost. -/
def Call.Answered (c : Call T) (history : Operation.World) (outcome : Outcome T)
    (answer : Answer T) : Prop :=
  getCurrent history.inner.current c.opId = none ∧
    ∃ told, told <+: c.sent ∧ trail history.log c.opId = c.marks told ++ [c.ended told outcome] ∧
      (c.drain = .ended → told = c.sent) ∧
      ∃ snapshot, answer = outcome.answer snapshot ∧ snapshot.mark = c.ended told outcome

def Call.Filed (c : Call T) (history : Operation.World) : Prop :=
  match c.point with
  | .drawn => trail history.log c.opId = [] ∧ c.opId ∉ history.started
  | .answered outcome answer => c.Answered history outcome answer
  | .selecting | .draining _ | .cleaning _ | .stopping _ | .closing _ | .dropped => c.Open history

def Point.isOpen : Point T → Bool
  | .drawn | .answered .. => false
  | .selecting | .draining _ | .cleaning _ | .stopping _ | .closing _ | .dropped => true

theorem Call.Filed.isOpen (h : c.Filed history) (hopen : c.point.isOpen = true) :
    c.Open history := by
  unfold Call.Filed at h
  split at h
  · rename_i hpoint
    rw [hpoint] at hopen
    cases hopen
  · rename_i hpoint
    rw [hpoint] at hopen
    cases hopen
  all_goals exact h

theorem Call.Filed.advance_other {a : Operation.Act} (h : c.Filed history) (ha : a.opId ≠ c.opId) :
    c.Filed (advance history a) := by
  simp only [Call.Filed, Call.Open, Call.Answered, trail_advance_other ha,
    getCurrent_advance_other ha, started_advance_other ha] at h ⊢
  exact h

/-! ### Moves that leave the registry alone -/

theorem received_send (hsound : c.Sound) (update : ProgressUpdate) :
    ({ c with sent := c.sent ++ [update] } : Call T).received = c.received :=
  List.take_append_of_le_length hsound.taken_le

theorem send_kept (update : ProgressUpdate) (hsound : c.Sound) (hsenders : c.senders = true) :
    ({ c with sent := c.sent ++ [update] } : Call T).Sound ∧
      ∀ history, c.Filed history →
        ({ c with sent := c.sent ++ [update] } : Call T).Filed history := by
  have hrunning : c.drain ≠ .ended := by
    intro hended
    rw [(hsound.drained hended).2] at hsenders
    cases hsenders
  refine ⟨⟨?_, fun hended => absurd hended hrunning, hsound.at_point⟩, ?_⟩
  · change c.taken ≤ (c.sent ++ [update]).length
    rw [List.length_append]
    exact hsound.taken_le.trans (Nat.le_add_right _ _)
  · intro history hfiled
    unfold Call.Filed at hfiled ⊢
    dsimp only at hfiled ⊢
    split at hfiled
    · exact hfiled
    · obtain ⟨hnone, told, htold, htrail, -, hsnapshot⟩ := hfiled
      exact ⟨hnone, told, htold.trans (List.prefix_append _ _), htrail,
        fun hended => absurd hended hrunning, hsnapshot⟩
    all_goals
      unfold Call.Open at hfiled ⊢
      rw [received_send hsound]
      exact hfiled

/- A client cancels at any time, and a result may come late. -/
theorem Call.Comes.cancel (h : c.Comes outcome) :
    ({ c with clientCancelled := true } : Call T).Comes outcome := by
  rcases outcome with result | ⟨timeoutSecs | _⟩
  · exact h
  · exact h
  · exact ⟨rfl, h.2⟩

theorem Call.Sound.cancel (h : c.Sound) :
    ({ c with clientCancelled := true } : Call T).Sound := by
  refine ⟨h.taken_le, h.drained, ?_⟩
  have hat := h.at_point
  unfold Call.At at hat ⊢
  dsimp only at hat ⊢
  split at hat
  · exact hat
  · exact hat
  · exact hat.cancel
  · exact hat.cancel
  · exact ⟨hat.1.cancel, hat.2⟩
  · exact ⟨hat.1.cancel, hat.2⟩
  · exact ⟨hat.1.cancel, hat.2⟩
  · trivial

theorem Call.Sound.complete (h : c.Sound) (hpending : c.point.pending = true)
    (result : Except ToolError T) : ({ c with ready := some result } : Call T).Sound := by
  refine ⟨h.taken_le, h.drained, ?_⟩
  have hat := h.at_point
  unfold Call.At at hat ⊢
  dsimp only at hat ⊢
  have hcomes : ∀ why, c.Comes (.interrupted why) →
      ({ c with ready := some result } : Call T).Comes (.interrupted why) := by
    rintro (timeoutSecs | _) hwhy
    · exact hwhy
    · exact hwhy
  cases hpoint : c.point with
  | selecting =>
    simp only [hpoint] at hat ⊢
    exact hat
  | cleaning why =>
    simp only [hpoint] at hat ⊢
    exact hcomes why hat
  | stopping why =>
    simp only [hpoint] at hat ⊢
    exact ⟨hcomes why hat.1, hat.2⟩
  | drawn | draining | closing | answered | dropped =>
    rw [hpoint] at hpending
    cases hpending

theorem abort_ne_running (drain : Drain) : drain.abort ≠ .running := by
  cases drain with
  | running | aborted | stopped | ended => nofun

theorem over_ne_running {drain : Drain} (h : drain.over = true) : drain ≠ .running := by
  rintro rfl
  cases h

/- A call that aborts its drain, and one that goes on to another point. -/
theorem Call.Sound.toPoint {point : Point T} {drain : Drain} (h : c.Sound)
    (hdrain : drain = .ended → c.drain = .ended)
    (hat : ({ c with point := point, drain := drain } : Call T).At) :
    ({ c with point := point, drain := drain } : Call T).Sound :=
  ⟨h.taken_le, fun hended => h.drained (hdrain hended), hat⟩

theorem abort_ended {drain : Drain} (h : drain.abort = .ended) : drain = .ended := by
  cases drain with
  | running => cases h
  | aborted | stopped | ended => exact h

theorem droppable_isOpen {point : Point T} (h : point.droppable = true) : point.isOpen = true := by
  cases point with
  | selecting | draining | cleaning | stopping => rfl
  | drawn | closing | answered | dropped => cases h

theorem Call.Sound.not_drawn (hsound : c.Sound) (hdrain : c.drain ≠ .running) :
    c.point.isDrawn = false := by
  have hat := hsound.at_point
  unfold Call.At at hat
  split at hat
  · exact absurd hat.2.1 hdrain
  all_goals
    rename_i hpoint
    rw [hpoint]
    rfl

/- A drain that ends by itself has received everything, and one that is stopped may not have. -/
theorem drainOver_kept {drain : Drain} (hsound : c.Sound) (hover : drain.over = true)
    (hdrawn : c.point.isDrawn = false)
    (hended : drain = .ended → c.drain = .running ∧ c.taken = c.sent.length ∧ c.senders = false) :
    ({ c with drain := drain } : Call T).Sound ∧
      ∀ history, c.Filed history → ({ c with drain := drain } : Call T).Filed history := by
  have hat := hsound.at_point
  unfold Call.At at hat
  refine ⟨⟨hsound.taken_le, fun h => (hended h).2, ?_⟩, fun history hfiled => ?_⟩
  · unfold Call.At
    dsimp only
    split at hat
    · rename_i hpoint
      rw [hpoint] at hdrawn
      cases hdrawn
    · exact hat
    · exact hat
    · exact hat
    · exact ⟨hat.1, over_ne_running hover⟩
    · exact ⟨hat.1, over_ne_running hover⟩
    · exact ⟨hat.1, over_ne_running hover⟩
    · trivial
  · unfold Call.Filed at hfiled ⊢
    dsimp only
    split at hfiled
    · exact hfiled
    · rename_i hpoint
      simp only [hpoint] at hat
      obtain ⟨hnone, told, htold, htrail, -, hsnapshot⟩ := hfiled
      exact ⟨hnone, told, htold, htrail, fun h => absurd (hended h).1 hat.2, hsnapshot⟩
    all_goals exact hfiled

theorem selected_kept (hsound : c.Sound) (hpoint : c.point = .selecting)
    (h : c.selected = some c') : c'.Sound ∧ ∀ history, c.Filed history → c'.Filed history := by
  have hat := hsound.at_point
  simp only [Call.At, hpoint] at hat
  have hopen : ∀ history, c.Filed history → c.Open history := fun history hfiled =>
    hfiled.isOpen (by rw [hpoint]; rfl)
  unfold Call.selected at h
  split at h
  · rename_i result hready
    cases h
    exact ⟨⟨hsound.taken_le, hsound.drained, hready, hat⟩, hopen⟩
  · split at h
    · rename_i hcancelled
      cases h
      exact ⟨⟨hsound.taken_le, hsound.drained, hcancelled, rfl⟩, hopen⟩
    · split at h
      · rename_i helapsed
        cases h
        exact ⟨⟨hsound.taken_le, hsound.drained, rfl, helapsed, rfl⟩, hopen⟩
      · cases h

theorem cleanup_kept {why : Interruption} (hsound : c.Sound) (hpoint : c.point = .cleaning why) :
    let c' : Call T := { c with point := .stopping why, drain := c.drain.abort }
    c'.Sound ∧ ∀ history, c.Filed history → c'.Filed history := by
  have hat := hsound.at_point
  simp only [Call.At, hpoint] at hat
  refine ⟨hsound.toPoint abort_ended ⟨hat, abort_ne_running _⟩, fun history hfiled => ?_⟩
  have hopen : c.Open history := hfiled.isOpen (by rw [hpoint]; rfl)
  exact hopen

/- The moves that do not call the registry. -/
theorem quiet_kept {m : Move T} (hsound : c.Sound) (h : c.move inner m = some (c', none)) :
    c'.Sound ∧ ∀ history, c.Filed history → c'.Filed history := by
  cases m with
  | start clock =>
    simp only [Call.move] at h
    split at h <;> cases h
  | send update =>
    simp only [Call.move] at h
    split at h
    · rename_i hguard
      rw [Bool.and_eq_true] at hguard
      cases h
      exact send_kept update hsound hguard.1
    · cases h
  | dropSenders =>
    simp only [Call.move] at h
    split at h
    · cases h
    · cases h
      exact ⟨⟨hsound.taken_le, fun hended => ⟨(hsound.drained hended).1, rfl⟩, hsound.at_point⟩,
        fun _ hfiled => hfiled⟩
  | complete result =>
    simp only [Call.move] at h
    split at h
    · rename_i hguard
      rw [Bool.and_eq_true] at hguard
      cases h
      exact ⟨hsound.complete hguard.1 result, fun _ hfiled => hfiled⟩
    · cases h
  | cancel =>
    cases h
    exact ⟨hsound.cancel, fun _ hfiled => hfiled⟩
  | elapse =>
    simp only [Call.move] at h
    split at h
    · rename_i hpoint
      split at h
      · cases h
      · cases h
        refine ⟨⟨hsound.taken_le, hsound.drained, ?_⟩, fun _ hfiled => hfiled⟩
        have hat := hsound.at_point
        simp only [Call.At, hpoint] at hat ⊢
        exact hat
    · cases h
  | poll =>
    simp only [Call.move] at h
    split at h
    · rename_i hpoint
      obtain ⟨d, hd, hpair⟩ := Option.map_eq_some_iff.mp h
      cases hpair
      exact selected_kept hsound hpoint hd
    · cases h
  | drain clock =>
    simp only [Call.move, Call.drainStep] at h
    split at h
    · cases h
    · rename_i hguard
      split at h
      · cases h
      · rename_i hempty
        split at h
        · cases h
        · rename_i hsenders
          cases h
          rw [Bool.or_eq_true, not_or, Bool.not_eq_true, Bool.not_eq_true] at hguard
          have htaken : c.taken = c.sent.length :=
            Nat.le_antisymm hsound.taken_le (List.getElem?_eq_none_iff.mp hempty)
          refine drainOver_kept hsound ?_ hguard.2 ?_
          · split <;> rfl
          · intro hended
            split at hended
            · rename_i hrunning
              exact ⟨hrunning, htaken, Bool.not_eq_true _ ▸ hsenders⟩
            · cases hended
  | stopDrain =>
    simp only [Call.move] at h
    split at h
    · rename_i haborted
      cases h
      exact drainOver_kept hsound rfl (hsound.not_drawn (haborted ▸ nofun)) nofun
    · cases h
  | drained =>
    simp only [Call.move] at h
    split at h
    · rename_i result hpoint
      split at h
      · rename_i hover
        cases h
        have hat := hsound.at_point
        simp only [Call.At, hpoint] at hat
        refine ⟨⟨hsound.taken_le, hsound.drained, hat, over_ne_running hover⟩, ?_⟩
        intro history hfiled
        have hopen : c.Open history := hfiled.isOpen (by rw [hpoint]; rfl)
        exact hopen
      · cases h
    · cases h
  | abandon =>
    simp only [Call.move] at h
    split at h
    · rename_i result hpoint
      split at h
      · cases h
      · cases h
        have hat := hsound.at_point
        simp only [Call.At, hpoint] at hat
        refine ⟨hsound.toPoint abort_ended ⟨hat, abort_ne_running _⟩, ?_⟩
        intro history hfiled
        have hopen : c.Open history := hfiled.isOpen (by rw [hpoint]; rfl)
        exact hopen
    · cases h
  | cleaned =>
    simp only [Call.move] at h
    split at h
    · rename_i why hpoint
      split at h
      · cases h
        exact cleanup_kept hsound hpoint
      · cases h
    · cases h
  | cleanupElapsed =>
    simp only [Call.move] at h
    split at h
    · rename_i why hpoint
      split at h
      · cases h
      · cases h
        exact cleanup_kept hsound hpoint
    · cases h
  | awaited =>
    simp only [Call.move] at h
    split at h
    · rename_i why hpoint
      split at h
      · cases h
        have hat := hsound.at_point
        simp only [Call.At, hpoint] at hat
        refine ⟨⟨hsound.taken_le, hsound.drained, hat⟩, fun history hfiled => ?_⟩
        have hopen : c.Open history := hfiled.isOpen (by rw [hpoint]; rfl)
        exact hopen
      · cases h
    · cases h
  | close clock =>
    simp only [Call.move] at h
    split at h <;> cases h
  | drop =>
    simp only [Call.move] at h
    split at h
    · rename_i hdroppable
      cases h
      refine ⟨⟨hsound.taken_le, hsound.drained, trivial⟩, fun history hfiled => ?_⟩
      have hopen : c.Open history := hfiled.isOpen (droppable_isOpen hdroppable)
      exact hopen
    · cases h

/-! ### Moves that call the registry -/

theorem start_kept (hsound : c.Sound) (hpoint : c.point = .drawn) (hfiled : c.Filed history)
    (clock : Clock) :
    let c' : Call T := { c with point := .selecting }
    c'.Sound ∧ c'.Filed (advance history (.start clock c.opId c.toolName c.targetSummary)) ∧
      c.opId ∉ history.started := by
  intro c'
  have hat := hsound.at_point
  simp only [Call.At, hpoint] at hat
  simp only [Call.Filed, hpoint] at hfiled
  obtain ⟨hcurrent, htrail⟩ :=
    start_trail history clock c.opId c.toolName c.targetSummary
  have hreceived : c'.received = [] := by
    change c.sent.take c.taken = []
    rw [hat.1, List.take_zero]
  refine ⟨⟨hsound.taken_le, hsound.drained, hat.2.2⟩, ?_, hfiled.2⟩
  have hopen : c'.Open (advance history (.start clock c.opId c.toolName c.targetSummary)) := by
    refine ⟨?_, _, hcurrent, ?_⟩
    · rw [hreceived]
      rw [hfiled.1] at htrail
      exact htrail
    · rw [hreceived]
      rfl
  exact hopen

theorem received_succ {update : ProgressUpdate} (h : c.sent[c.taken]? = some update) :
    ({ c with taken := c.taken + 1 } : Call T).received = c.received ++ [update] := by
  change c.sent.take (c.taken + 1) = c.sent.take c.taken ++ [update]
  rw [List.take_add_one, h, Option.toList_some]

theorem drain_kept {update : ProgressUpdate} (hsound : c.Sound) (hfiled : c.Filed history)
    (hover : c.drain.over = false) (hdrawn : c.point.isDrawn = false)
    (hupdate : c.sent[c.taken]? = some update) (clock : Clock) :
    let c' : Call T := { c with taken := c.taken + 1 }
    c'.Sound ∧ c'.Filed (advance history (.progress clock c.opId update.phase update.message)) := by
  intro c'
  have hreceived : c'.received = c.received ++ [update] := received_succ hupdate
  have hended : c.drain ≠ .ended := by
    intro h
    rw [h] at hover
    cases hover
  have hopen : c.Open history →
      c'.Open (advance history (.progress clock c.opId update.phase update.message)) := by
    rintro ⟨htrail, state, hstate, hmark⟩
    obtain ⟨hcurrent, htrail'⟩ := progress_trail hstate clock update.phase update.message
    have hprogress := progressed_mark hmark clock update
    refine ⟨?_, _, hcurrent, ?_⟩
    · rw [hreceived]
      refine htrail'.trans ?_
      rw [htrail, hprogress, Call.marks, Call.marks, List.map_append, List.cons_append]
      rfl
    · rw [hreceived, hprogress, Call.last, List.getLast?_concat]
      rfl
  refine ⟨⟨?_, fun h => absurd h hended, ?_⟩, ?_⟩
  · exact (List.getElem?_eq_some_iff.mp hupdate).1
  · have hat := hsound.at_point
    unfold Call.At at hat ⊢
    dsimp only [c']
    split at hat
    · rename_i hpoint
      rw [hpoint] at hdrawn
      cases hdrawn
    all_goals exact hat
  · unfold Call.Filed at hfiled ⊢
    dsimp only [c']
    split at hfiled
    · rename_i hpoint
      rw [hpoint] at hdrawn
      cases hdrawn
    · obtain ⟨hnone, told, htold, htrail, -, hsnapshot⟩ := hfiled
      obtain ⟨hnone', htrail'⟩ := progress_lost hnone clock update.phase update.message
      exact ⟨hnone', told, htold, htrail'.trans htrail, fun h => absurd h hended, hsnapshot⟩
    all_goals exact hopen hfiled

theorem close_kept (hsound : c.Sound) (hpoint : c.point = .closing outcome)
    (hfiled : c.Filed history) (clock : Clock) :
    let ending := outcome.ending c.toolName
    let c' : Call T := { c with
      point := .answered outcome (outcome.answer (c.snapshot history.inner clock ending)) }
    c'.Sound ∧ c'.Filed (advance history (.finish clock c.opId ending.1 ending.2)) := by
  intro ending c'
  have hat := hsound.at_point
  simp only [Call.At, hpoint] at hat
  obtain ⟨htrail, state, hstate, hmark⟩ : c.Open history := hfiled.isOpen (by rw [hpoint]; rfl)
  obtain ⟨hfinish, hcurrent, htrail'⟩ := finish_trail hstate clock ending.1 ending.2
  have hended := finished_mark hmark clock outcome
  refine ⟨⟨hsound.taken_le, hsound.drained, hat⟩, hcurrent, c.received, List.take_prefix _ _, ?_,
    ?_, _, rfl, ?_⟩
  · refine htrail'.trans ?_
    rw [htrail, hended]
    rfl
  · intro h
    change c.sent.take c.taken = c.sent
    rw [(hsound.drained h).1, List.take_length]
  · rw [Call.snapshot, hfinish, Option.some_or, Option.getD_some]
    exact hended

/- Each call of the registry is about the operation of its call. -/
theorem told_kept {m : Move T} {a : Operation.Act} (hsound : c.Sound) (hfiled : c.Filed history)
    (h : c.move history.inner m = some (c', some a)) :
    c'.Sound ∧ c'.Filed (advance history a) ∧ a.opId = c.opId ∧
      ∀ clock id tool target, a = .start clock id tool target → id ∉ history.started := by
  cases m with
  | start clock =>
    simp only [Call.move] at h
    split at h
    · rename_i hpoint
      cases h
      obtain ⟨hsound', hfiled', hnew⟩ := start_kept hsound hpoint hfiled clock
      refine ⟨hsound', hfiled', rfl, fun _ _ _ _ hact => ?_⟩
      cases hact
      exact hnew
    · cases h
  | drain clock =>
    simp only [Call.move, Call.drainStep] at h
    split at h
    · cases h
    · rename_i hguard
      rw [Bool.or_eq_true, not_or, Bool.not_eq_true, Bool.not_eq_true] at hguard
      split at h
      · rename_i update hupdate
        cases h
        obtain ⟨hsound', hfiled'⟩ := drain_kept hsound hfiled hguard.1 hguard.2 hupdate clock
        exact ⟨hsound', hfiled', rfl, nofun⟩
      · split at h <;> cases h
  | close clock =>
    simp only [Call.move] at h
    split at h
    · rename_i outcome hpoint
      cases h
      obtain ⟨hsound', hfiled'⟩ := close_kept hsound hpoint hfiled clock
      exact ⟨hsound', hfiled', rfl, nofun⟩
    · cases h
  | poll =>
    simp only [Call.move] at h
    split at h
    · obtain ⟨d, -, hpair⟩ := Option.map_eq_some_iff.mp h
      cases hpair
    · cases h
  | send | dropSenders | complete | stopDrain | drop =>
    simp only [Call.move] at h
    split at h <;> cases h
  | cancel => cases h
  | elapse | drained | abandon | cleaned | cleanupElapsed | awaited =>
    simp only [Call.move] at h
    split at h
    · split at h <;> cases h
    · cases h

/-- The tool, its target and the timeout of a call. -/
def Call.asked (c : Call T) : String × String × ℕ := (c.toolName, c.targetSummary, c.timeout)

/- What a call was drawn with stays. -/
structure Call.SameAs (c' c : Call T) : Prop where
  opId : c'.opId = c.opId
  asked : c'.asked = c.asked

theorem selected_same (h : c.selected = some c') : c'.SameAs c := by
  unfold Call.selected at h
  split at h
  · cases h
    exact ⟨rfl, rfl⟩
  · split at h
    · cases h
      exact ⟨rfl, rfl⟩
    · obtain ⟨-, hselected⟩ := Option.ite_none_right_eq_some.mp h
      cases hselected
      exact ⟨rfl, rfl⟩

theorem drainStep_same {clock : Clock} (h : c.drainStep clock = some (c', act)) : c'.SameAs c := by
  unfold Call.drainStep at h
  split at h
  · cases h
  · split at h
    · cases h
      exact ⟨rfl, rfl⟩
    · obtain ⟨-, hstep⟩ := Option.ite_none_left_eq_some.mp h
      cases hstep
      exact ⟨rfl, rfl⟩

theorem move_same {m : Move T} (h : c.move inner m = some (c', act)) : c'.SameAs c := by
  cases m with
  | start | close =>
    simp only [Call.move] at h
    split at h
    · cases h
      exact ⟨rfl, rfl⟩
    · cases h
  | poll =>
    simp only [Call.move] at h
    split at h
    · obtain ⟨d, hd, hpair⟩ := Option.map_eq_some_iff.mp h
      cases hpair
      exact selected_same hd
    · cases h
  | drained | awaited | cleaned =>
    simp only [Call.move] at h
    split at h
    · obtain ⟨-, hpair⟩ := Option.ite_none_right_eq_some.mp h
      cases hpair
      exact ⟨rfl, rfl⟩
    · cases h
  | elapse | abandon | cleanupElapsed =>
    simp only [Call.move] at h
    split at h
    · obtain ⟨-, hpair⟩ := Option.ite_none_left_eq_some.mp h
      cases hpair
      exact ⟨rfl, rfl⟩
    · cases h
  | send | complete | stopDrain | drop =>
    obtain ⟨-, hpair⟩ := Option.ite_none_right_eq_some.mp h
    cases hpair
    exact ⟨rfl, rfl⟩
  | dropSenders =>
    obtain ⟨-, hpair⟩ := Option.ite_none_left_eq_some.mp h
    cases hpair
    exact ⟨rfl, rfl⟩
  | cancel =>
    cases h
    exact ⟨rfl, rfl⟩
  | drain clock => exact drainStep_same h

end IdaHeadless.Foreground
