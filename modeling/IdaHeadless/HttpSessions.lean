import IdaHeadless.Runs
import Mathlib.Algebra.Group.Nat.Defs
import Mathlib.Data.Nat.Notation
import Mathlib.Data.List.Count
import Mathlib.Tactic.Common

/-!
# Sessions that die with their client (server/http_sessions.rs)

`PooledSessionManager` counts the open streams of each HTTP session. When the last one is
gone and the standalone stream was dropped, a task waits for the grace period, asks
`should_close`, and closes the session: three steps, between which everything else can
happen. `session_closed` forgets the state of a session, and a session that is restored
under the same id starts with a new one.

`create`, `closeSession` and `sessionClosed` may happen at any moment. The mutex is never
poisoned, since nothing panics while it is held, and `active_streams` is a number: each
open stream has a guard in memory.
-/

namespace IdaHeadless.HttpSessions

abbrev SessionId := String

/-! ### The registry -/

structure SessionDisconnectState where
  generation : ℕ
  activeStreams : ℕ
  abandonedGeneration : Option ℕ
  deriving DecidableEq

/- `or_default`. -/
def SessionDisconnectState.new : SessionDisconnectState := ⟨0, 0, none⟩

/- The changes `stream_opened` and `stream_closed` make to the state of a session. -/
def SessionDisconnectState.streamOpened (state : SessionDisconnectState) :
    SessionDisconnectState :=
  ⟨(state.generation + 1) % 2 ^ 64, state.activeStreams + 1, none⟩

def SessionDisconnectState.streamClosed (state : SessionDisconnectState) (generation : ℕ)
    (abandoned : Bool) : SessionDisconnectState :=
  { state with
    activeStreams := state.activeStreams - 1
    abandonedGeneration := if abandoned then some generation else state.abandonedGeneration }

def SessionDisconnectState.closeGeneration (state : SessionDisconnectState) : Option ℕ :=
  if state.activeStreams = 0 then state.abandonedGeneration else none

/- `SessionStreamGuard` and the flag of its `TrackedSessionStream`. `incarnation` is the
session the stream was opened in. -/
structure TrackedSessionStream where
  session : SessionId
  generation : ℕ
  closeOnDrop : Bool
  incarnation : ℕ
  deriving DecidableEq

inductive Phase where
  | waiting
  | decided
  | closed
  deriving DecidableEq

/- The task `stream_closed` spawns. `opens` and `incarnation` are those of the disconnect. -/
structure Cleanup where
  session : SessionId
  generation : ℕ
  phase : Phase
  opens : ℕ
  incarnation : ℕ
  deriving DecidableEq

/- `live`: the inner manager has the session. The last three fields are the history: how
often a session was created under an id, how many streams were opened, and the incarnation
whose standalone stream was dropped after the last stream was opened. -/
structure World where
  live : SessionId → Bool
  states : SessionId → Option SessionDisconnectState
  streams : List TrackedSessionStream
  tasks : List Cleanup
  incarnation : SessionId → ℕ
  opens : SessionId → ℕ
  abandoned : SessionId → Option ℕ

def World.state (w : World) (s : SessionId) : SessionDisconnectState :=
  (w.states s).getD .new

/- `create_stream`, `create_standalone_stream` and `resume` give `closeOnDrop`. -/
def streamOpened (w : World) (s : SessionId) (closeOnDrop : Bool) : World :=
  let state := (w.state s).streamOpened
  { w with
    states := Function.update w.states s (some state)
    streams := ⟨s, state.generation, closeOnDrop, w.incarnation s⟩ :: w.streams
    opens := Function.update w.opens s (w.opens s + 1)
    abandoned := Function.update w.abandoned s none }

def sessionClosed (w : World) (s : SessionId) : World :=
  { w with states := Function.update w.states s none }

/- The tasks after `stream_closed`. Without a runtime nothing is spawned, and the `session_closed`
that the code calls there instead is a step of its own: the lock is free between the two, and a
run in which that step comes late or never is one more than the code has. -/
def spawnCleanup (w : World) (s : SessionId) (closeGeneration : Option ℕ) (runtime : Bool) :
    List Cleanup :=
  match closeGeneration with
  | none => w.tasks
  | some generation =>
    if runtime then ⟨s, generation, .waiting, w.opens s, w.incarnation s⟩ :: w.tasks else w.tasks

/- Without a state the stream is closed and nothing else happens. -/
def streamClosed (w : World) (stream : TrackedSessionStream) (abandoned runtime : Bool) : World :=
  let state := (w.states stream.session).map fun state =>
    state.streamClosed stream.generation abandoned
  { w with
    states := Function.update w.states stream.session state
    streams := w.streams.erase stream
    tasks := spawnCleanup w stream.session (state.bind fun state => state.closeGeneration) runtime
    abandoned :=
      if abandoned then Function.update w.abandoned stream.session (some stream.incarnation)
      else w.abandoned }

def shouldClose (w : World) (s : SessionId) (generation : ℕ) : Bool :=
  (w.states s).any fun state =>
    state.abandonedGeneration = some generation && state.activeStreams = 0

/-! ### Steps -/

inductive Act where
  | create (s : SessionId)
  | stream (s : SessionId) (closeOnDrop : Bool)
  | finish (stream : TrackedSessionStream) (dropped runtime : Bool)
  | decide (c : Cleanup)
  | close (c : Cleanup) (ok : Bool)
  | forget (c : Cleanup)
  | closeSession (s : SessionId)
  | sessionClosed (s : SessionId)

def World.replace (w : World) (c : Cleanup) (phase : Phase) : World :=
  { w with tasks := { c with phase := phase } :: w.tasks.erase c }

def step (w : World) : Act → Option World
  | .create s =>
    if w.live s then none
    else some { w with
      live := Function.update w.live s true
      incarnation := Function.update w.incarnation s (w.incarnation s + 1) }
  | .stream s closeOnDrop => some (streamOpened w s closeOnDrop)
  | .finish stream dropped runtime =>
    -- the end of the stream is no abandonment, the drop of a standalone stream is
    if stream ∈ w.streams then some (streamClosed w stream (dropped && stream.closeOnDrop) runtime)
    else none
  | .decide c =>
    if c ∈ w.tasks ∧ c.phase = .waiting then
      if shouldClose w c.session c.generation then some (w.replace c .decided)
      else some { w with tasks := w.tasks.erase c }
    else none
  | .close c ok =>
    if c ∈ w.tasks ∧ c.phase = .decided then
      some { w.replace c .closed with
        live := if ok then Function.update w.live c.session false else w.live }
    else none
  | .forget c =>
    if c ∈ w.tasks ∧ c.phase = .closed then
      some (sessionClosed { w with tasks := w.tasks.erase c } c.session)
    else none
  | .closeSession s => some { w with live := Function.update w.live s false }
  | .sessionClosed s => some (sessionClosed w s)

def start : World where
  live _ := false
  states _ := none
  streams := []
  tasks := []
  incarnation _ := 0
  opens _ := 0
  abandoned _ := none

/-! ### The condition -/

/- Nothing of a session starts over while something of its past is left. A stream is opened
only if no cleanup of the session has decided to close it, the registry does not begin a
new state while older streams are open, and no waiting cleanup carries the generation the
stream gets. A session is created only after the registry has forgotten the one before,
and not under a cleanup that has decided. -/
def Calm (w : World) : Act → Prop
  | .create s => w.states s = none ∧ ∀ c ∈ w.tasks, c.session = s → c.phase ≠ .decided
  | .stream s _ =>
    (∀ c ∈ w.tasks, c.session = s → c.phase ≠ .decided) ∧
      (w.states s = none → ∀ stream ∈ w.streams, stream.session ≠ s) ∧
      ∀ c ∈ w.tasks, c.session = s → c.phase = .waiting →
        c.generation ≠ (w.state s).streamOpened.generation
  | _ => True

/-! ### The invariant -/

variable {w w' : World} {s : SessionId} {c : Cleanup} {stream : TrackedSessionStream} {act : Act}
  {state : SessionDisconnectState}

def World.streamsOf (w : World) (s : SessionId) : List TrackedSessionStream :=
  w.streams.filter fun stream => stream.session = s

/- What is true of a session when a cleanup closes it: it has no open stream, its standalone
stream was dropped after the last stream was opened, and no stream was opened and no
session created under the id since the disconnect that spawned the cleanup. -/
structure Ready (w : World) (c : Cleanup) : Prop where
  idle : w.streamsOf c.session = []
  abandoned : w.abandoned c.session = some (w.incarnation c.session)
  opens : w.opens c.session = c.opens
  incarnation : w.incarnation c.session = c.incarnation

/- The state of a session counts its open streams, which belong to the present incarnation,
and it is marked only by one of them. A waiting cleanup that finds its generation there is
not stale. -/
structure InvAt (w : World) (s : SessionId) : Prop where
  counted : ∀ state ∈ w.states s, state.activeStreams = (w.streamsOf s).length
  own : ∀ state ∈ w.states s, ∀ stream ∈ w.streamsOf s, stream.incarnation = w.incarnation s
  marked : ∀ state ∈ w.states s, state.abandonedGeneration.isSome →
    w.abandoned s = some (w.incarnation s)
  distinct : ∀ c ∈ w.tasks, c.session = s → c.phase = .waiting → ∀ stream ∈ w.streamsOf s,
    stream.generation ≠ c.generation
  waiting : ∀ c ∈ w.tasks, c.session = s → c.phase = .waiting → ∀ state ∈ w.states s,
    state.abandonedGeneration = some c.generation →
      w.opens s = c.opens ∧ w.incarnation s = c.incarnation
  decided : ∀ c ∈ w.tasks, c.session = s → c.phase = .decided → Ready w c

/- A step that leaves the history and the streams of a session alone keeps its invariant:
it may forget the state, and end tasks. -/
theorem InvAt.frame (h : InvAt w s) (hstates : w'.states s = w.states s ∨ w'.states s = none)
    (hstreams : (w'.streamsOf s).Perm (w.streamsOf s))
    (htasks : ∀ c ∈ w'.tasks, c.session = s → c.phase ≠ .closed → c ∈ w.tasks)
    (hincarnation : w'.incarnation s = w.incarnation s) (hopens : w'.opens s = w.opens s)
    (habandoned : w'.abandoned s = w.abandoned s) : InvAt w' s := by
  have hold : ∀ state ∈ w'.states s, state ∈ w.states s := by
    intro state hstate
    rcases hstates with hsame | hnone
    · rwa [hsame] at hstate
    · rw [hnone] at hstate
      cases hstate
  have hclosed : ∀ {phase : Phase}, phase = .waiting ∨ phase = .decided → phase ≠ .closed := by
    rintro phase (rfl | rfl)
    · decide
    · decide
  refine ⟨?_, ?_, ?_, ?_, ?_, ?_⟩
  · intro state hstate
    rw [hstreams.length_eq]
    exact h.counted state (hold state hstate)
  · intro state hstate stream hstream
    rw [hincarnation]
    exact h.own state (hold state hstate) stream (hstreams.subset hstream)
  · intro state hstate hmark
    rw [habandoned, hincarnation]
    exact h.marked state (hold state hstate) hmark
  · intro c hc hcs hphase stream hstream
    have hmem := htasks c hc hcs (hclosed (Or.inl hphase))
    exact h.distinct c hmem hcs hphase stream (hstreams.subset hstream)
  · intro c hc hcs hphase state hstate hmark
    have hmem := htasks c hc hcs (hclosed (Or.inl hphase))
    rw [hopens, hincarnation]
    exact h.waiting c hmem hcs hphase state (hold state hstate) hmark
  · intro c hc hcs hphase
    have hmem := htasks c hc hcs (hclosed (Or.inr hphase))
    have hready := h.decided c hmem hcs hphase
    subst hcs
    refine ⟨?_, ?_, ?_, ?_⟩
    · have hperm := hstreams
      rw [hready.idle] at hperm
      exact hperm.eq_nil
    · rw [habandoned, hincarnation]
      exact hready.abandoned
    · rw [hopens]
      exact hready.opens
    · rw [hincarnation]
      exact hready.incarnation

/-! ### Streams -/

theorem streamOpened_other (closeOnDrop : Bool) {t : SessionId} (hne : t ≠ s) (h : InvAt w t) :
    InvAt (streamOpened w s closeOnDrop) t := by
  apply h.frame
  · exact Or.inl (Function.update_of_ne hne ..)
  · have hsame : (streamOpened w s closeOnDrop).streamsOf t = w.streamsOf t := by
      simp [World.streamsOf, streamOpened, hne.symm]
    rw [hsame]
  · intro c hc _ _
    exact hc
  · rfl
  · exact Function.update_of_ne hne ..
  · exact Function.update_of_ne hne ..

theorem streamOpened_self (closeOnDrop : Bool) (h : InvAt w s)
    (hcalm : Calm w (.stream s closeOnDrop)) :
    InvAt (streamOpened w s closeOnDrop) s := by
  obtain ⟨hdecided, hbegin, hgeneration⟩ := hcalm
  have hstate : (streamOpened w s closeOnDrop).states s = some (w.state s).streamOpened :=
    Function.update_self ..
  have hstreams : (streamOpened w s closeOnDrop).streamsOf s =
      ⟨s, (w.state s).streamOpened.generation, closeOnDrop, w.incarnation s⟩ :: w.streamsOf s := by
    simp [World.streamsOf, streamOpened]
  have hnone : w.states s = none → w.streamsOf s = [] := by
    intro hnew
    rw [World.streamsOf, List.filter_eq_nil_iff]
    intro stream hstream
    simpa using hbegin hnew stream hstream
  have hcount : (w.state s).activeStreams = (w.streamsOf s).length := by
    unfold World.state
    cases hold : w.states s with
    | none =>
      rw [hnone hold]
      rfl
    | some state => exact h.counted state hold
  have hown : ∀ stream ∈ w.streamsOf s, stream.incarnation = w.incarnation s := by
    cases hold : w.states s with
    | none =>
      rw [hnone hold]
      nofun
    | some state => exact h.own state hold
  refine ⟨?_, ?_, ?_, ?_, ?_, ?_⟩
  · intro state hs
    rw [hstate, Option.mem_some_iff] at hs
    subst hs
    rw [hstreams, List.length_cons, ← hcount]
    rfl
  · intro state hs stream hmem
    rw [hstreams] at hmem
    rcases List.mem_cons.mp hmem with rfl | hold
    · rfl
    · exact hown stream hold
  · intro state hs hmark
    rw [hstate, Option.mem_some_iff] at hs
    subst hs
    cases hmark
  · intro c hc hcs hphase stream hmem
    rw [hstreams] at hmem
    rcases List.mem_cons.mp hmem with rfl | hold
    · exact (hgeneration c hc hcs hphase).symm
    · exact h.distinct c hc hcs hphase stream hold
  · intro c hc hcs hphase state hs hmark
    rw [hstate, Option.mem_some_iff] at hs
    subst hs
    cases hmark
  · intro c hc hcs hphase
    exact absurd hphase (hdecided c hc hcs)

/- The guard of a stream leaves the list. -/
theorem streamsOf_erase_other {t : SessionId} (hmem : stream ∈ w.streams)
    (hne : stream.session ≠ t) :
    ((w.streams.erase stream).filter fun st => st.session = t).Perm (w.streamsOf t) := by
  have hperm := (List.perm_cons_erase hmem).filter fun st => st.session = t
  rw [List.filter_cons_of_neg (by simpa using hne)] at hperm
  exact hperm.symm

theorem streamsOf_erase_self (hmem : stream ∈ w.streams) :
    (w.streamsOf stream.session).Perm
      (stream :: (w.streams.erase stream).filter fun st => st.session = stream.session) := by
  have hperm := (List.perm_cons_erase hmem).filter fun st => st.session = stream.session
  rwa [List.filter_cons_of_pos (by simp)] at hperm

theorem mem_spawnCleanup {closeGeneration : Option ℕ} {runtime : Bool}
    (h : c ∈ spawnCleanup w s closeGeneration runtime) :
    c ∈ w.tasks ∨ ∃ generation, closeGeneration = some generation ∧
      c = ⟨s, generation, .waiting, w.opens s, w.incarnation s⟩ := by
  unfold spawnCleanup at h
  split at h
  · exact Or.inl h
  · rename_i generation
    split at h
    · rcases List.mem_cons.mp h with hnew | hold
      · exact Or.inr ⟨generation, rfl, hnew⟩
      · exact Or.inl hold
    · exact Or.inl h

theorem streamClosed_other (abandoned runtime : Bool) {t : SessionId} (hmem : stream ∈ w.streams)
    (hne : t ≠ stream.session) (h : InvAt w t) :
    InvAt (streamClosed w stream abandoned runtime) t := by
  apply h.frame
  · exact Or.inl (Function.update_of_ne hne ..)
  · exact streamsOf_erase_other hmem hne.symm
  · intro c hc hcs _
    rcases mem_spawnCleanup hc with hold | ⟨generation, -, rfl⟩
    · exact hold
    · exact absurd hcs.symm hne
  · rfl
  · rfl
  · simp only [streamClosed]
    split
    · exact Function.update_of_ne hne ..
    · rfl

/- A session with an open stream has no cleanup that has decided. -/
theorem InvAt.not_decided (h : InvAt w stream.session) (hmem : stream ∈ w.streams) :
    ∀ c ∈ w.tasks, c.session = stream.session → c.phase ≠ .decided := by
  intro c hc hcs hphase
  have hidle := (h.decided c hc hcs hphase).idle
  rw [World.streamsOf, List.filter_eq_nil_iff] at hidle
  exact hidle stream hmem (by simp [hcs])

theorem streamClosed_state (abandoned runtime : Bool) :
    (streamClosed w stream abandoned runtime).states stream.session =
      (w.states stream.session).map fun state => state.streamClosed stream.generation abandoned :=
  Function.update_self ..

theorem streamClosed_self (abandoned runtime : Bool) (hmem : stream ∈ w.streams)
    (h : InvAt w stream.session) :
    InvAt (streamClosed w stream abandoned runtime) stream.session := by
  have hperm : (w.streamsOf stream.session).Perm
      (stream :: (streamClosed w stream abandoned runtime).streamsOf stream.session) :=
    streamsOf_erase_self hmem
  have hlength : (w.streamsOf stream.session).length =
      ((streamClosed w stream abandoned runtime).streamsOf stream.session).length + 1 :=
    hperm.length_eq
  have hsub : ∀ st ∈ (streamClosed w stream abandoned runtime).streamsOf stream.session,
      st ∈ w.streamsOf stream.session :=
    fun st hst => hperm.symm.subset (List.mem_cons_of_mem stream hst)
  have hself : stream ∈ w.streamsOf stream.session := hperm.symm.subset List.mem_cons_self
  -- the new state comes from an old one
  have hstate : ∀ new ∈ (streamClosed w stream abandoned runtime).states stream.session,
      ∃ state ∈ w.states stream.session, new = state.streamClosed stream.generation abandoned := by
    intro new hnew
    rw [streamClosed_state, Option.mem_map] at hnew
    obtain ⟨state, hold, hnew⟩ := hnew
    exact ⟨state, hold, hnew.symm⟩
  have hcounted : ∀ new ∈ (streamClosed w stream abandoned runtime).states stream.session,
      new.activeStreams =
        ((streamClosed w stream abandoned runtime).streamsOf stream.session).length := by
    intro new hnew
    obtain ⟨state, hold, rfl⟩ := hstate new hnew
    have hcount := h.counted state hold
    simp only [SessionDisconnectState.streamClosed]
    omega
  refine ⟨hcounted, ?_, ?_, ?_, ?_, ?_⟩
  · intro new hnew st hst
    obtain ⟨state, hold, rfl⟩ := hstate new hnew
    exact h.own state hold st (hsub st hst)
  · intro new hnew hmark
    obtain ⟨state, hold, rfl⟩ := hstate new hnew
    cases abandoned with
    | true =>
      have hincarnation := h.own state hold stream hself
      simp [streamClosed, hincarnation]
    | false => exact h.marked state hold hmark
  · intro c hc hcs hphase st hst
    rcases mem_spawnCleanup hc with hold | ⟨generation, hgeneration, rfl⟩
    · exact h.distinct c hold hcs hphase st (hsub st hst)
    · -- a cleanup is spawned when the last stream is gone
      obtain ⟨new, hnew, hclose⟩ := Option.bind_eq_some_iff.mp hgeneration
      have hzero : new.activeStreams = 0 := by
        by_contra hne
        rw [SessionDisconnectState.closeGeneration, if_neg hne] at hclose
        cases hclose
      have hmemNew : new ∈ (streamClosed w stream abandoned runtime).states stream.session := by
        rw [streamClosed_state]
        exact hnew
      have hempty := hcounted new hmemNew
      rw [hzero] at hempty
      rw [List.length_eq_zero_iff.mp hempty.symm] at hst
      cases hst
  · intro c hc hcs hphase new hnew hmark
    obtain ⟨state, hold, rfl⟩ := hstate new hnew
    rcases mem_spawnCleanup hc with holdTask | ⟨generation, -, rfl⟩
    · cases abandoned with
      | true =>
        have hsame : stream.generation = c.generation := Option.some.inj hmark
        exact absurd hsame (h.distinct c holdTask hcs hphase stream hself)
      | false => exact h.waiting c holdTask hcs hphase state hold hmark
    · exact ⟨rfl, rfl⟩
  · intro c hc hcs hphase
    rcases mem_spawnCleanup hc with hold | ⟨generation, -, rfl⟩
    · exact absurd hphase (h.not_decided hmem c hold hcs)
    · cases hphase

/-! ### Runs -/

def Inv (w : World) : Prop := ∀ s, InvAt w s

/- A step that only ends tasks, or forgets states. -/
theorem Inv.frame (h : Inv w) {live : SessionId → Bool} {tasks : List Cleanup}
    {states : SessionId → Option SessionDisconnectState}
    (hstates : ∀ s, states s = w.states s ∨ states s = none)
    (htasks : ∀ c ∈ tasks, c.phase ≠ .closed → c ∈ w.tasks) :
    Inv { w with live := live, states := states, tasks := tasks } := by
  intro s
  apply (h s).frame
  · exact hstates s
  · exact List.Perm.refl _
  · exact fun c hc _ hphase => htasks c hc hphase
  · rfl
  · rfl
  · rfl

theorem sessionClosed_states (w : World) (s t : SessionId) :
    (sessionClosed w s).states t = w.states t ∨ (sessionClosed w s).states t = none := by
  by_cases hts : t = s
  · right
    rw [hts]
    exact Function.update_self ..
  · exact Or.inl (Function.update_of_ne hts ..)

/- A positive `should_close` makes the cleanup ready. -/
theorem ready_of_shouldClose (h : InvAt w c.session) (hc : c ∈ w.tasks)
    (hphase : c.phase = .waiting)
    (hclose : shouldClose w c.session c.generation = true) : Ready w c := by
  obtain ⟨state, hstate, hboth⟩ := (Option.any_eq_true _ _).mp hclose
  simp only [Bool.and_eq_true, decide_eq_true_eq] at hboth
  obtain ⟨hmark, hzero⟩ := hboth
  have hcount := h.counted state hstate
  rw [hzero] at hcount
  obtain ⟨hopens, hincarnation⟩ := h.waiting c hc rfl hphase state hstate hmark
  have hsome : state.abandonedGeneration.isSome := by
    rw [hmark]
    rfl
  exact ⟨List.length_eq_zero_iff.mp hcount.symm, h.marked state hstate hsome, hopens, hincarnation⟩

theorem decide_inv (h : Inv w) (hc : c ∈ w.tasks) (hphase : c.phase = .waiting)
    (hclose : shouldClose w c.session c.generation = true) : Inv (w.replace c .decided) := by
  have hready := ready_of_shouldClose (h c.session) hc hphase hclose
  have hcases : ∀ c' ∈ (w.replace c .decided).tasks,
      c' = { c with phase := .decided } ∨ c' ∈ w.tasks := by
    intro c' hc'
    rcases List.mem_cons.mp hc' with hnew | hold
    · exact Or.inl hnew
    · exact Or.inr (List.mem_of_mem_erase hold)
  intro s
  have hs := h s
  refine ⟨hs.counted, hs.own, hs.marked, ?_, ?_, ?_⟩
  · intro c' hc' hcs hwait
    rcases hcases c' hc' with rfl | hold
    · cases hwait
    · exact hs.distinct c' hold hcs hwait
  · intro c' hc' hcs hwait
    rcases hcases c' hc' with rfl | hold
    · cases hwait
    · exact hs.waiting c' hold hcs hwait
  · intro c' hc' hcs hdecided
    rcases hcases c' hc' with rfl | hold
    · exact ⟨hready.idle, hready.abandoned, hready.opens, hready.incarnation⟩
    · have hready' := hs.decided c' hold hcs hdecided
      exact ⟨hready'.idle, hready'.abandoned, hready'.opens, hready'.incarnation⟩

theorem create_inv (h : Inv w) (hcalm : Calm w (.create s)) :
    Inv { w with
      live := Function.update w.live s true
      incarnation := Function.update w.incarnation s (w.incarnation s + 1) } := by
  obtain ⟨hforgotten, hdecided⟩ := hcalm
  intro t
  by_cases hts : t = s
  · subst hts
    have hnone : ∀ state, state ∉ w.states t := by
      intro state hstate
      rw [hforgotten] at hstate
      cases hstate
    refine ⟨?_, ?_, ?_, (h t).distinct, ?_, ?_⟩
    · exact fun state hstate => absurd hstate (hnone state)
    · exact fun state hstate => absurd hstate (hnone state)
    · exact fun state hstate => absurd hstate (hnone state)
    · exact fun _ _ _ _ state hstate => absurd hstate (hnone state)
    · exact fun c hc hcs hphase => absurd hphase (hdecided c hc hcs)
  · apply (h t).frame
    · exact Or.inl rfl
    · exact List.Perm.refl _
    · exact fun c hc _ _ => hc
    · exact Function.update_of_ne hts ..
    · rfl
    · rfl

theorem step_inv (h : Inv w) (hcalm : Calm w act) (hstep : step w act = some w') : Inv w' := by
  cases act with
  | create s =>
    simp only [step] at hstep
    split at hstep
    · cases hstep
    · cases hstep
      exact create_inv h hcalm
  | stream s closeOnDrop =>
    cases hstep
    intro t
    by_cases hts : t = s
    · rw [hts]
      exact streamOpened_self closeOnDrop (h s) hcalm
    · exact streamOpened_other closeOnDrop hts (h t)
  | finish stream dropped runtime =>
    simp only [step] at hstep
    split at hstep
    · rename_i hmem
      cases hstep
      intro t
      by_cases hts : t = stream.session
      · rw [hts]
        exact streamClosed_self _ _ hmem (h stream.session)
      · exact streamClosed_other _ _ hmem hts (h t)
    · cases hstep
  | decide c =>
    simp only [step] at hstep
    split at hstep
    · rename_i hc
      split at hstep
      · rename_i hclose
        cases hstep
        exact decide_inv h hc.1 hc.2 hclose
      · cases hstep
        exact Inv.frame h (fun _ => Or.inl rfl) fun c' hc' _ => List.mem_of_mem_erase hc'
    · cases hstep
  | close c ok =>
    simp only [step] at hstep
    split at hstep
    · cases hstep
      apply Inv.frame h fun _ => Or.inl rfl
      intro c' hc' hphase
      rcases List.mem_cons.mp hc' with rfl | hold
      · exact absurd rfl hphase
      · exact List.mem_of_mem_erase hold
    · cases hstep
  | forget c =>
    simp only [step] at hstep
    split at hstep
    · cases hstep
      exact Inv.frame h (sessionClosed_states w c.session) fun c' hc' _ => List.mem_of_mem_erase hc'
    · cases hstep
  | closeSession s =>
    cases hstep
    exact Inv.frame h (fun _ => Or.inl rfl) fun c hc _ => hc
  | sessionClosed s =>
    cases hstep
    exact Inv.frame h (sessionClosed_states w s) fun c hc _ => hc

theorem start_inv : Inv start := by
  intro s
  exact ⟨nofun, nofun, nofun, nofun, nofun, nofun⟩

/-- In a calm run a cleanup closes only a session that is ready for it: one whose client has
dropped its standalone stream and has not come back. -/
theorem cleanup_closes_abandoned {as : List Act} {ok : Bool}
    (hrun : Runs.run step start as = some w) (hcond : Runs.Along step Calm start as)
    (hclose : step w (.close c ok) = some w') : Ready w c := by
  have hI : Inv w :=
    Runs.run_inv_along Inv (fun _ _ _ hI hcalm h => step_inv hI hcalm h) start_inv hcond hrun
  simp only [step] at hclose
  split at hclose
  · rename_i hc
    exact (hI c.session).decided c hc.1 rfl hc.2
  · cases hclose

instance (w : World) : ∀ act, Decidable (Calm w act)
  | .create s => inferInstanceAs (Decidable (w.states s = none ∧ ∀ c ∈ w.tasks, _))
  | .stream s _ =>
    inferInstanceAs (Decidable ((∀ c ∈ w.tasks, c.session = s → c.phase ≠ .decided) ∧
      (w.states s = none → ∀ stream ∈ w.streams, stream.session ≠ s) ∧
      ∀ c ∈ w.tasks, c.session = s → c.phase = .waiting →
        c.generation ≠ (w.state s).streamOpened.generation))
  | .finish .. | .decide _ | .close .. | .forget _ | .closeSession _ | .sessionClosed _ =>
    isTrue trivial

/- The standalone stream of a client, and the cleanup its drop spawns. -/
def clientStream : TrackedSessionStream := ⟨"s", 1, true, 1⟩
def clientCleanup (phase : Phase) : Cleanup := ⟨"s", 1, phase, 1, 1⟩

def disconnected : List Act :=
  [.create "s", .stream "s" true, .finish clientStream true true, .decide (clientCleanup .waiting)]

theorem cleanup_closes_abandoned_disconnected :
    ∃ w w', Runs.run step start disconnected = some w ∧
      step w (.close (clientCleanup .decided) true) = some w' ∧ w'.live "s" = false ∧
      Ready w (clientCleanup .decided) := by
  have hrun : (Runs.run step start disconnected).any (fun w =>
      (step w (.close (clientCleanup .decided) true)).any fun w' => !w'.live "s") = true := by
    decide +kernel
  have hcond : Runs.Along step Calm start disconnected := by decide +kernel
  obtain ⟨w, hw, hfacts⟩ := (Option.any_eq_true _ _).mp hrun
  obtain ⟨w', hw', hlive⟩ := (Option.any_eq_true _ _).mp hfacts
  exact ⟨w, w', hw, hw', by simpa using hlive, cleanup_closes_abandoned hw hcond hw'⟩

/- The client comes back between the decision and the close: the session is closed while its
new stream is open. -/
theorem cleanup_closes_reconnected :
    ∃ w w', Runs.run step start (disconnected ++ [.stream "s" true]) = some w ∧
      step w (.close (clientCleanup .decided) true) = some w' ∧ w.live "s" = true ∧
      w'.live "s" = false ∧ w.streamsOf "s" ≠ [] := by
  have hrun : (Runs.run step start (disconnected ++ [.stream "s" true])).any (fun w =>
      (step w (.close (clientCleanup .decided) true)).any fun w' =>
        decide (w.live "s" = true ∧ w'.live "s" = false ∧ w.streamsOf "s" ≠ [])) = true := by
    decide +kernel
  obtain ⟨w, hw, hfacts⟩ := (Option.any_eq_true _ _).mp hrun
  obtain ⟨w', hw', hend⟩ := (Option.any_eq_true _ _).mp hfacts
  exact ⟨w, w', hw, hw', of_decide_eq_true hend⟩

end IdaHeadless.HttpSessions
