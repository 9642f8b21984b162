import IdaHeadless.MainLoop.Lifetimes

/-!
# How the worker process ends (ida/main_loop.rs, crash_guard.rs, ida/interrupt.rs, main.rs)

The loop is not the only one that can end its process. A thread armed by `retire` ends
it after a caught signal, the handler of the terminal signals ends it when it is asked
twice, and the server thread ends it when the loop does not answer in time.
-/

namespace IdaHeadless.MainLoop

variable {pathsMatch : String → String → Bool} {s : Loop} {r : IdaRequest} {ans : Answers}
  {a : Act} {n signal : ℕ}

/-! ### The process around the loop -/

/- `exitNow` is `_exit`, which runs nothing. `processExit` is `std::process::exit` and
`returned` the return of `run_ida_loop` into its caller: both run the atexit handlers of
IDA. `killed` is a fatal signal outside the guard. -/
inductive Ending where
  | exitNow (status : ℕ)
  | processExit (status : ℕ)
  | returned
  | killed
  deriving DecidableEq

/- `requested` is the `REQUESTED` of the signal handler. -/
structure Process where
  loop : Loop
  requested : Option ℕ
  ending : Option Ending
  deriving DecidableEq

/- A step of the process. `spawned` says whether `retire`, if the step gets there, can
start its thread; `shutdownTimedOut` is the forced exit of `shutdown_worker_bounded`. -/
inductive ProcessAct where
  | loop (a : Act) (spawned : Bool)
  | signal (n : ℕ)
  | shutdownTimedOut

structure ProcessTurn where
  process : Process
  reply : Option Reply
  calls : List IdaCall
  deriving DecidableEq

/- The signal that this iteration has caught. -/
def newlyCaught (before after : Loop) : Option ℕ :=
  match before.caughtSignal with
  | some _ => none
  | none => after.caughtSignal

/- How a request, or the end of the channel, ends the process. After a caught signal the
way out of the loop goes through `exit_if_retired`. -/
def wayOut (before after : Loop) (spawned : Bool) : Option Ending :=
  match after.phase with
  | .returned => some .returned
  | .exited =>
    match before.caughtSignal with
    | some signal => some (.exitNow (128 + signal))
    | none => some .killed
  | .running =>
    match newlyCaught before after with
    | some signal => if spawned then none else some (.exitNow (128 + signal))
    | none => none

def loopEnding (before after : Loop) (spawned : Bool) : Act → Option Ending
  | .interrupt signal => some (.processExit (128 + signal))
  | .exitNow => before.caughtSignal.map fun signal => .exitNow (128 + signal)
  | .request _ _ | .disconnected => wayOut before after spawned

/- The loop acts on a terminal signal only once the handler has recorded it. -/
def Process.sees (w : Process) : Act → Bool
  | .interrupt signal => w.requested = some signal
  | _ => true

/- What `run_ida_loop` still owns when it returns is dropped. -/
def returnCalls (ending : Option Ending) (s : Loop) : List IdaCall :=
  if ending = some .returned then dropCalls s true else []

/- `retire` leaves at once when it cannot start its thread; the answer is lost with it. -/
def sentReply (before after : Loop) (spawned : Bool) (reply : Option Reply) : Option Reply :=
  if (newlyCaught before after).isSome && !spawned then reply.map fun _ => .dropped else reply

def loopTurn (pathsMatch : String → String → Bool) (w : Process) (a : Act) (spawned : Bool) :
    ProcessTurn :=
  let t := event pathsMatch w.loop a
  let ending := loopEnding w.loop t.state spawned a
  ⟨{ w with loop := t.state, ending := ending }, sentReply w.loop t.state spawned t.reply,
    t.calls ++ returnCalls ending t.state⟩

/- The handler of SIGINT, SIGTERM and SIGQUIT: the second one does not wait. -/
def handleSignal (w : Process) (n : ℕ) : Process :=
  match w.requested with
  | none => { w with requested := some n }
  | some _ => { w with requested := some n, ending := some (.exitNow (128 + n)) }

def processTurn (pathsMatch : String → String → Bool) (w : Process) (act : ProcessAct) :
    Option ProcessTurn :=
  if w.ending.isSome then none
  else
    match act with
    | .loop a spawned => if w.sees a then some (loopTurn pathsMatch w a spawned) else none
    | .signal n => some ⟨handleSignal w n, none, []⟩
    | .shutdownTimedOut => some ⟨{ w with ending := some (.processExit 124) }, none, []⟩

def processStep (pathsMatch : String → String → Bool) (w : Process) (act : ProcessAct) :
    Option Process :=
  (processTurn pathsMatch w act).map ProcessTurn.process

def boot (libInitialized : Bool) (installFault : Option String) : Process :=
  ⟨start libInitialized installFault, none, none⟩

/-! ### Retirement -/

/- Every request but `Close` and `Shutdown` has a responder that takes an error. -/
def IdaRequest.carriesError : IdaRequest → Bool
  | .close _ | .shutdown => false
  | _ => true

/- What a step may do once `signal` was caught. -/
structure Terminal (signal : ℕ) (act : ProcessAct) (t : ProcessTurn) : Prop where
  retired : t.process.loop.caughtSignal = some signal
  calls : t.calls = []
  refused : ∀ r ans spawned, act = .loop (.request r ans) spawned → r.carriesError = true →
    t.reply = some (.err (retiredError signal))
  unacknowledged : ∀ save ans spawned, act = .loop (.request (.close save) ans) spawned →
    t.reply ≠ some .closed
  ending : ∀ e ∈ t.process.ending, ∃ status, e = .exitNow status

/- The two steps that end the process through `std::process::exit`: the loop acts on a
terminal signal, and the server thread gives up on the loop. -/
def ProcessAct.exitsProcess : ProcessAct → Bool
  | .loop (.interrupt _) _ | .shutdownTimedOut => true
  | _ => false

theorem leave_retired (hcaught : s.caughtSignal = some signal) :
    (leave s).phase = .exited ∧ (leave s).caughtSignal = some signal := by
  simp only [leave, hcaught, releaseMcpLock, and_self]

/- A request after a caught signal changes nothing, or it is the `Shutdown`. -/
theorem refuseRetired_state (hcaught : s.caughtSignal = some signal) :
    (refuseRetired s r signal).state.caughtSignal = some signal ∧
      ((refuseRetired s r signal).state.phase = s.phase ∨
        (refuseRetired s r signal).state.phase = .exited) := by
  cases r with
  | shutdown =>
    obtain ⟨hphase, hsignal⟩ := leave_retired hcaught
    exact ⟨hsignal, .inr hphase⟩
  | _ => exact ⟨hcaught, .inl rfl⟩

theorem refuseRetired_calls : (refuseRetired s r signal).calls = [] := by
  cases r <;> rfl

theorem refuseRetired_reply (hr : r.carriesError = true) :
    (refuseRetired s r signal).reply = some (.err (retiredError signal)) := by
  cases r with
  | close save => cases hr
  | shutdown => cases hr
  | _ => rfl

theorem newlyCaught_retired {t : Loop} (hcaught : s.caughtSignal = some signal) :
    newlyCaught s t = none := by
  simp only [newlyCaught, hcaught]

theorem sentReply_retired {t : Loop} {spawned : Bool} {reply : Option Reply}
    (hcaught : s.caughtSignal = some signal) : sentReply s t spawned reply = reply := by
  simp [sentReply, newlyCaught_retired hcaught]

/- A retired loop that has not returned leaves through `exit_now` if it leaves. -/
theorem wayOut_retired {t : Loop} {spawned : Bool} (hcaught : s.caughtSignal = some signal)
    (hphase : t.phase ≠ .returned) :
    ∀ e ∈ wayOut s t spawned, ∃ status, e = .exitNow status := by
  intro e he
  cases hp : t.phase with
  | returned => exact absurd hp hphase
  | exited =>
    simp only [wayOut, hp, hcaught, Option.mem_def, Option.some.injEq] at he
    exact ⟨_, he.symm⟩
  | running =>
    simp only [wayOut, hp, newlyCaught_retired hcaught, Option.mem_def] at he
    cases he

theorem returnCalls_of_exitNow {ending : Option Ending}
    (h : ∀ e ∈ ending, ∃ status, e = .exitNow status) : returnCalls ending s = [] := by
  rw [returnCalls, if_neg]
  intro hreturned
  obtain ⟨status, hstatus⟩ := h .returned hreturned
  cases hstatus

/- A step of the loop is terminal if the event is, and if what it does to the process is. -/
theorem loopTurn_terminal {w : Process} {spawned : Bool}
    (hcaught : w.loop.caughtSignal = some signal)
    (hkept : (event pathsMatch w.loop a).state.caughtSignal = some signal)
    (hcalls : (event pathsMatch w.loop a).calls = [])
    (hrefused : ∀ r ans, a = .request r ans → r.carriesError = true →
      (event pathsMatch w.loop a).reply = some (.err (retiredError signal)))
    (hclose : ∀ save ans, a = .request (.close save) ans →
      (event pathsMatch w.loop a).reply ≠ some .closed)
    (hending : ∀ e ∈ loopEnding w.loop (event pathsMatch w.loop a).state spawned a,
      ∃ status, e = .exitNow status) :
    Terminal signal (.loop a spawned) (loopTurn pathsMatch w a spawned) := by
  refine ⟨hkept, ?_, ?_, ?_, hending⟩
  · show (event pathsMatch w.loop a).calls ++ returnCalls _ _ = []
    rw [hcalls, returnCalls_of_exitNow hending]
    rfl
  · intro r ans spawned' hact hr
    cases hact
    show sentReply _ _ _ _ = _
    rw [sentReply_retired hcaught]
    exact hrefused r ans rfl hr
  · intro save ans spawned' hact
    cases hact
    show sentReply _ _ _ _ ≠ _
    rw [sentReply_retired hcaught]
    exact hclose save ans rfl

theorem request_terminal {w : Process} {spawned : Bool}
    (hcaught : w.loop.caughtSignal = some signal) (hphase : w.loop.phase = .running) :
    Terminal signal (.loop (.request r ans) spawned)
      (loopTurn pathsMatch w (.request r ans) spawned) := by
  have hevent : event pathsMatch w.loop (.request r ans) = refuseRetired w.loop r signal := by
    simp only [event, turn, hcaught]
  obtain ⟨hsignal, hphases⟩ := refuseRetired_state (r := r) hcaught
  apply loopTurn_terminal hcaught <;> rw [hevent]
  · exact hsignal
  · exact refuseRetired_calls
  · intro r' ans' hact hr
    cases hact
    exact refuseRetired_reply hr
  · intro save ans' hact
    cases hact
    simp [refuseRetired]
  · apply wayOut_retired hcaught
    intro hreturned
    rw [hreturned, hphase] at hphases
    rcases hphases with h | h <;> cases h

theorem disconnected_terminal {w : Process} {spawned : Bool}
    (hcaught : w.loop.caughtSignal = some signal) :
    Terminal signal (.loop .disconnected spawned)
      (loopTurn pathsMatch w .disconnected spawned) := by
  obtain ⟨hphase, hsignal⟩ := leave_retired hcaught
  apply loopTurn_terminal hcaught
  · exact hsignal
  · rfl
  · intro r ans hact
    cases hact
  · intro save ans hact
    cases hact
  · apply wayOut_retired hcaught
    show (leave w.loop).phase ≠ .returned
    rw [hphase]
    exact Phase.noConfusion

/- The exit that `retire` has armed. -/
theorem exitNow_terminal {w : Process} {spawned : Bool}
    (hcaught : w.loop.caughtSignal = some signal) :
    Terminal signal (.loop .exitNow spawned) (loopTurn pathsMatch w .exitNow spawned) := by
  apply loopTurn_terminal hcaught
  · simp [event, hcaught]
  · rfl
  · intro r ans hact
    cases hact
  · intro save ans hact
    cases hact
  · intro e he
    simp only [loopEnding, hcaught, Option.map_some, Option.mem_def, Option.some.injEq] at he
    exact ⟨_, he.symm⟩

theorem handleSignal_loop {w : Process} : (handleSignal w n).loop = w.loop := by
  unfold handleSignal
  split <;> rfl

theorem handleSignal_ending {w : Process} (hopen : w.ending = none) :
    ∀ e ∈ (handleSignal w n).ending, ∃ status, e = .exitNow status := by
  intro e he
  unfold handleSignal at he
  split at he
  · rw [hopen] at he
    cases he
  · cases he
    exact ⟨_, rfl⟩

/- Everything a step of the process can be. -/
theorem processTurn_cases {w : Process} {act : ProcessAct} {t : ProcessTurn}
    (h : processTurn pathsMatch w act = some t) :
    w.ending = none ∧
      ((∃ a spawned, act = .loop a spawned ∧ t = loopTurn pathsMatch w a spawned) ∨
        (∃ n, act = .signal n ∧ t = ⟨handleSignal w n, none, []⟩) ∨
        (act = .shutdownTimedOut ∧
          t = ⟨{ w with ending := some (.processExit 124) }, none, []⟩)) := by
  unfold processTurn at h
  split at h
  · cases h
  · rename_i hopen
    refine ⟨by simpa using hopen, ?_⟩
    cases act with
    | loop a spawned =>
      dsimp only at h
      split at h
      · cases h
        exact .inl ⟨a, spawned, rfl, rfl⟩
      · cases h
    | signal n =>
      cases h
      exact .inr (.inl ⟨n, rfl, rfl⟩)
    | shutdownTimedOut =>
      cases h
      exact .inr (.inr ⟨rfl, rfl⟩)

/- Until the process has ended the loop is running. -/
def Alive (w : Process) : Prop := w.ending = none → w.loop.phase = .running

theorem wayOut_none {t : Loop} {spawned : Bool} (h : wayOut s t spawned = none) :
    t.phase = .running := by
  cases hp : t.phase with
  | running => rfl
  | returned => simp [wayOut, hp] at h
  | exited =>
    simp only [wayOut, hp] at h
    split at h <;> cases h

theorem loopTurn_alive {w : Process} {spawned : Bool} (hphase : w.loop.phase = .running) :
    Alive (loopTurn pathsMatch w a spawned).process := by
  intro hending
  cases a with
  | request r ans => exact wayOut_none hending
  | disconnected => exact wayOut_none hending
  | interrupt signal => cases hending
  | exitNow =>
    have hnone : w.loop.caughtSignal = none := Option.map_eq_none_iff.mp hending
    simp [loopTurn, event, hnone, hphase]

theorem processStep_alive {w v : Process} {act : ProcessAct} (hw : Alive w)
    (h : processStep pathsMatch w act = some v) : Alive v := by
  obtain ⟨t, hturn, rfl⟩ := Option.map_eq_some_iff.mp h
  obtain ⟨hopen, ⟨a, spawned, rfl, rfl⟩ | ⟨n, rfl, rfl⟩ | ⟨rfl, rfl⟩⟩ := processTurn_cases hturn
  · exact loopTurn_alive (hw hopen)
  · intro _
    show (handleSignal w n).loop.phase = .running
    rw [handleSignal_loop]
    exact hw hopen
  · intro hending
    cases hending

/- One step after the catch. Only a step that ends in `std::process::exit` is not terminal. -/
theorem processTurn_terminal_iff {w : Process} {act : ProcessAct} {t : ProcessTurn}
    (hw : Alive w) (hcaught : w.loop.caughtSignal = some signal)
    (h : processTurn pathsMatch w act = some t) :
    Terminal signal act t ↔ act.exitsProcess = false := by
  obtain ⟨hopen, ⟨a, spawned, rfl, rfl⟩ | ⟨n, rfl, rfl⟩ | ⟨rfl, rfl⟩⟩ := processTurn_cases h
  · cases a with
    | request r ans => exact iff_of_true (request_terminal hcaught (hw hopen)) rfl
    | disconnected => exact iff_of_true (disconnected_terminal hcaught) rfl
    | exitNow => exact iff_of_true (exitNow_terminal hcaught) rfl
    | interrupt signal =>
      apply iff_of_false
      · intro hterminal
        obtain ⟨status, hstatus⟩ := hterminal.ending _ rfl
        cases hstatus
      · exact Bool.noConfusion
  · refine iff_of_true ⟨?_, rfl, ?_, ?_, handleSignal_ending hopen⟩ rfl
    · show (handleSignal w n).loop.caughtSignal = some signal
      rw [handleSignal_loop]
      exact hcaught
    · intro r ans spawned hact
      cases hact
    · intro save ans spawned hact
      cases hact
  · apply iff_of_false
    · intro hterminal
      obtain ⟨status, hstatus⟩ := hterminal.ending _ rfl
      cases hstatus
    · exact Bool.noConfusion

/- Nothing rehabilitates a process that has caught a signal. -/
theorem processStep_retired {w v : Process} {act : ProcessAct} (hw : Alive w)
    (hcaught : w.loop.caughtSignal = some signal)
    (h : processStep pathsMatch w act = some v) : v.loop.caughtSignal = some signal := by
  obtain ⟨t, hturn, rfl⟩ := Option.map_eq_some_iff.mp h
  cases hexits : act.exitsProcess with
  | false => exact ((processTurn_terminal_iff hw hcaught hturn).mpr hexits).retired
  | true =>
    obtain ⟨-, ⟨a, spawned, rfl, rfl⟩ | ⟨n, rfl, rfl⟩ | ⟨rfl, rfl⟩⟩ := processTurn_cases hturn
    · cases a with
      | interrupt n => exact hcaught
      | request r ans => cases hexits
      | disconnected => cases hexits
      | exitNow => cases hexits
    · cases hexits
    · exact hcaught

/- Every step of the run that can be taken is terminal. -/
def TerminalAlong (pathsMatch : String → String → Bool) (signal : ℕ) (w : Process)
    (acts : List ProcessAct) : Prop :=
  Runs.Along (processStep pathsMatch)
    (fun u act => ∀ t, processTurn pathsMatch u act = some t → Terminal signal act t) w acts

theorem terminalAlong_iff {w v : Process} {acts : List ProcessAct} (hw : Alive w)
    (hcaught : w.loop.caughtSignal = some signal)
    (hrun : Runs.run (processStep pathsMatch) w acts = some v) :
    TerminalAlong pathsMatch signal w acts ↔ ∀ act ∈ acts, act.exitsProcess = false := by
  induction acts generalizing w with
  | nil => exact iff_of_true trivial (by simp)
  | cons act acts ih =>
    obtain ⟨u, hwu, huv⟩ := Runs.run_cons_iff.mp hrun
    obtain ⟨t, hturn, rfl⟩ := Option.map_eq_some_iff.mp hwu
    have hfirst : (∀ t', processTurn pathsMatch w act = some t' → Terminal signal act t') ↔
        act.exitsProcess = false := by
      rw [← processTurn_terminal_iff hw hcaught hturn]
      constructor
      · intro hall
        exact hall t hturn
      · intro hterminal t' hturn'
        rw [hturn] at hturn'
        cases hturn'
        exact hterminal
    have hrest := ih (processStep_alive hw hwu) (processStep_retired hw hcaught hwu) huv
    rw [List.forall_mem_cons, ← hfirst, ← hrest]
    constructor
    · rintro ⟨hnow, hlater⟩
      exact ⟨hnow, hlater t.process hwu⟩
    · rintro ⟨hnow, hlater⟩
      refine ⟨hnow, ?_⟩
      intro u' hwu'
      rw [hwu] at hwu'
      cases hwu'
      exact hlater

/-- Retirement is terminal exactly for the processes that nobody sends through
`std::process::exit` afterwards. -/
theorem retirement_terminal {libInitialized : Bool} {installFault : Option String}
    {acts later : List ProcessAct} {w v : Process}
    (hrun : Runs.run (processStep pathsMatch) (boot libInitialized installFault) acts = some w)
    (hcaught : w.loop.caughtSignal = some signal)
    (hlater : Runs.run (processStep pathsMatch) w later = some v) :
    TerminalAlong pathsMatch signal w later ↔ ∀ act ∈ later, act.exitsProcess = false := by
  have halive : Alive w :=
    Runs.run_inv Alive (fun _ _ _ hu hstep => processStep_alive hu hstep) (fun _ => rfl) hrun
  exact terminalAlong_iff halive hcaught hlater

/- A database is opened, and the decompiler crashes on it. -/
def crashRun : List ProcessAct :=
  [.loop (.request (.openDb "a.i64" false) ⟨none, .ok none, .opened "a.i64" "a.i64.imcp", .ok⟩)
      true,
    .loop (.request (.tool .decompile) ⟨none, .ok none, .opened "a.i64" "a.i64.imcp", .crash 11⟩)
      true]

/- A later open, a close and the end of the channel find a retired process. -/
theorem retirement_terminal_disconnected :
    ∃ w, Runs.run (processStep fun p q => p == q) (boot true none) crashRun = some w ∧
      w.loop.caughtSignal = some 11 ∧ w.loop.idb.isSome ∧
      TerminalAlong (fun p q => p == q) 11 w
        [.loop (.request (.openDb "b.i64" false)
            ⟨none, .ok none, .opened "b.i64" "b.i64.imcp", .ok⟩) true,
          .loop (.request (.close true) ⟨none, .ok none, .opened "b.i64" "b.i64.imcp", .ok⟩) true,
          .loop .disconnected true] := by
  have hrun : Runs.run (processStep fun p q => p == q) (boot true none) crashRun = some _ := rfl
  exact ⟨_, hrun, rfl, rfl, (retirement_terminal hrun rfl rfl).mpr (by decide)⟩

/- Ctrl+C after the crash, before the armed exit: the loop leaves the database alone, and
then runs the atexit handlers of IDA over the heap it has left it for. -/
theorem interrupt_after_catch_runs_atexit :
    ∃ w v, Runs.run (processStep fun p q => p == q) (boot true none) crashRun = some w ∧
      w.loop.caughtSignal = some 11 ∧
      Runs.run (processStep fun p q => p == q) w [.signal 2, .loop (.interrupt 2) true] = some v ∧
      v.ending = some (.processExit 130) ∧
      ¬ TerminalAlong (fun p q => p == q) 11 w [.signal 2, .loop (.interrupt 2) true] := by
  refine ⟨_, _, rfl, rfl, rfl, rfl, ?_⟩
  rintro ⟨-, hinterrupt⟩
  obtain ⟨status, hstatus⟩ := ((hinterrupt _ rfl).1 _ rfl).ending _ rfl
  cases hstatus

/-! ### The deferred initialization over a run -/

/- The request gets past its token, and `init_ida_library` succeeds for it. -/
def Act.initializes : Act → Bool
  | .request r ans => !r.cancelled ans 0 && ans.init.isOk
  | _ => false

theorem serve_lib : (serve pathsMatch s r ans).state.libInitialized = s.libInitialized := by
  unfold serve
  split
  · exact dispatch_library.initialized
  · split
    · exact leave_library.initialized
    · rfl

/- The gate of the deferred initialization: it fails and leaves everything, or the
library is initialized. -/
theorem initThenServe_lib :
    ((Act.request r ans).initializes = false ∧ (initThenServe pathsMatch s r ans).state = s) ∨
    ((Act.request r ans).initializes = true ∧
      (initThenServe pathsMatch s r ans).state.libInitialized = true) := by
  unfold initThenServe
  cases hcancel : r.cancelled ans 0 with
  | true => exact .inl ⟨by simp [Act.initializes, hcancel], rfl⟩
  | false =>
    cases hinit : ans.init with
    | error message =>
      exact .inl ⟨by simp [Act.initializes, hcancel, hinit, Except.isOk, Except.toBool], rfl⟩
    | ok fault =>
      exact .inr ⟨by simp [Act.initializes, hcancel, hinit, Except.isOk, Except.toBool], serve_lib⟩

/- A guarded call runs after the initialization only. -/
def Deferred (s : Loop) : Prop := s.libInitialized = false → s.caughtSignal = none

theorem event_lib (hs : Deferred s) :
    Deferred (event pathsMatch s a).state ∧
      ((event pathsMatch s a).state.libInitialized = true ↔
        s.libInitialized = true ∨ a.initializes = true) := by
  cases hlib : s.libInitialized with
  | true =>
    have hkept : (event pathsMatch s a).state.libInitialized = true := by
      cases a with
      | request r ans =>
        show (turn pathsMatch s r ans).state.libInitialized = true
        unfold turn
        split
        · rename_i signal hcaught
          cases r with
          | shutdown => exact leave_library.initialized.trans hlib
          | _ => exact hlib
        · rw [if_pos hlib]
          exact serve_lib.trans hlib
      | interrupt signal => exact hlib
      | disconnected => exact leave_library.initialized.trans hlib
      | exitNow =>
        simp only [event]
        split <;> exact hlib
    refine ⟨?_, by simp [hkept]⟩
    intro hno
    rw [hkept] at hno
    cases hno
  | false =>
    have hcaught : s.caughtSignal = none := hs hlib
    cases a with
    | request r ans =>
      have hturn : turn pathsMatch s r ans = initThenServe pathsMatch s r ans := by
        simp [turn, hcaught, hlib]
      show Deferred (turn pathsMatch s r ans).state ∧
        ((turn pathsMatch s r ans).state.libInitialized = true ↔ _)
      rw [hturn]
      rcases @initThenServe_lib pathsMatch s r ans with ⟨hno, hsame⟩ | ⟨hyes, hset⟩
      · rw [hsame]
        exact ⟨hs, by simp [hlib, hno]⟩
      · refine ⟨?_, by simp [hset, hyes]⟩
        intro hclear
        rw [hset] at hclear
        cases hclear
    | interrupt signal =>
      refine ⟨fun _ => hcaught, ?_⟩
      show s.libInitialized = true ↔ _
      simp [hlib, Act.initializes]
    | disconnected => simp [event, leave, hcaught, Deferred, hlib, Act.initializes]
    | exitNow => simp [event, hcaught, Deferred, hlib, Act.initializes]

/- Over a run: the library is initialized if it was, or if a request did it. -/
theorem run_lib {acts : List Act} {t : Loop} (hs : Deferred s)
    (hrun : Runs.run (step pathsMatch) s acts = some t) :
    Deferred t ∧ (t.libInitialized = true ↔
      s.libInitialized = true ∨ ∃ a ∈ acts, a.initializes = true) := by
  induction acts generalizing s with
  | nil =>
    cases hrun
    exact ⟨hs, by simp⟩
  | cons a acts ih =>
    obtain ⟨u, hsu, hut⟩ := Runs.run_cons_iff.mp hrun
    obtain ⟨-, rfl⟩ := step_event hsu
    obtain ⟨hdeferred, hlib⟩ := @event_lib pathsMatch s a hs
    obtain ⟨htdeferred, htlib⟩ := ih hdeferred hut
    refine ⟨htdeferred, ?_⟩
    rw [htlib, hlib, or_assoc]
    simp only [List.mem_cons, exists_eq_or_imp]

/-! ### `Shutdown` -/

/- The loop has left: nothing is open, the lock is released, no action is taken any more.
After a caught signal the database was leaked and not dropped. -/
structure Left (pathsMatch : String → String → Bool) (s : Loop) (t : Turn) : Prop where
  ended : t.state.phase ≠ .running
  idb : t.state.idb = none
  lockFile : t.state.lockFile = false
  lockPath : t.state.lockPath = none
  leaked : s.caughtSignal.isSome → t.calls = []
  last : ∀ acts u, Runs.run (step pathsMatch) t.state acts = some u → acts = []

theorem run_ended {u : Loop} {acts : List Act} (h : s.phase ≠ .running)
    (hrun : Runs.run (step pathsMatch) s acts = some u) : acts = [] := by
  cases acts with
  | nil => rfl
  | cons a acts =>
    obtain ⟨t, hst, -⟩ := Runs.run_cons_iff.mp hrun
    rw [step, if_neg h] at hst
    cases hst

theorem cleanup_left {t : Loop} {calls : List IdaCall} (hs : s.caughtSignal = none)
    (ht : t.caughtSignal = none) :
    Left pathsMatch s ⟨leave (shutdownCleanup t), none, calls⟩ := by
  have hleave : leave (shutdownCleanup t) = { shutdownCleanup t with phase := .returned } := by
    simp [leave, shutdownCleanup, releaseMcpLock, ht]
  have hended : (leave (shutdownCleanup t)).phase ≠ .running := leave_ended
  refine ⟨hended, ?_, ?_, ?_, ?_, fun _ _ => run_ended hended⟩
  · rw [hleave]
    rfl
  · rw [hleave]
    rfl
  · rw [hleave]
    rfl
  · intro hcaught
    rw [hs] at hcaught
    cases hcaught

theorem retired_left (hcaught : s.caughtSignal = some signal) :
    Left pathsMatch s ⟨leave s, none, []⟩ := by
  have hleave : leave s = releaseMcpLock { s with idb := none, phase := .exited } := by
    simp only [leave, hcaught]
  have hended : (leave s).phase ≠ .running := leave_ended
  refine ⟨hended, ?_, ?_, ?_, fun _ => rfl, fun _ _ => run_ended hended⟩
  · rw [hleave]
    rfl
  · rw [hleave]
    rfl
  · rw [hleave]
    rfl

/- Behind the gates a `Shutdown` closes the database, with and without an installation
fault. -/
theorem serve_shutdown :
    serve pathsMatch s .shutdown ans = ⟨leave (shutdownCleanup s), none, dropCalls s true⟩ := by
  unfold serve
  split <;> rfl

theorem turn_shutdown_left_iff (hs : Deferred s) (hrunning : s.phase = .running) :
    Left pathsMatch s (turn pathsMatch s .shutdown ans) ↔
      s.libInitialized = true ∨ (Act.request .shutdown ans).initializes = true := by
  have htoken : IdaRequest.shutdown.cancelled ans 0 = false := rfl
  cases hcaught : s.caughtSignal with
  | some signal =>
    have hlib : s.libInitialized = true := by
      by_contra hno
      rw [hs (by simpa using hno)] at hcaught
      cases hcaught
    refine iff_of_true ?_ (.inl hlib)
    have hturn : turn pathsMatch s .shutdown ans = ⟨leave s, none, []⟩ := by
      simp only [turn, hcaught, refuseRetired]
    rw [hturn]
    exact retired_left hcaught
  | none =>
    cases hlib : s.libInitialized with
    | true =>
      refine iff_of_true ?_ (.inl rfl)
      have hturn : turn pathsMatch s .shutdown ans = serve pathsMatch s .shutdown ans := by
        simp only [turn, hcaught, hlib, if_true]
      rw [hturn, serve_shutdown]
      exact cleanup_left hcaught hcaught
    | false =>
      have hturn : turn pathsMatch s .shutdown ans = initThenServe pathsMatch s .shutdown ans := by
        simp only [turn, hcaught, hlib, Bool.false_eq_true, if_false]
      rw [hturn]
      cases hinit : ans.init with
      | error message =>
        -- `reject_with_error` has nothing to send, and the loop goes on.
        apply iff_of_false
        · intro hleft
          apply hleft.ended
          simpa only [initThenServe, htoken, hinit, Bool.false_eq_true, if_false] using hrunning
        · simp [Act.initializes, hinit, Except.isOk, Except.toBool]
      | ok fault =>
        refine iff_of_true ?_ (.inr ?_)
        · simp only [initThenServe, htoken, hinit, Bool.false_eq_true, if_false, serve_shutdown]
          exact cleanup_left hcaught hcaught
        · simp [Act.initializes, htoken, hinit, Except.isOk, Except.toBool]

/-- A `Shutdown` ends the loop exactly if the library is there: from the start, or because
the deferred initialization has succeeded for a request up to this one. -/
theorem shutdown_leaves_iff {libInitialized : Bool} {installFault : Option String}
    {acts : List Act}
    (hrun : Runs.run (step pathsMatch) (start libInitialized installFault) acts = some s)
    (hrunning : s.phase = .running) :
    Left pathsMatch s (turn pathsMatch s .shutdown ans) ↔
      libInitialized = true ∨
        ∃ a ∈ acts ++ [.request .shutdown ans], a.initializes = true := by
  obtain ⟨hdeferred, hlib⟩ := run_lib (fun _ => rfl) hrun
  rw [turn_shutdown_left_iff hdeferred hrunning, hlib, or_assoc]
  simp only [start, List.mem_append, List.mem_singleton, or_and_right, exists_or, exists_eq_left]

/- The initialization fails for an open and succeeds for the next one. -/
theorem shutdown_leaves_second_open :
    ∃ s, Runs.run (step fun p q => p == q) (start false none)
        [.request (.openDb "a.i64" false)
            ⟨none, .error "no license", .opened "a.i64" "a.i64.imcp", .ok⟩,
          .request (.openDb "a.i64" false)
            ⟨none, .ok none, .opened "a.i64" "a.i64.imcp", .ok⟩] = some s ∧
      s.idb.isSome ∧
      Left (fun p q => p == q) s (turn (fun p q => p == q) s .shutdown
        ⟨none, .ok none, .opened "a.i64" "a.i64.imcp", .ok⟩) := by
  have hrun : Runs.run (step fun p q => p == q) (start false none)
      [.request (.openDb "a.i64" false)
          ⟨none, .error "no license", .opened "a.i64" "a.i64.imcp", .ok⟩,
        .request (.openDb "a.i64" false)
          ⟨none, .ok none, .opened "a.i64" "a.i64.imcp", .ok⟩] = some _ := rfl
  exact ⟨_, hrun, rfl, (shutdown_leaves_iff hrun rfl).mpr (.inr ⟨_, .tail _ (.head _), rfl⟩)⟩

/- The initialization fails for the first request, which is a `Shutdown`: the loop stays,
and takes the next request. -/
theorem shutdown_swallowed :
    ∃ ans t, step (fun p q => p == q) (start false none) (.request .shutdown ans) = some t ∧
      t.phase = .running ∧
      (∀ a, (step (fun p q => p == q) t a).isSome) ∧
      ¬ Left (fun p q => p == q) (start false none)
        (turn (fun p q => p == q) (start false none) .shutdown ans) := by
  refine ⟨⟨none, .error "no license", .opened "a.i64" "a.i64.imcp", .ok⟩, _, rfl, rfl,
    fun _ => rfl, ?_⟩
  intro hleft
  exact hleft.ended rfl

end IdaHeadless.MainLoop
