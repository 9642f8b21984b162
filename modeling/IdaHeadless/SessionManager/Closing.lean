import IdaHeadless.SessionManager.Maps

/-!
# The closes of `shutdown`

`shutdown` reads the ids once and closes one session after the other. Sessions leave the
maps at many places, and enter them at one: the end of an `open`. If no `open` comes to
its end from the snapshot on, no session is left in the maps after the last close.
-/

namespace IdaHeadless.SessionManager

variable {tools : String → Option String} {w w' : World} {a : Act} {t u : TaskId} {o : Outcome}
  {p q : Pc} {m : SessionRef} {id : String} {s s' : Mem} {mv : Move}

/-! ### Where sessions are made, and where they enter the maps -/

/-- The map of ids is as it was, or has lost an entry, and no session was added. -/
def Shrinks (s s' : Mem) : Prop :=
  (s'.byId = s.byId ∨ ∃ id, s'.byId = s.byId.erase id) ∧ s'.next = s.next

theorem Shrinks.lookup (h : Shrinks s s') {i : String} (hi : s'.byId.lookup i = some m) :
    s.byId.lookup i = some m := by
  rcases h.1 with he | ⟨id, he⟩
  · rwa [he] at hi
  · rw [he] at hi
    exact (lookup_erase_some hi).2

/-- An `open` makes its session when it claims an id, and inserts it at its end. -/
def Pc.claims : Pc → Bool
  | .openSession _ (.claim _) => true
  | _ => false

def Pc.opening : Pc → Bool
  | .openSession _ (.opening ..) => true
  | _ => false

def Pc.inserts : Pc → Bool
  | .openSession _ (.insert ..) => true
  | _ => false

/-- An `open` between the two. -/
def Pc.pending : Pc → Bool
  | .openSession _ (.opening ..) | .openSession _ (.warming ..) | .openSession _ (.insert ..) =>
    true
  | _ => false

/-- A move that makes no session and inserts none. -/
structure Plain (s : Mem) (mv : Move) : Prop where
  shrinks : Shrinks s mv.mem
  point : mv.point.pending = false

theorem Shrinks.still (hids : s'.byId = s.byId) (hnext : s'.next = s.next) : Shrinks s s' :=
  ⟨.inl hids, hnext⟩

theorem Plain.still (hids : mv.mem.byId = s.byId) (hnext : mv.mem.next = s.next)
    (hq : mv.point.pending = false) : Plain s mv :=
  ⟨.still hids hnext, hq⟩

theorem lockThen_plain (hm : lockThen s t m q = some mv) (hq : q.pending = false) : Plain s mv := by
  unfold lockThen at hm
  split at hm
  · cases hm
  · split at hm <;> cases hm
    exact .still rfl rfl hq

theorem updateThen_plain {f : Session → Session} {r : Mem} (hids : r.byId = s.byId)
    (hnext : r.next = s.next) (hm : updateThen r m f q = some mv) (hq : q.pending = false) :
    Plain s mv := by
  unfold updateThen at hm
  split at hm <;> cases hm
  exact .still hids hnext hq

theorem removeThen_plain {yes no : (Session → Session) × Pc}
    (hm : removeThen s id m yes no = some mv) (hyes : yes.2.pending = false)
    (hno : no.2.pending = false) : Plain s mv := by
  unfold removeThen at hm
  split at hm
  · cases hm
  · split at hm <;> cases hm
    · exact ⟨⟨.inr ⟨id, rfl⟩, rfl⟩, hyes⟩
    · exact .still rfl rfl hno

theorem listNext_pending (rest : List SessionRef) (seen : List String) :
    (listNext rest seen).pending = false := by
  cases rest <;> rfl

theorem reapNext_pending (rest : List SessionRef) : (reapNext rest).pending = false := by
  cases rest <;> rfl

theorem closeEnd_pending (closer : Closer) (exit : Exit) :
    (closeEnd closer exit).pending = false := by
  unfold closeEnd
  split <;> rfl

/-- What a move does to the maps and to the sessions that are being opened. -/
inductive OpenMove (s : Mem) (p : Pc) (mv : Move) : Prop where
  | plain (plain : Plain s mv)
  | makes (claims : p.claims = true) (opening : mv.point.opening = true) (mem : mv.mem = s)
  | waits (pending : p.pending = true) (first : p.inserts = false) (next : mv.point.pending = true)
      (opened : mv.point.opening = false) (mem : mv.mem = s)
  | inserts (inserts : p.inserts = true) (added : mv.mem.next = s.next + 1)
      (exit : Exit) (point : mv.point = .done exit)

theorem advanceOpen_move {r : OpenSessionRequest} {stage : OpenStage}
    (hm : advanceOpen s t r stage o = some mv) : OpenMove s (.openSession r stage) mv := by
  cases stage with
  | claim path =>
    cases o <;> simp only [advanceOpen, reduceCtorEq] at hm
    split at hm
    · cases hm
      exact .plain (.still rfl rfl rfl)
    · split at hm
      · cases hm
        exact .plain (.still rfl rfl rfl)
      · cases hm
        exact .makes rfl rfl rfl
  | opening path id =>
    cases o with
    | answered err =>
      cases err with
      | none =>
        cases hm
        exact .waits rfl rfl rfl rfl rfl
      | some e =>
        cases hm
        exact .plain (.still rfl rfl rfl)
    | _ => cases hm
  | warming path id =>
    cases o with
    | answered err =>
      cases hm
      exact .waits rfl rfl rfl rfl rfl
    | _ => cases hm
  | insert path id created =>
    cases o with
    | go =>
      cases hm
      exact .inserts rfl rfl _ rfl
    | _ => cases hm
  | lock | find path =>
    cases o <;> simp only [advanceOpen, reduceCtorEq] at hm
    repeat' split at hm
    all_goals cases hm
    all_goals exact .plain (.still rfl rfl rfl)
  | lifecycle path id m =>
    cases o with
    | go => exact .plain (lockThen_plain hm rfl)
    | cancelled =>
      cases hm
      exact .plain (.still rfl rfl rfl)
    | _ => cases hm
  | current path id m =>
    cases o with
    | go =>
      simp only [advanceOpen] at hm
      split at hm
      · cases hm
        exact .plain (.still rfl rfl rfl)
      · exact .plain (updateThen_plain rfl rfl hm rfl)
    | _ => cases hm
  | live path id m =>
    cases o with
    | live alive =>
      cases hm
      cases alive <;> exact .plain (.still rfl rfl rfl)
    | _ => cases hm
  | discard path id m =>
    cases o with
    | go => exact .plain (removeThen_plain hm rfl rfl)
    | _ => cases hm
  | discardClose path id m =>
    cases o with
    | answered err => exact .plain (updateThen_plain rfl rfl hm rfl)
    | _ => cases hm
  | touch path id m =>
    cases o with
    | go => exact .plain (updateThen_plain (r := s.unlockOpen) rfl rfl hm rfl)
    | _ => cases hm

theorem advanceList_plain {stage : ListStage} (hm : advanceList s t stage o = some mv) :
    Plain s mv := by
  cases stage with
  | start =>
    cases o with
    | snapshot ms =>
      simp only [advanceList] at hm
      split at hm <;> cases hm
      exact .still rfl rfl (listNext_pending _ _)
    | _ => cases hm
  | live m rest seen =>
    cases o with
    | live alive =>
      cases alive with
      | true =>
        obtain ⟨id, -, rfl⟩ := Option.map_eq_some_iff.mp hm
        exact .still rfl rfl (listNext_pending _ _)
      | false =>
        cases hm
        exact .still rfl rfl rfl
    | _ => cases hm
  | lifecycle m rest seen =>
    cases o with
    | go => exact lockThen_plain hm rfl
    | _ => cases hm
  | recheck m rest seen =>
    cases o with
    | live alive =>
      cases alive with
      | true =>
        obtain ⟨id, -, hm⟩ := Option.bind_eq_some_iff.mp hm
        exact updateThen_plain rfl rfl hm (listNext_pending _ _)
      | false =>
        cases hm
        exact .still rfl rfl rfl
    | _ => cases hm
  | remove m rest seen =>
    cases o with
    | go =>
      obtain ⟨id, -, hm⟩ := Option.bind_eq_some_iff.mp hm
      exact removeThen_plain hm rfl (listNext_pending _ _)
    | _ => cases hm
  | closing m rest seen =>
    cases o with
    | answered err => exact updateThen_plain rfl rfl hm (listNext_pending _ _)
    | _ => cases hm

theorem advanceClose_plain {database : String} {save : Bool} {closer : Closer}
    {stage : CloseStage} (hm : advanceClose s t database save closer stage o = some mv) :
    Plain s mv := by
  cases stage with
  | get =>
    cases o with
    | go =>
      simp only [advanceClose] at hm
      split at hm
      · cases hm
        exact .still rfl rfl (closeEnd_pending _ _)
      · cases hm
        exact .still rfl rfl rfl
    | _ => cases hm
  | lifecycle m =>
    cases o with
    | go => exact lockThen_plain hm rfl
    | _ => cases hm
  | remove m =>
    cases o with
    | go =>
      simp only [advanceClose] at hm
      split at hm
      · cases hm
        exact .still rfl rfl (closeEnd_pending _ _)
      · split at hm
        · cases hm
          exact ⟨⟨.inr ⟨database, rfl⟩, rfl⟩, rfl⟩
        · cases hm
          exact .still rfl rfl (closeEnd_pending _ _)
      · cases hm
    | _ => cases hm
  | info m =>
    cases o with
    | go => exact updateThen_plain rfl rfl hm rfl
    | _ => cases hm
  | closing m =>
    cases o with
    | answered err =>
      simp only [advanceClose] at hm
      split at hm
      · cases hm
      · cases hm
        exact .still rfl rfl (closeEnd_pending _ _)
    | _ => cases hm

theorem advanceCall_plain {database tool : String} {stage : CallStage}
    (hm : advanceCall tools s t database tool stage o = some mv) : Plain s mv := by
  cases stage with
  | get =>
    cases o <;> simp only [advanceCall, reduceCtorEq] at hm
    repeat' split at hm
    all_goals cases hm
    all_goals exact .still rfl rfl rfl
  | lifecycle m =>
    cases o with
    | go => exact lockThen_plain hm rfl
    | cancelled =>
      cases hm
      exact .still rfl rfl rfl
    | _ => cases hm
  | current m | access m =>
    cases o with
    | go =>
      simp only [advanceCall] at hm
      split at hm
      · exact updateThen_plain rfl rfl hm rfl
      · exact updateThen_plain rfl rfl hm rfl
    | _ => cases hm
  | worker m =>
    cases o with
    | answered err => cases err <;> exact updateThen_plain rfl rfl hm rfl
    | _ => cases hm
  | failed m err =>
    cases o with
    | live alive =>
      cases alive with
      | true => exact updateThen_plain rfl rfl hm rfl
      | false =>
        cases hm
        exact .still rfl rfl rfl
    | _ => cases hm
  | prune m err =>
    cases o with
    | go => exact removeThen_plain hm rfl rfl
    | _ => cases hm
  | touch m =>
    cases o with
    | go => exact updateThen_plain rfl rfl hm rfl
    | _ => cases hm

theorem reapSkip_plain {locked : Bool} {rest : List SessionRef}
    (hm : reapSkip s locked m rest = some mv) : Plain s mv := by
  cases locked with
  | true => exact updateThen_plain rfl rfl hm (reapNext_pending _)
  | false =>
    cases hm
    exact .still rfl rfl (reapNext_pending _)

theorem advanceReap_plain {stage : ReapStage} (hm : advanceReap s t stage o = some mv) :
    Plain s mv := by
  cases stage with
  | start =>
    cases o with
    | snapshot ms =>
      simp only [advanceReap] at hm
      split at hm <;> cases hm
      exact .still rfl rfl (reapNext_pending _)
    | _ => cases hm
  | idle locked m rest | elapsed locked m rest =>
    cases o with
    | go =>
      simp only [advanceReap] at hm
      split at hm
      · cases hm
      · split at hm
        · cases hm
          cases locked <;> exact .still rfl rfl rfl
        · exact reapSkip_plain hm
    | _ => cases hm
  | lifecycle m rest =>
    cases o with
    | go => exact lockThen_plain hm rfl
    | _ => cases hm
  | remove m rest =>
    cases o with
    | go =>
      obtain ⟨id, -, hm⟩ := Option.bind_eq_some_iff.mp hm
      exact removeThen_plain hm rfl (reapNext_pending _)
    | _ => cases hm
  | closing m rest =>
    cases o with
    | answered err => exact updateThen_plain rfl rfl hm (reapNext_pending _)
    | _ => cases hm

theorem advance_openMove (hm : advance tools s t o p = some mv) : OpenMove s p mv := by
  cases p with
  | done exit => cases hm
  | openSession r stage => exact advanceOpen_move hm
  | list stage => exact .plain (advanceList_plain hm)
  | close database save closer stage => exact .plain (advanceClose_plain hm)
  | call database tool stage => exact .plain (advanceCall_plain hm)
  | reap stage => exact .plain (advanceReap_plain hm)
  | shutdown =>
    simp only [advance] at hm
    split at hm
    · split at hm <;> cases hm
      exact .plain (.still rfl rfl (closeEnd_pending _ _))
    · cases hm

/- Only the end of an `open` adds a session to the map. -/
theorem advance_shrinks (hinserts : p.inserts = false) (hm : advance tools s t o p = some mv) :
    Shrinks s mv.mem := by
  cases advance_openMove hm with
  | plain plain => exact plain.shrinks
  | makes claims opening mem =>
    rw [mem]
    exact .still rfl rfl
  | waits pending first next opened mem =>
    rw [mem]
    exact .still rfl rfl
  | inserts inserts =>
    rw [hinserts] at inserts
    cases inserts

theorem dropTask_shrinks (hm : dropTask s p = some mv) : Shrinks s mv.mem := by
  have hids : (if p.opens then s.unlockOpen else s).byId = s.byId := by
    split <;> rfl
  have hnext : (if p.opens then s.unlockOpen else s).next = s.next := by
    split <;> rfl
  unfold dropTask at hm
  dsimp only at hm
  split at hm
  · cases hm
  · split at hm
    · cases hm
      exact .still hids hnext
    · exact (updateThen_plain hids hnext hm rfl).shrinks

theorem step_shrinks (h : step tools w a = some w')
    (hnot : ∀ u o, a = .advance u o → (w.tasks u).any Pc.inserts = false) :
    Shrinks w.mem w'.mem := by
  cases a with
  | openSession r =>
    simp only [step] at h
    split at h <;> cases h <;> exact .still rfl rfl
  | list | close _ _ | call _ _ | reapIdle | shutdown | tick _ =>
    cases h
    exact .still rfl rfl
  | advance t o =>
    obtain ⟨p, mv, hp, hm, rfl⟩ := step_advance_iff.mp h
    have hinserts := hnot t o rfl
    rw [hp] at hinserts
    exact advance_shrinks hinserts hm
  | drop t =>
    obtain ⟨p, mv, hp, hm, rfl⟩ := step_drop_iff.mp h
    exact dropTask_shrinks hm

/-! ### One close after the other -/

/-- Where `shutdown` is after its snapshot, and which sessions the maps can still have. While
it waits for a session `m` it found under an id, nobody else can be found there. -/
inductive Closing (s : Mem) : Pc → Prop where
  | get (id rest) (left : ∀ i m, s.byId.lookup i = some m → i = id ∨ i ∈ rest) :
      Closing s (.close id true (.shutdown rest) .get)
  | lifecycle (id rest m) (left : ∀ i m, s.byId.lookup i = some m → i = id ∨ i ∈ rest)
      (same : ∀ m', s.byId.lookup id = some m' → m' = m) :
      Closing s (.close id true (.shutdown rest) (.lifecycle m))
  | remove (id rest m) (left : ∀ i m, s.byId.lookup i = some m → i = id ∨ i ∈ rest)
      (same : ∀ m', s.byId.lookup id = some m' → m' = m) :
      Closing s (.close id true (.shutdown rest) (.remove m))
  | info (id rest m) (left : ∀ i m, s.byId.lookup i = some m → i ∈ rest) :
      Closing s (.close id true (.shutdown rest) (.info m))
  | closing (id rest m) (left : ∀ i m, s.byId.lookup i = some m → i ∈ rest) :
      Closing s (.close id true (.shutdown rest) (.closing m))
  | ended (left : ∀ i m, s.byId.lookup i ≠ some m) : Closing s (.done .ended)

theorem Closing.shrinks (hc : Closing s p) (hs : Shrinks s s') : Closing s' p := by
  cases hc with
  | get id rest left => exact .get id rest fun i m hi => left i m (hs.lookup hi)
  | lifecycle id rest m left same =>
    exact .lifecycle id rest m (fun i m hi => left i m (hs.lookup hi))
      fun m' hm' => same m' (hs.lookup hm')
  | remove id rest m left same =>
    exact .remove id rest m (fun i m hi => left i m (hs.lookup hi))
      fun m' hm' => same m' (hs.lookup hm')
  | info id rest m left => exact .info id rest m fun i m hi => left i m (hs.lookup hi)
  | closing id rest m left => exact .closing id rest m fun i m hi => left i m (hs.lookup hi)
  | ended left => exact .ended fun i m hi => left i m (hs.lookup hi)

/- On to the next id. -/
theorem closeEnd_closing {rest : List String} {exit : Exit}
    (left : ∀ i m, s.byId.lookup i = some m → i ∈ rest) :
    Closing s (closeEnd (.shutdown rest) exit) := by
  cases rest with
  | nil => exact .ended fun i m hi => by cases left i m hi
  | cons id rest => exact .get id rest fun i m hi => List.mem_cons.mp (left i m hi)

/- The id that is not in the map is not left. -/
theorem left_without {rest : List String}
    (left : ∀ i m, s.byId.lookup i = some m → i = id ∨ i ∈ rest)
    (hnone : s.byId.lookup id = none) : ∀ i m, s.byId.lookup i = some m → i ∈ rest := by
  intro i m hi
  rcases left i m hi with rfl | hrest
  · rw [hnone] at hi
    cases hi
  · exact hrest

theorem Closing.advance (hc : Closing s p) (hm : advance tools s t o p = some mv) :
    Closing mv.mem mv.point := by
  have hshrinks : Shrinks s mv.mem := by
    cases hc <;> exact advance_shrinks rfl hm
  cases hc with
  | get id rest left =>
    cases o with
    | go =>
      simp only [SessionManager.advance, advanceClose] at hm
      split at hm
      · rename_i hnone
        cases hm
        exact closeEnd_closing (left_without left hnone)
      · rename_i m hfound
        cases hm
        refine .lifecycle id rest m left fun m' hm' => ?_
        rw [hfound] at hm'
        exact (Option.some.inj hm').symm
    | _ => cases hm
  | lifecycle id rest m left same =>
    cases o with
    | go =>
      rw [lockThen_point hm]
      exact (Closing.remove id rest m left same).shrinks hshrinks
    | _ => cases hm
  | remove id rest m left same =>
    cases o with
    | go =>
      simp only [SessionManager.advance, advanceClose] at hm
      split at hm
      · rename_i hnone _
        cases hm
        exact closeEnd_closing (left_without left hnone)
      · rename_i m' se hfound hse
        rw [if_pos (same m' hfound)] at hm
        cases hm
        refine .info id rest m fun i m hi => ?_
        obtain ⟨hne, hi⟩ := lookup_erase_some hi
        exact (left i m hi).resolve_left hne
      · cases hm
    | _ => cases hm
  | info id rest m left =>
    cases o with
    | go =>
      rw [updateThen_point hm]
      exact (Closing.closing id rest m left).shrinks hshrinks
    | _ => cases hm
  | closing id rest m left =>
    cases o with
    | answered err =>
      simp only [SessionManager.advance, advanceClose] at hm
      split at hm
      · cases hm
      · cases hm
        exact closeEnd_closing left
    | _ => cases hm
  | ended left => cases hm

/- The snapshot of the ids. -/
theorem snapshot_closing (hm : advance tools s t o .shutdown = some mv) :
    Closing mv.mem mv.point := by
  cases o with
  | keys ids =>
    simp only [SessionManager.advance] at hm
    split at hm
    · rename_i hperm
      cases hm
      refine closeEnd_closing fun i m hi => ?_
      have hmem : i ∈ s.byId.keys := AList.mem_keys.mp (AList.lookup_isSome.mp (by rw [hi]; rfl))
      exact hperm.mem_iff.mpr hmem
    · cases hm
  | _ => cases hm

theorem closing_step (hI : Inv w) (hp : w.tasks t = some p) (hc : Closing w.mem p)
    (h : step tools w a = some w') (hdrop : a ≠ .drop t)
    (hnot : ∀ u o, a = .advance u o → (w.tasks u).any Pc.inserts = false) :
    ∃ q, w'.tasks t = some q ∧ Closing w'.mem q := by
  by_cases hmoves : a.Moves t
  · rcases hmoves with rfl | ⟨o, rfl⟩
    · exact absurd rfl hdrop
    · obtain ⟨mv, hm, rfl⟩ := step_advance_at hp h
      exact ⟨_, Tasks.resume_self mv (hI.lt_next hp), hc.advance hm⟩
  · exact ⟨p, step_kept hI h hp hmoves, hc.shrinks (step_shrinks h hnot)⟩

end IdaHeadless.SessionManager
