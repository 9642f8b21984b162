import IdaHeadless.LockFile.Step

/-!
# When the lock file excludes

The lock is on an inode while the name is what the next process opens, so exclusion
rests on one fact: whoever keeps the lock keeps it on the inode the name refers to.
A step can break it in three ways, and in every run without such steps at most one
process holds the lock.
-/

namespace IdaHeadless.LockFile
open RecordLocks

variable {path : String} {w w' : World} {s s' : Mem} {th th' : Thread} {pc pc' : Pc}
  {pid q t u i fd : ℕ} {o : Outcome} {a : Act}

/- The live process is between a successful `acquire_mcp_lock` and its release. -/
def Holds (w : World) (pid : ℕ) : Prop :=
  w.mem.alive pid = true ∧ ∃ t fd, w.tasks t = some ⟨pid, .held fd⟩

/- The inode the thread has locked for its caller: from the granted lock in
`acquire_mcp_lock` until a release is called. -/
def Pc.keeps : Pc → Option ℕ
  | .acquireTruncate _ fd | .acquireWrite _ fd | .held fd => some fd
  | _ => none

/- The descriptor the next call closes. -/
def Pc.closes : Pc → Option ℕ
  | .acquireRefused fd _ | .releaseClose fd | .readClose _ fd _ | .staleClose fd _ => some fd
  | _ => none

/- The next call unlinks the name. -/
def Pc.unlinks : Pc → Bool
  | .releaseUnlink _ | .staleUnlink _ | .removeUnlink _ => true
  | _ => false

/- The inode `acquire_mcp_lock` asks the lock on. -/
def Pc.asks : Pc → Option ℕ
  | .acquireLock _ fd => some fd
  | _ => none

/- Some thread other than `t` keeps the lock on `fd` for a process in `P`. -/
def OtherKeeps (w : World) (t : ℕ) (P : ℕ → Prop) (fd : ℕ) : Prop :=
  ∃ u < w.next, u ≠ t ∧ ∃ th ∈ w.tasks u, th.pc.keeps = some fd ∧ P th.pid

/- The step breaks nothing: a lock that `acquire_mcp_lock` is granted is on the file the
name refers to, a name is unlinked only while nobody else keeps the lock on its
file, and a descriptor is closed only if no other thread of the process keeps the
lock on its file. -/
def Careful (w : World) : Act → Prop
  | .advance t o =>
    ∀ th ∈ w.tasks t,
      (∀ fd ∈ th.pc.asks, (setLock w.mem.fs th.pid fd o).isSome → w.mem.fs.link = some fd) ∧
      (th.pc.unlinks → (removeFile w.mem.fs o).2 →
        ∀ fd ∈ w.mem.fs.link, ¬ OtherKeeps w t (fun _ => True) fd) ∧
      ∀ fd ∈ th.pc.closes, ¬ OtherKeeps w t (· = th.pid) fd
  | _ => True

instance (w : World) (t fd : ℕ) (P : ℕ → Prop) [DecidablePred P] :
    Decidable (OtherKeeps w t P fd) :=
  inferInstanceAs (Decidable (∃ u < w.next, _))

instance (w : World) : ∀ a, Decidable (Careful w a)
  | .advance t _ => inferInstanceAs (Decidable (∀ th ∈ w.tasks t, _))
  | .start _ | .die _ | .acquire _ _ | .cleanStale _ | .removeForPid _ _ | .release _ _ =>
    isTrue trivial

/-! ### What one system call does to a lock -/

theorem setLock_some {fs : Files} (h : setLock s.fs pid fd o = some fs) :
    s.fs.Free pid fd ∧ fs = s.fs.lock pid fd := by
  cases o with
  | err e => cases h
  | ok | wrote n =>
    simp only [setLock] at h
    split at h
    · rename_i hfree
      exact ⟨hfree, (Option.some.inj h).symm⟩
    · cases h

/- An unlink that fails changes nothing. -/
theorem removeFile_failed (h : (removeFile s.fs o).2 = false) : (removeFile s.fs o).1 = s.fs := by
  cases o with
  | err e => rfl
  | ok | wrote n =>
    simp only [removeFile] at h ⊢
    split at h
    · cases h
    · rfl

/- A lock on the file of the name survives every call but an unlink, and a close of
that file by its own process. -/
theorem advance_owns (h : advance path s pid o pc = some (s', pc')) (hq : s.fs.Owns q i)
    (hunlink : pc.unlinks = true → (removeFile s.fs o).2 = false)
    (hclose : ∀ fd ∈ pc.closes, ¬ (pid = q ∧ fd = i)) : s'.fs.Owns q i := by
  have hclosed : ∀ fd, pc.closes = some fd → (s.fs.close pid fd).Owns q i :=
    fun fd hfd => close_owns (hclose fd hfd) hq
  have hremoved : pc.unlinks = true → (removeFile s.fs o).1.Owns q i :=
    fun hu => (removeFile_failed (hunlink hu)).symm ▸ hq
  cases pc with
  | acquireOpen env =>
    cases o <;> cases h
    · exact openOrCreate_owns [] hq
    · exact hq
    · exact openOrCreate_owns [] hq
  | acquireLock env fd | staleLock fd =>
    simp only [advance] at h
    split at h <;> cases h
    · rename_i fs hfs
      obtain ⟨hfree, rfl⟩ := setLock_some hfs
      exact lock_keeps hfree hq
    · exact hq
  | acquireTruncate env fd =>
    cases o <;> cases h
    · exact write_owns [] hq
    · exact hq
    · exact write_owns [] hq
  | acquireWrite env fd =>
    cases h
    exact write_owns _ hq
  | acquireRefused fd other | releaseClose fd | readClose r fd found | staleClose fd locked =>
    cases h
    exact hclosed fd rfl
  | releaseUnlink fd | staleUnlink other | removeUnlink target =>
    cases h
    exact hremoved rfl
  | readOpen r | staleOpen =>
    simp only [advance] at h
    split at h <;> cases h <;> exact hq
  | readPid r fd =>
    cases o <;> cases h <;> exact hq
  | acquireBlocked fd | staleExists | staleKill other | staleBlocked fd =>
    cases h
    exact hq
  | held fd | done e => cases h

theorem Reader.next_keeps (r : Reader) (found : Option ℕ) : (r.next found).keeps = none := by
  cases r with
  | cleanStale => cases found <;> rfl
  | removeForPid target =>
    simp only [Reader.next]
    split <;> rfl

/- A thread comes to keep a lock only by being granted it. -/
theorem advance_keeps (h : advance path s pid o pc = some (s', pc')) (hk : pc'.keeps = some i) :
    pc.keeps = some i ∨
      pc.asks = some i ∧ (setLock s.fs pid i o).isSome = true ∧ s'.fs = s.fs.lock pid i := by
  cases pc with
  | acquireLock env fd =>
    simp only [advance] at h
    split at h <;> cases h
    · rename_i fs hfs
      cases hk
      exact .inr ⟨rfl, by simp [hfs], (setLock_some hfs).2⟩
    · cases hk
  | acquireTruncate env fd =>
    cases o <;> cases h <;> exact .inl hk
  | acquireWrite env fd =>
    cases h
    exact .inl hk
  | acquireOpen env | readPid r fd =>
    cases o <;> cases h <;> cases hk
  | readOpen r =>
    simp only [advance] at h
    split at h <;> cases h
    · cases hk
    · rw [Reader.next_keeps] at hk
      cases hk
  | readClose r fd found =>
    cases h
    rw [Reader.next_keeps] at hk
    cases hk
  | staleLock fd | staleOpen =>
    simp only [advance] at h
    split at h <;> cases h <;> cases hk
  | staleExists | staleKill other | staleClose fd locked =>
    cases h
    split at hk <;> cases hk
  | acquireBlocked fd | acquireRefused fd other | releaseUnlink fd | releaseClose fd
  | staleBlocked fd | staleUnlink other | removeUnlink target =>
    cases h
    cases hk
  | held fd | done e => cases h

theorem advance_alive (h : advance path s pid o pc = some (s', pc')) : s'.alive = s.alive := by
  cases pc with
  | acquireOpen env | acquireTruncate env fd | readPid r fd =>
    cases o <;> cases h <;> rfl
  | acquireLock env fd | staleLock fd | readOpen r | staleOpen =>
    simp only [advance] at h
    split at h <;> cases h <;> rfl
  | acquireWrite env fd | acquireRefused fd other | releaseClose fd | readClose r fd found
  | staleClose fd locked | releaseUnlink fd | staleUnlink other | removeUnlink target
  | acquireBlocked fd | staleExists | staleKill other | staleBlocked fd =>
    cases h
    rfl
  | held fd | done e => cases h

/-! ### The invariant -/

/- Threads belong to live processes, and a thread that keeps a lock has it on the file
the name refers to. -/
structure Inv (w : World) : Prop where
  fresh : w.Fresh
  alive : ∀ t th, w.tasks t = some th → w.mem.alive th.pid = true
  owns : ∀ t th fd, w.tasks t = some th → th.pc.keeps = some fd → w.mem.fs.Owns th.pid fd

theorem init_inv (text : Option (List Char)) : Inv (init text) :=
  ⟨fun _ _ => rfl, fun _ _ h => (by cases h), fun _ _ _ h => (by cases h)⟩

theorem Inv.lt_next (hI : Inv w) (h : w.tasks t = some th) : t < w.next := by
  by_contra hle
  have hnone := hI.fresh t (by omega)
  rw [h] at hnone
  cases hnone

/- A new thread keeps nothing yet. -/
theorem begin_inv (hI : Inv w) (hpc : pc.keeps = none) (h : begin w pid pc = some w') : Inv w' := by
  unfold begin at h
  split at h <;> cases h
  rename_i hpid
  have hnew : ∀ t th, (w.spawn [⟨pid, pc⟩]).tasks t = some th →
      w.tasks t = some th ∨ th = ⟨pid, pc⟩ := by
    intro t th ht
    rcases Tasks.spawn_tasks ht with hold | ⟨n, -, hn⟩
    · exact .inl hold
    · exact .inr (List.mem_singleton.mp (List.mem_of_getElem? hn))
  refine ⟨Tasks.spawn_fresh _ _, ?_, ?_⟩
  · intro t th ht
    rcases hnew t th ht with hold | rfl
    · exact hI.alive t th hold
    · exact hpid
  · intro t th fd ht hk
    rcases hnew t th ht with hold | rfl
    · exact hI.owns t th fd hold hk
    · rw [hpc] at hk
      cases hk

theorem die_inv (hI : Inv w) :
    Inv { w with
      mem := ⟨w.mem.fs.exit pid, Function.update w.mem.alive pid false⟩
      tasks := survivors pid w.tasks } := by
  have hsurvive : ∀ t th, survivors pid w.tasks t = some th →
      w.tasks t = some th ∧ th.pid ≠ pid := by
    intro t th ht
    obtain ⟨hth, hne⟩ := Option.filter_eq_some_iff.mp ht
    exact ⟨hth, by simpa using hne⟩
  refine ⟨?_, ?_, ?_⟩
  · intro t ht
    show survivors pid w.tasks t = none
    simp only [survivors, hI.fresh t ht, Option.filter_none]
  · intro t th ht
    obtain ⟨hth, hne⟩ := hsurvive t th ht
    show Function.update w.mem.alive pid false th.pid = true
    rw [Function.update_of_ne hne]
    exact hI.alive t th hth
  · intro t th fd ht hk
    obtain ⟨hth, hne⟩ := hsurvive t th ht
    exact exit_owns hne.symm (hI.owns t th fd hth hk)

/- A process that asks for the release of its lock keeps it no longer. -/
theorem release_inv (hI : Inv w) {r : Releaser} (h : w.tasks t = some ⟨pid, .held fd⟩) :
    Inv (w.resume t ⟨w.mem, ⟨pid, r.first fd⟩, []⟩) := by
  have hcases : ∀ u th, (w.resume t ⟨w.mem, ⟨pid, r.first fd⟩, []⟩).tasks u = some th →
      th = ⟨pid, r.first fd⟩ ∨ w.tasks u = some th := by
    intro u th hu
    rcases Tasks.resume_tasks hu with ⟨-, rfl⟩ | ⟨-, hold⟩ | ⟨n, -, hn⟩
    · exact .inl rfl
    · exact .inr hold
    · cases hn
  refine ⟨Tasks.resume_fresh _ _ _, ?_, ?_⟩
  · intro u th hu
    rcases hcases u th hu with rfl | hold
    · exact hI.alive t ⟨pid, .held fd⟩ h
    · exact hI.alive u th hold
  · intro u th i hu hk
    rcases hcases u th hu with rfl | hold
    · cases r <;> cases hk
    · exact hI.owns u th i hold hk

theorem advance_inv (hI : Inv w) (hG : Careful w (.advance t o)) (ht : w.tasks t = some th)
    (h : advance path w.mem th.pid o th.pc = some (s', pc')) :
    Inv (w.resume t ⟨s', ⟨th.pid, pc'⟩, []⟩) := by
  obtain ⟨hlock, hunlink, hclose⟩ := hG th ht
  have halive := advance_alive h
  refine ⟨Tasks.resume_fresh _ _ _, ?_, ?_⟩
  · intro u th' hu
    show s'.alive th'.pid = true
    rw [halive]
    rcases Tasks.resume_tasks hu with ⟨-, rfl⟩ | ⟨-, hold⟩ | ⟨n, -, hn⟩
    · exact hI.alive t th ht
    · exact hI.alive u th' hold
    · cases hn
  · intro u th' i hu hk
    rcases Tasks.resume_tasks hu with ⟨-, rfl⟩ | ⟨hne, hold⟩ | ⟨n, -, hn⟩
    · rcases advance_keeps h hk with hkept | ⟨hasks, hgranted, hfs⟩
      · -- A thread that keeps a lock neither unlinks nor closes.
        have hpc : th.pc.unlinks = false ∧ th.pc.closes = none := by
          revert hkept
          cases th.pc <;> simp [Pc.keeps, Pc.unlinks, Pc.closes]
        exact advance_owns h (hI.owns t th i ht hkept) (by simp [hpc.1]) (by simp [hpc.2])
      · show s'.fs.Owns th.pid i
        rw [hfs]
        exact lock_owns (hlock i hasks hgranted)
    · have howns := hI.owns u th' i hold hk
      have hlt := hI.lt_next hold
      refine advance_owns h howns ?_ ?_
      · intro hu
        by_contra hrem
        exact hunlink hu (by simpa using hrem) i howns.link ⟨u, hlt, hne, th', hold, hk, trivial⟩
      · rintro fd hfd ⟨hpid, rfl⟩
        exact hclose fd hfd ⟨u, hlt, hne, th', hold, hk, hpid.symm⟩
    · cases hn

theorem step_inv (hI : Inv w) (hG : Careful w a) (h : step path w a = some w') : Inv w' := by
  cases a with
  | start pid =>
    simp only [step] at h
    split at h <;> cases h
    refine ⟨hI.fresh, ?_, hI.owns⟩
    intro t th ht
    show Function.update w.mem.alive pid true th.pid = true
    by_cases hp : th.pid = pid
    · rw [hp, Function.update_self]
    · rw [Function.update_of_ne hp]
      exact hI.alive t th ht
  | die pid =>
    simp only [step] at h
    split at h <;> cases h
    exact die_inv hI
  | acquire pid env | cleanStale pid => exact begin_inv hI rfl h
  | removeForPid pid target => cases target <;> exact begin_inv hI rfl h
  | release t r =>
    simp only [step] at h
    split at h <;> cases h
    rename_i pid fd ht
    exact release_inv hI ht
  | advance t o =>
    simp only [step] at h
    split at h
    · rename_i th ht
      obtain ⟨⟨s', pc'⟩, hadv, rfl⟩ := Option.map_eq_some_iff.mp h
      exact advance_inv hI hG ht hadv
    · cases h

/-! ### Exclusion -/

theorem careful_run_inv {text : Option (List Char)} {as : List Act}
    (hG : Runs.Along (step path) Careful (init text) as)
    (hrun : Runs.run (step path) (init text) as = some w) : Inv w :=
  Runs.run_inv_along Inv (fun _ _ _ hI hG h => step_inv hI hG h) (init_inv text) hG hrun

theorem Inv.holders_eq (hI : Inv w) {p q : ℕ} (hp : Holds w p) (hq : Holds w q) : p = q := by
  obtain ⟨-, t, i, ht⟩ := hp
  obtain ⟨-, u, j, hu⟩ := hq
  exact (owns_unique (hI.owns t _ i ht rfl) (hI.owns u _ j hu rfl)).1

/-- In a run without a step that breaks it, the lock is held by at most one process. -/
theorem exclusive_if_careful {text : Option (List Char)} {as : List Act}
    (hG : Runs.Along (step path) Careful (init text) as)
    (hrun : Runs.run (step path) (init text) as = some w) {p q : ℕ} (hp : Holds w p)
    (hq : Holds w q) : p = q :=
  (careful_run_inv hG hrun).holders_eq hp hq

/- `acquire_mcp_lock` by thread `t` of process `pid`, from its call to its return. -/
def acquires (pid t : ℕ) : List Act :=
  .acquire pid ⟨[], [], 0⟩ :: List.replicate 4 (.advance t .ok)

/- Process 1 dies with the lock; process 2 cleans up after it and takes the lock. -/
def takenOver : List Act :=
  [.start 1, .start 2] ++ acquires 1 0 ++ [.die 1, .cleanStale 2] ++
    List.replicate 4 (.advance 1 .ok) ++ [.advance 1 (.err ""), .advance 1 .ok] ++ acquires 2 2

theorem takenOver_careful :
    Runs.Along (step "db.imcp") Careful (init none) takenOver := by decide +kernel

theorem takenOver_held :
    ∃ w, Runs.run (step "db.imcp") (init none) takenOver = some w ∧ Holds w 2 := by
  have hrun : (Runs.run (step "db.imcp") (init none) takenOver).any (fun w =>
      decide (w.mem.alive 2 = true ∧ w.tasks 2 = some ⟨2, .held 2⟩)) = true := by
    decide +kernel
  obtain ⟨w, hw, hheld⟩ := (Option.any_eq_true _ _).mp hrun
  have hheld := of_decide_eq_true hheld
  exact ⟨w, hw, hheld.1, 2, 2, hheld.2⟩

theorem exclusive_taken_over :
    ∃ w, Runs.run (step "db.imcp") (init none) takenOver = some w ∧ Holds w 2 ∧
      ∀ q, Holds w q → q = 2 := by
  obtain ⟨w, hw, h2⟩ := takenOver_held
  exact ⟨w, hw, h2, fun q hq => exclusive_if_careful takenOver_careful hw hq h2⟩

/- Process 2 opens the lock file of process 1, which then releases it: the lock that
process 2 gets is on a file without a name, and process 3 makes a new one. -/
def lockedOrphan : List Act :=
  [.start 1, .start 2, .start 3] ++ acquires 1 0 ++
    [.acquire 2 ⟨[], [], 0⟩, .advance 1 .ok, .release 0 .releaseMcpLock, .advance 0 .ok,
      .advance 0 .ok] ++ List.replicate 3 (.advance 1 .ok) ++ acquires 3 2

/- Process 1 has read a dead pid when process 2 takes the lock on the file left behind;
then process 1 unlinks it. -/
def unlinkedHeld : List Act :=
  [.start 1, .start 2, .start 3, .cleanStale 1] ++ List.replicate 4 (.advance 0 .ok) ++
    [.advance 0 (.err "")] ++ acquires 2 1 ++ [.advance 0 .ok] ++ acquires 3 2

theorem lockedOrphan_held :
    ∃ w, Runs.run (step "db.imcp") (init none) lockedOrphan = some w ∧ Holds w 2 ∧ Holds w 3 := by
  have hrun : (Runs.run (step "db.imcp") (init none) lockedOrphan).any (fun w =>
      decide (w.mem.alive 2 = true ∧ w.mem.alive 3 = true ∧ w.tasks 1 = some ⟨2, .held 1⟩ ∧
        w.tasks 2 = some ⟨3, .held 2⟩)) = true := by
    decide +kernel
  obtain ⟨w, hw, hheld⟩ := (Option.any_eq_true _ _).mp hrun
  have hheld := of_decide_eq_true hheld
  exact ⟨w, hw, ⟨hheld.1, 1, 1, hheld.2.2.1⟩, hheld.2.1, 2, 2, hheld.2.2.2⟩

theorem two_holders :
    (∃ w, Runs.run (step "db.imcp") (init none) lockedOrphan = some w ∧ Holds w 2 ∧ Holds w 3) ∧
    ∃ w, Runs.run (step "db.imcp") (init (some (info 9 ⟨[], [], 0⟩))) unlinkedHeld = some w ∧
      Holds w 2 ∧ Holds w 3 := by
  have hunlinked : (Runs.run (step "db.imcp") (init (some (info 9 ⟨[], [], 0⟩)))
      unlinkedHeld).any (fun w =>
      decide (w.mem.alive 2 = true ∧ w.mem.alive 3 = true ∧ w.tasks 1 = some ⟨2, .held 0⟩ ∧
        w.tasks 2 = some ⟨3, .held 1⟩)) = true := by
    decide +kernel
  obtain ⟨v, hv, hheld⟩ := (Option.any_eq_true _ _).mp hunlinked
  have hheld := of_decide_eq_true hheld
  exact ⟨lockedOrphan_held, v, hv, ⟨hheld.1, 1, 0, hheld.2.2.1⟩, hheld.2.1, 2, 1, hheld.2.2.2⟩

end IdaHeadless.LockFile
