import IdaHeadless.RegistryIsolation.Step

/-!
# Snapshots survive other processes

A reaper deletes a key by its name, some calls after it has seen that no process has the pid in
the name. A process that gets this pid in between makes a key with a name of its own, so the key
of a process that runs is never the one that is deleted. Keys whose names are not those of
snapshots stay as they are.
-/

namespace IdaHeadless.RegistryIsolation

open Runs Tasks

/-! ### Keys and trees -/

variable {U : Uuids} {keys : List Key} {name other : Name} {tree : Tree} {r r' : Registry}
  {pid : ℕ} {pc pc' : Pc} {o : Outcome}

theorem treeOf_setTree : treeOf (setTree keys name tree) other =
    if other = name then (treeOf keys name).map fun _ => tree else treeOf keys other := by
  induction keys with
  | nil => simp [treeOf, setTree]
  | cons key keys ih =>
    simp only [treeOf, setTree, List.map_cons, List.find?_cons] at ih ⊢
    by_cases hkey : key.name = name
    · by_cases hother : other = name
      · simp [hkey, hother]
      · have hne : ¬ name = other := fun h => hother h.symm
        simp only [hkey, hother, hne, if_true, if_false, decide_false] at ih ⊢
        exact ih
    · by_cases hhere : key.name = other
      · have hother : ¬ other = name := fun h => hkey (hhere.trans h)
        simp [hhere, hother]
      · simp only [hkey, hhere, if_false, decide_false] at ih ⊢
        exact ih

theorem treeOf_removeKey (h : other ≠ name) :
    treeOf (removeKey keys name) other = treeOf keys other := by
  rw [treeOf, treeOf, removeKey, List.find?_filter]
  congr 2
  funext key
  by_cases hkey : key.name = other
  · simp [hkey, h]
  · simp [hkey]

theorem treeOf_createKey_other {place : ℕ} (h : other ≠ name) :
    treeOf (r.createKey place name).keys other = treeOf r.keys other := by
  have hne : ¬ name = other := fun heq => h heq.symm
  conv_rhs => rw [← List.take_append_drop place r.keys]
  simp only [treeOf, Registry.createKey, List.find?_append, List.find?_cons, hne, decide_false]

theorem treeOf_eq_none : treeOf keys name = none ↔ name ∉ keys.map Key.name := by
  simp [treeOf, List.find?_eq_none]

theorem treeOf_createKey_self {place : ℕ} (h : name ∉ r.keys.map Key.name) :
    treeOf (r.createKey place name).keys name = some [] := by
  have htake : treeOf (r.keys.take place) name = none := by
    rw [treeOf_eq_none]
    intro hmem
    exact h (List.map_subset _ (List.take_subset _ _) hmem)
  rw [treeOf, Option.map_eq_none_iff] at htake
  simp [treeOf, Registry.createKey, htake]

theorem names_setTree : (setTree keys name tree).map Key.name = keys.map Key.name := by
  rw [setTree, List.map_map]
  apply List.map_congr_left
  intro key _
  simp only [Function.comp_apply]
  split <;> rfl

/-! ### What a call does -/

/-- The key of the process, and what it has put there. -/
def Pc.held : Pc → Option (Name × Tree)
  | .createIda name tree | .copyTree name tree | .overrideKey name tree | .isolated name tree
  | .restoreKey name tree | .dropTree name tree => some (name, tree)
  | .dropKey name => some (name, [])
  | _ => none

/-- The key that the process is about to delete for somebody else. -/
def Pc.target : Pc → Option Name
  | .reapTree _ name | .reapKey _ name => some name
  | _ => none

/-- The key whose owner the process is about to look for. -/
def Pc.seen : Pc → Option (Name × ℕ)
  | .checkOwner _ name owner => some (name, owner)
  | _ => none

/-- What a call may do to the keys, and what the process holds after it. -/
inductive Effect (U : Uuids) (pid : ℕ) (r : Registry) (pc : Pc) :
    Registry → Option (Name × Tree) → Prop where
  | quiet : Effect U pid r pc r none
  | kept : Effect U pid r pc r pc.held
  | reaped (name : Name) (tree : Tree) (h : pc.target = some name) :
    Effect U pid r pc (r.setTree name tree) none
  | removed (name : Name) (h : pc.target = some name) : Effect U pid r pc (r.removeKey name) none
  | put (name : Name) (old tree : Tree) (h : pc.held = some (name, old)) :
    Effect U pid r pc (r.setTree name tree) (some (name, tree))
  | left (name : Name) (old tree : Tree) (h : pc.held = some (name, old)) :
    Effect U pid r pc (r.setTree name tree) none
  | dropped (name : Name) (old : Tree) (h : pc.held = some (name, old)) :
    Effect U pid r pc (r.removeKey name) none
  | created (place id : ℕ) (hid : id < 2 ^ 128) (h : snapshotName U pid id ∉ r.names) :
    Effect U pid r pc (r.createKey place (snapshotName U pid id)) (some (snapshotName U pid id, []))

variable {runs : ℕ → Bool}

theorem advance_effect (h : advance U runs pid r pc o = some (r', pc')) :
    Effect U pid r pc r' pc'.held := by
  cases pc <;> cases o <;> simp only [advance, reduceCtorEq] at h
  case openRoot.ok | openRoot.failed | enumKey.failed | checkOwner.ok | reapKey.failed |
      createKey.failed | restoreKey.failed | dropKey.failed =>
    cases h
    exact .quiet
  case enumKey.ok =>
    split at h
    · cases h
      exact .quiet
    · split at h <;> cases h <;> exact .quiet
  case checkOwner.hasEnded =>
    split at h <;> cases h
    exact .quiet
  case reapTree.ok | reapTree.leftTree =>
    cases h
    exact .reaped _ _ rfl
  case reapKey.ok =>
    cases h
    exact .removed _ rfl
  case createKey.created place id =>
    split at h <;> cases h
    rename_i hfresh
    rw [Bool.or_eq_true, not_or, List.contains_iff_mem, decide_eq_true_eq, Nat.not_le] at hfresh
    exact .created place id hfresh.2 hfresh.1
  case createIda.ok | copyTree.copied | copyTree.leftTree | dropTree.ok =>
    cases h
    exact .put _ _ _ rfl
  case createIda.failed | copyTree.ok | overrideKey.ok | overrideKey.failed | restoreKey.ok =>
    cases h
    exact .kept
  case dropTree.leftTree =>
    cases h
    exact .left _ _ _ rfl
  case dropKey.ok =>
    cases h
    exact .dropped _ _ rfl

/- A reaper has looked for the owner of what it deletes. -/
theorem advance_target (h : advance U runs pid r pc o = some (r', pc'))
    (ht : pc'.target = some name) :
    pc.target = some name ∨ ∃ owner, pc.seen = some (name, owner) ∧ runs owner = false := by
  cases pc <;> cases o <;> simp only [advance, reduceCtorEq] at h
  case enumKey.ok =>
    split at h
    · cases h
      cases ht
    · split at h <;> cases h <;> cases ht
  case checkOwner.hasEnded index seen owner =>
    split at h <;> cases h
    rename_i hruns
    cases ht
    exact .inr ⟨owner, rfl, by simpa using hruns⟩
  case createKey.created =>
    split at h <;> cases h
    cases ht
  case reapTree.ok =>
    cases h
    exact .inl ht
  all_goals
    cases h
    cases ht

/- A reaper looks for the owners of keys that it has found. -/
theorem advance_seen (h : advance U runs pid r pc o = some (r', pc')) {owner : ℕ}
    (hs : pc'.seen = some (name, owner)) :
    name ∈ r.keys.map Key.name ∧ snapshotOwner U name = .process owner := by
  cases pc <;> cases o <;> simp only [advance, reduceCtorEq] at h
  case enumKey.ok =>
    split at h
    · cases h
      cases hs
    · rename_i key hkey
      split at h <;> cases h
      · rename_i hown
        cases hs
        exact ⟨List.mem_map_of_mem (List.mem_of_getElem? hkey), hown⟩
      · cases hs
  case checkOwner.hasEnded =>
    split at h <;> cases h
    cases hs
  case createKey.created =>
    split at h <;> cases h
    cases hs
  all_goals
    cases h
    cases hs

/-- Of the keys there were, a call changes that of the process, or the one it reaps. -/
theorem Effect.treeOf_other {held : Option (Name × Tree)} (h : Effect U pid r pc r' held)
    (hname : name ∈ r.names) (htarget : pc.target ≠ some name)
    (hheld : ∀ tree, pc.held ≠ some (name, tree)) : treeOf r'.keys name = treeOf r.keys name := by
  cases h with
  | quiet => rfl
  | kept => rfl
  | reaped other tree h =>
    have hne : name ≠ other := fun heq => htarget (heq ▸ h)
    simp only [Registry.setTree, treeOf_setTree, hne, if_false]
  | removed other h =>
    have hne : name ≠ other := fun heq => htarget (heq ▸ h)
    exact treeOf_removeKey hne
  | put other old tree h =>
    have hne : name ≠ other := fun heq => hheld old (heq ▸ h)
    simp only [Registry.setTree, treeOf_setTree, hne, if_false]
  | left other old tree h =>
    have hne : name ≠ other := fun heq => hheld old (heq ▸ h)
    simp only [Registry.setTree, treeOf_setTree, hne, if_false]
  | dropped other old h =>
    have hne : name ≠ other := fun heq => hheld old (heq ▸ h)
    exact treeOf_removeKey hne
  | created place id _ hfresh =>
    have hne : name ≠ snapshotName U pid id := fun heq => hfresh (heq ▸ hname)
    exact treeOf_createKey_other hne

theorem Effect.names_subset {held : Option (Name × Tree)} (h : Effect U pid r pc r' held) :
    r.names ⊆ r'.names := by
  cases h with
  | created place id _ hfresh => exact List.subset_cons_self _ _
  | _ => exact fun _ => id

/-- Names that keys have are among those that keys have ever had. -/
def Registry.Named (r : Registry) : Prop := ∀ name ∈ r.keys.map Key.name, name ∈ r.names

theorem Effect.named {held : Option (Name × Tree)} (h : Effect U pid r pc r' held)
    (hr : r.Named) : r'.Named := by
  have hset : ∀ name tree, (r.setTree name tree).Named := by
    intro name tree other hmem
    rw [Registry.setTree, names_setTree] at hmem
    exact hr other hmem
  have hremove : ∀ name, (r.removeKey name).Named := by
    intro name other hmem
    exact hr other (List.map_subset _ List.filter_sublist.subset hmem)
  cases h with
  | quiet => exact hr
  | kept => exact hr
  | reaped name tree _ => exact hset name tree
  | removed name _ => exact hremove name
  | put name _ tree _ => exact hset name tree
  | left name _ tree _ => exact hset name tree
  | dropped name _ _ => exact hremove name
  | created place id _ _ =>
    intro other hmem
    simp only [Registry.createKey, List.map_append, List.map_cons, List.mem_append,
      List.mem_cons] at hmem ⊢
    rcases hmem with hmem | rfl | hmem
    · exact .inr (hr other (List.map_subset _ (List.take_subset _ _) hmem))
    · exact .inl rfl
    · exact .inr (hr other (List.map_subset _ (List.drop_subset _ _) hmem))

/- A process holds the key it had, or a new one. -/
theorem Effect.held_from {held : Option (Name × Tree)} (h : Effect U pid r pc r' held)
    (hheld : held = some (name, tree)) :
    (∃ old, pc.held = some (name, old)) ∨ name ∉ r.names := by
  cases h with
  | quiet => cases hheld
  | kept => exact .inl ⟨tree, hheld⟩
  | reaped _ _ _ => cases hheld
  | removed _ _ => cases hheld
  | put _ old _ h =>
    cases hheld
    exact .inl ⟨old, h⟩
  | left _ _ _ _ => cases hheld
  | dropped _ _ _ => cases hheld
  | created place id _ hfresh =>
    cases hheld
    exact .inr hfresh

theorem Effect.held_self {held : Option (Name × Tree)} (h : Effect U pid r pc r' held)
    (hr : r.Named) (hpid : pid < 2 ^ 32)
    (hpc : ∀ name tree, pc.held = some (name, tree) →
      treeOf r.keys name = some tree ∧ snapshotOwner U name = .process pid)
    (hheld : held = some (name, tree)) :
    treeOf r'.keys name = some tree ∧ snapshotOwner U name = .process pid := by
  cases h with
  | quiet => cases hheld
  | kept => exact hpc name tree hheld
  | reaped _ _ _ => cases hheld
  | removed _ _ => cases hheld
  | put _ old _ h =>
    cases hheld
    obtain ⟨hsome, howner⟩ := hpc _ _ h
    refine ⟨?_, howner⟩
    rw [Registry.setTree, treeOf_setTree, if_pos rfl, hsome]
    rfl
  | left _ _ _ _ => cases hheld
  | dropped _ _ _ => cases hheld
  | created place id hid hfresh =>
    cases hheld
    exact ⟨treeOf_createKey_self fun hmem => hfresh (hr _ hmem),
      snapshotOwner_snapshotName U hpid hid⟩

/-! ### The invariant -/

variable {w w' : World} {t u : ℕ} {p q : Process} {a : Act}

structure Inv (U : Uuids) (w : World) : Prop where
  fresh : w.Fresh
  named : w.mem.Named
  pid_lt : ∀ t p, w.tasks t = some p → p.pid < 2 ^ 32
  apart : ∀ t u p q, w.tasks t = some p → w.tasks u = some q → p.pid = q.pid → t = u
  /- What a process has put into its key is there. -/
  held : ∀ t p name tree, w.tasks t = some p → p.pc.held = some (name, tree) →
    treeOf w.mem.keys name = some tree ∧ snapshotOwner U name = .process p.pid
  seen : ∀ t p name owner, w.tasks t = some p → p.pc.seen = some (name, owner) →
    name ∈ w.mem.names ∧ snapshotOwner U name = .process owner
  /- What is reaped belongs to no process that runs. -/
  target : ∀ t p name, w.tasks t = some p → p.pc.target = some name →
    name ∈ w.mem.names ∧ snapshotOwner U name ≠ .unknown ∧
      ∀ u q tree, w.tasks u = some q → q.pc.held ≠ some (name, tree)

theorem Inv.lt_next (hI : Inv U w) (h : w.tasks t = some p) : t < w.next := by
  by_contra hle
  have hnone := hI.fresh t (Nat.le_of_not_lt hle)
  rw [h] at hnone
  cases hnone

theorem runs_of_task (hI : Inv U w) (h : w.tasks t = some p) :
    RegistryIsolation.runs w p.pid = true := by
  rw [RegistryIsolation.runs, List.any_eq_true]
  exact ⟨t, List.mem_range.mpr (hI.lt_next h), by simp [h]⟩

theorem Inv.held_named (hI : Inv U w) (h : w.tasks t = some p)
    (hheld : p.pc.held = some (name, tree)) : name ∈ w.mem.names := by
  apply hI.named
  by_contra hnot
  have hsome := (hI.held t p name tree h hheld).1
  rw [treeOf_eq_none.mpr hnot] at hsome
  cases hsome

/- Two keys of processes that run have different names. -/
theorem Inv.held_apart (hI : Inv U w) {old : Tree} (ht : w.tasks t = some p)
    (hu : w.tasks u = some q) (hp : p.pc.held = some (name, tree))
    (hq : q.pc.held = some (name, old)) : t = u := by
  have howner := (hI.held t p name tree ht hp).2.symm.trans (hI.held u q name old hu hq).2
  exact hI.apart t u p q ht hu (by injection howner)

theorem init_inv (keys : List Key) : Inv U (init keys) where
  fresh := fun _ _ => rfl
  named := fun _ h => h
  pid_lt := fun _ _ h => by cases h
  apart := fun _ _ _ _ h => by cases h
  held := fun _ _ _ _ h => by cases h
  seen := fun _ _ _ _ h => by cases h
  target := fun _ _ _ h => by cases h

/- A task after a move is the one that moved, or an old one. -/
theorem moved_tasks {r' : Registry} (h : (w.resume t ⟨r', q, []⟩).tasks u = some p) :
    (u = t ∧ p = q) ∨ (u ≠ t ∧ w.tasks u = some p) := by
  rcases resume_tasks h with hself | hold | ⟨n, -, hn⟩
  · exact .inl hself
  · exact .inr hold
  · cases hn

theorem Inv.move (hI : Inv U w) (ht : w.tasks t = some p)
    (heff : Effect U p.pid w.mem p.pc r' pc'.held)
    (htarget : ∀ name, pc'.target = some name → p.pc.target = some name ∨
      ∃ owner, p.pc.seen = some (name, owner) ∧ RegistryIsolation.runs w owner = false)
    (hseen : ∀ name owner, pc'.seen = some (name, owner) →
      name ∈ w.mem.keys.map Key.name ∧ snapshotOwner U name = .process owner) :
    Inv U (w.resume t ⟨r', ⟨p.pid, pc'⟩, []⟩) where
  fresh := resume_fresh _ _ _
  named := heff.named hI.named
  pid_lt := by
    intro u q hu
    rcases moved_tasks hu with ⟨-, rfl⟩ | ⟨-, hold⟩
    · exact hI.pid_lt t p ht
    · exact hI.pid_lt u q hold
  apart := by
    intro u v q q' hu hv hpid
    rcases moved_tasks hu with ⟨rfl, rfl⟩ | ⟨hne, hold⟩
    · rcases moved_tasks hv with ⟨rfl, rfl⟩ | ⟨hne', hold'⟩
      · rfl
      · exact hI.apart u v p q' ht hold' hpid
    · rcases moved_tasks hv with ⟨rfl, rfl⟩ | ⟨hne', hold'⟩
      · exact hI.apart u v q p hold ht hpid
      · exact hI.apart u v q q' hold hold' hpid
  held := by
    intro u q name tree hu hheld
    rcases moved_tasks hu with ⟨rfl, rfl⟩ | ⟨hne, hold⟩
    · exact heff.held_self hI.named (hI.pid_lt u p ht) (fun n x => hI.held u p n x ht) hheld
    · obtain ⟨hsome, howner⟩ := hI.held u q name tree hold hheld
      refine ⟨?_, howner⟩
      rw [resume_mem, heff.treeOf_other (hI.held_named hold hheld), hsome]
      · intro hreap
        exact (hI.target t p name ht hreap).2.2 u q tree hold hheld
      · intro old hown
        exact hne (hI.held_apart hold ht hheld hown)
  seen := by
    intro u q name owner hu hs
    rcases moved_tasks hu with ⟨rfl, rfl⟩ | ⟨hne, hold⟩
    · obtain ⟨hkey, howner⟩ := hseen name owner hs
      exact ⟨heff.names_subset (hI.named name hkey), howner⟩
    · obtain ⟨hname, howner⟩ := hI.seen u q name owner hold hs
      exact ⟨heff.names_subset hname, howner⟩
  target := by
    intro u q name hu hq
    -- The key that was aimed at before is nobody's, and a new one has a new name.
    have hkeep : ∀ v q', w.tasks v = some q' → q'.pc.target = some name →
        name ∈ r'.names ∧ snapshotOwner U name ≠ .unknown ∧
          ∀ x z tree, (w.resume t ⟨r', ⟨p.pid, pc'⟩, []⟩).tasks x = some z →
            z.pc.held ≠ some (name, tree) := by
      intro v q' hv haim
      obtain ⟨hname, howner, hnobody⟩ := hI.target v q' name hv haim
      refine ⟨heff.names_subset hname, howner, ?_⟩
      intro x z tree hx hheld
      rcases moved_tasks hx with ⟨rfl, rfl⟩ | ⟨-, hold⟩
      · rcases heff.held_from hheld with ⟨old, hown⟩ | hnew
        · exact hnobody x p old ht hown
        · exact hnew hname
      · exact hnobody x z tree hold hheld
    rcases moved_tasks hu with ⟨rfl, rfl⟩ | ⟨-, hold⟩
    · rcases htarget name hq with haim | ⟨owner, hs, hgone⟩
      · exact hkeep u p ht haim
      · obtain ⟨hname, howner⟩ := hI.seen u p name owner ht hs
        refine ⟨heff.names_subset hname, by simp [howner], ?_⟩
        intro x z tree hx hheld
        -- Whoever had this key would run under the pid that no process has.
        have hrun : ∀ v q', w.tasks v = some q' → q'.pc.held ≠ some (name, tree) := by
          intro v q' hv hown
          have hsame := howner.symm.trans (hI.held v q' name tree hv hown).2
          have hruns := runs_of_task hI hv
          injection hsame with hpid
          rw [← hpid, hgone] at hruns
          cases hruns
        rcases moved_tasks hx with ⟨rfl, rfl⟩ | ⟨-, hold⟩
        · simp only at hheld hq
          exact absurd hheld (by revert hq; cases pc' <;> simp [Pc.target, Pc.held])
        · exact hrun x z hold hheld
    · exact hkeep u q hold hq

theorem Inv.start (hI : Inv U w) (hpid : pid < 2 ^ 32)
    (hfree : RegistryIsolation.runs w pid = false) :
    Inv U (w.spawn [⟨pid, .openRoot⟩]) := by
  have hcases : ∀ u q, (w.spawn [⟨pid, .openRoot⟩]).tasks u = some q →
      w.tasks u = some q ∨ u = w.next ∧ q = ⟨pid, .openRoot⟩ := by
    intro u q hu
    rcases spawn_tasks hu with hold | ⟨n, rfl, hn⟩
    · exact .inl hold
    · cases n with
      | zero => exact .inr ⟨rfl, (Option.some.inj hn).symm⟩
      | succ n => cases hn
  have hother : ∀ u q, w.tasks u = some q → q.pid ≠ pid := by
    intro u q hu heq
    have hruns := runs_of_task hI hu
    rw [heq, hfree] at hruns
    cases hruns
  refine ⟨spawn_fresh _ _, hI.named, ?_, ?_, ?_, ?_, ?_⟩
  · intro u q hu
    rcases hcases u q hu with hold | ⟨-, rfl⟩
    · exact hI.pid_lt u q hold
    · exact hpid
  · intro u v q q' hu hv hsame
    rcases hcases u q hu with hold | ⟨rfl, rfl⟩ <;>
      rcases hcases v q' hv with hold' | ⟨rfl, rfl⟩
    · exact hI.apart u v q q' hold hold' hsame
    · exact absurd hsame (hother u q hold)
    · exact absurd hsame.symm (hother v q' hold')
    · rfl
  · intro u q name tree hu hheld
    rcases hcases u q hu with hold | ⟨-, rfl⟩
    · exact hI.held u q name tree hold hheld
    · cases hheld
  · intro u q name owner hu hs
    rcases hcases u q hu with hold | ⟨-, rfl⟩
    · exact hI.seen u q name owner hold hs
    · cases hs
  · intro u q name hu haim
    rcases hcases u q hu with hold | ⟨-, rfl⟩
    · obtain ⟨hname, howner, hnobody⟩ := hI.target u q name hold haim
      refine ⟨hname, howner, ?_⟩
      intro v q' tree hv
      rcases hcases v q' hv with hold' | ⟨-, rfl⟩
      · exact hnobody v q' tree hold'
      · exact fun hheld => nomatch hheld
    · cases haim

theorem Inv.die (hI : Inv U w) : Inv U { w with tasks := Function.update w.tasks t none } := by
  have hcases : ∀ u q, Function.update w.tasks t none u = some q → w.tasks u = some q := by
    intro u q hu
    by_cases hut : u = t
    · rw [hut, Function.update_self] at hu
      cases hu
    · rwa [Function.update_of_ne hut] at hu
  refine ⟨?_, hI.named, ?_, ?_, ?_, ?_, ?_⟩
  · intro u hu
    by_cases hut : u = t
    · rw [hut]
      exact Function.update_self ..
    · exact (Function.update_of_ne hut _ _).trans (hI.fresh u hu)
  · exact fun u q hu => hI.pid_lt u q (hcases u q hu)
  · exact fun u v q q' hu hv => hI.apart u v q q' (hcases u q hu) (hcases v q' hv)
  · exact fun u q name tree hu => hI.held u q name tree (hcases u q hu)
  · exact fun u q name owner hu => hI.seen u q name owner (hcases u q hu)
  · intro u q name hu haim
    obtain ⟨hname, howner, hnobody⟩ := hI.target u q name (hcases u q hu) haim
    exact ⟨hname, howner, fun v q' tree hv => hnobody v q' tree (hcases v q' hv)⟩

/-! ### Runs -/

/-- What a step does: a call of a process, or nothing to the registry. -/
theorem step_cases (h : step U w a = some w') :
    (∃ pid, pid < 2 ^ 32 ∧ RegistryIsolation.runs w pid = false ∧
      w' = w.spawn [⟨pid, .openRoot⟩]) ∨
    (∃ t, w' = { w with tasks := Function.update w.tasks t none }) ∨
    ∃ t p r' pc', w.tasks t = some p ∧ w' = w.resume t ⟨r', ⟨p.pid, pc'⟩, []⟩ ∧
      Effect U p.pid w.mem p.pc r' pc'.held ∧
      (∀ name, pc'.target = some name → p.pc.target = some name ∨
        ∃ owner, p.pc.seen = some (name, owner) ∧ RegistryIsolation.runs w owner = false) ∧
      ∀ name owner, pc'.seen = some (name, owner) →
        name ∈ w.mem.keys.map Key.name ∧ snapshotOwner U name = .process owner := by
  cases a with
  | start pid =>
    simp only [step] at h
    split at h <;> cases h
    rename_i hstart
    exact .inl ⟨pid, hstart.1, hstart.2, rfl⟩
  | die t =>
    simp only [step] at h
    split at h <;> cases h
    exact .inr (.inl ⟨t, rfl⟩)
  | write t tree =>
    simp only [step] at h
    split at h <;> cases h
    rename_i pid name old ht
    exact .inr (.inr ⟨t, _, _, _, ht, rfl, .put name old tree rfl, (fun _ hn => nomatch hn),
      fun _ _ hn => nomatch hn⟩)
  | finish t =>
    simp only [step] at h
    split at h <;> cases h
    rename_i pid name tree ht
    exact .inr (.inr ⟨t, _, _, _, ht, rfl, .kept, (fun _ hn => nomatch hn),
      fun _ _ hn => nomatch hn⟩)
  | advance t o =>
    simp only [step] at h
    split at h
    · rename_i p ht
      obtain ⟨⟨r', pc'⟩, hadvance, rfl⟩ := Option.map_eq_some_iff.mp h
      exact .inr (.inr ⟨t, p, r', pc', ht, rfl, advance_effect hadvance,
        fun _ => advance_target hadvance, fun _ _ => advance_seen hadvance⟩)
    · cases h

theorem step_inv (hI : Inv U w) (h : step U w a = some w') : Inv U w' := by
  rcases step_cases h with ⟨pid, hpid, hfree, rfl⟩ | ⟨t, rfl⟩ |
    ⟨t, p, r', pc', ht, rfl, heff, htarget, hseen⟩
  · exact hI.start hpid hfree
  · exact hI.die
  · exact hI.move ht heff htarget hseen

/- A key that is not named like a snapshot is nobody's, and nobody reaps it. -/
theorem step_unknown (hI : Inv U w) (h : step U w a = some w') (hname : name ∈ w.mem.names)
    (howner : snapshotOwner U name = .unknown) :
    name ∈ w'.mem.names ∧ treeOf w'.mem.keys name = treeOf w.mem.keys name := by
  rcases step_cases h with ⟨pid, -, -, rfl⟩ | ⟨t, rfl⟩ | ⟨t, p, r', pc', ht, rfl, heff, -, -⟩
  · exact ⟨hname, rfl⟩
  · exact ⟨hname, rfl⟩
  · refine ⟨heff.names_subset hname, heff.treeOf_other hname ?_ ?_⟩
    · intro haim
      exact (hI.target t p name ht haim).2.1 howner
    · intro tree hheld
      have hown := (hI.held t p name tree ht hheld).2
      rw [howner] at hown
      cases hown

theorem run_inv_init {as : List Act} (h : run (step U) (init keys) as = some w) : Inv U w :=
  run_inv (Inv U) (fun _ _ _ => step_inv) (init_inv keys) h

theorem run_unknown {as : List Act} (h : run (step U) (init keys) as = some w)
    (hname : name ∈ keys.map Key.name) (howner : snapshotOwner U name = .unknown) :
    treeOf w.mem.keys name = treeOf keys name := by
  have hkept : Inv U w ∧ name ∈ w.mem.names ∧ treeOf w.mem.keys name = treeOf keys name := by
    refine run_inv
      (fun v => Inv U v ∧ name ∈ v.mem.names ∧ treeOf v.mem.keys name = treeOf keys name)
      ?_ ⟨init_inv keys, hname, rfl⟩ h
    rintro v a v' ⟨hI, hin, hsame⟩ hstep
    obtain ⟨hin', hsame'⟩ := step_unknown hI hstep hin howner
    exact ⟨step_inv hI hstep, hin', hsame'.trans hsame⟩
  exact hkept.2.2

/-- In every interleaving the snapshot of a process that runs holds what the process has put
there, no reaper is about to delete it and no other process has it; and what is not named like
a snapshot stays as it was. -/
theorem snapshots_survive (U : Uuids) {keys : List Key} {as : List Act} {w : World}
    (h : run (step U) (init keys) as = some w) :
    (∀ t p name tree, w.tasks t = some p → p.pc.held = some (name, tree) →
      treeOf w.mem.keys name = some tree ∧ snapshotOwner U name = .process p.pid ∧
        ∀ u q, w.tasks u = some q →
          q.pc.target ≠ some name ∧ ∀ other, q.pc.held = some (name, other) → u = t) ∧
    ∀ name ∈ keys.map Key.name, snapshotOwner U name = .unknown →
      treeOf w.mem.keys name = treeOf keys name := by
  have hI := run_inv_init h
  refine ⟨?_, fun name hname howner => run_unknown h hname howner⟩
  intro t p name tree ht hheld
  obtain ⟨hsome, howner⟩ := hI.held t p name tree ht hheld
  refine ⟨hsome, howner, ?_⟩
  intro u q hu
  constructor
  · intro haim
    exact (hI.target u q name hu haim).2.2 t p tree ht hheld
  · intro other hother
    exact hI.held_apart hu ht hother hheld

def userKey : Key := ⟨"legacy-or-user-created-key".toList, ["kept"]⟩

def snapshotOf (pid id : ℕ) : Name := snapshotName hyphenatedUuids pid id

/-- Process 7 has left a snapshot. -/
def leftBehind : List Key :=
  [userKey, ⟨snapshotOf 7 0x4f59315654254e8ca866b4db4df5972f, ["settings"]⟩]

/-- A reaper is about to delete it when another process gets the pid 7 and makes its own. -/
def reusedPid : List Act :=
  .start 5 :: List.replicate 3 (.advance 0 .ok) ++ [.advance 0 .hasEnded, .start 7] ++
    List.replicate 5 (.advance 1 .ok) ++
    [.advance 1 (.created 1 0x9c1d2e3f405142638495a6b7c8d9eaf0), .advance 1 .ok,
      .advance 0 .ok, .advance 0 .ok]

theorem snapshots_survive_reused_pid :
    ∃ w, run (step hyphenatedUuids) (init leftBehind) reusedPid = some w ∧
      treeOf w.mem.keys (snapshotOf 7 0x9c1d2e3f405142638495a6b7c8d9eaf0) =
        some [idaRegistryPath] ∧
      treeOf w.mem.keys (snapshotOf 7 0x4f59315654254e8ca866b4db4df5972f) = none ∧
      treeOf w.mem.keys userKey.name = some ["kept"] := by
  have hrun : (run (step hyphenatedUuids) (init leftBehind) reusedPid).any (fun w =>
      decide (w.tasks 1 = some ⟨7, .copyTree (snapshotOf 7 0x9c1d2e3f405142638495a6b7c8d9eaf0)
          [idaRegistryPath]⟩ ∧
        treeOf w.mem.keys (snapshotOf 7 0x4f59315654254e8ca866b4db4df5972f) = none)) = true := by
    decide +kernel
  obtain ⟨w, hw, hreached⟩ := (Option.any_eq_true _ _).mp hrun
  obtain ⟨htask, hreaped⟩ := of_decide_eq_true hreached
  obtain ⟨hheld, hunknown⟩ := snapshots_survive hyphenatedUuids hw
  refine ⟨w, hw, (hheld 1 _ _ _ htask rfl).1, hreaped, ?_⟩
  exact (hunknown userKey.name (by decide) (by decide +kernel)).trans (by decide +kernel)

end IdaHeadless.RegistryIsolation
