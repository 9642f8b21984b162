import IdaHeadless.RegistryIsolation.Snapshots
import Mathlib.Data.List.Nodup

/-!
# What a reaper leaves

A reaper whose calls all succeed and that nobody disturbs ends, and leaves the keys whose owners
run and those that are not named like snapshots, in their order. The index stays where it is after
a deletion, so no key is passed over.
-/

namespace IdaHeadless.RegistryIsolation

open Runs Tasks

variable {U : Uuids} {keys kept rest : List Key} {key : Key} {name : Name} {tree : Tree}
  {r r' : Registry} {w w' : World} {t u pid : ℕ} {pc pc' : Pc} {o : Outcome} {p : Process}

/-! ### One name, one key -/

def Registry.Distinct (r : Registry) : Prop := (r.keys.map Key.name).Nodup

theorem Effect.distinct {held : Option (Name × Tree)} (h : Effect U pid r pc r' held)
    (hnamed : r.Named) (hr : r.Distinct) : r'.Distinct := by
  have hset : ∀ name tree, (r.setTree name tree).Distinct := by
    intro name tree
    rw [Registry.Distinct, Registry.setTree, names_setTree]
    exact hr
  have hremove : ∀ name, (r.removeKey name).Distinct :=
    fun name => List.Nodup.sublist (List.filter_sublist.map _) hr
  cases h with
  | quiet => exact hr
  | kept => exact hr
  | reaped name tree _ => exact hset name tree
  | removed name _ => exact hremove name
  | put name _ tree _ => exact hset name tree
  | left name _ tree _ => exact hset name tree
  | dropped name _ _ => exact hremove name
  | created place id _ hfresh =>
    have hnew : snapshotName U pid id ∉ r.keys.map Key.name := fun hmem => hfresh (hnamed _ hmem)
    have hsplit : r.keys.map Key.name =
        (r.keys.take place).map Key.name ++ (r.keys.drop place).map Key.name := by
      rw [← List.map_append, List.take_append_drop]
    rw [Registry.Distinct, Registry.createKey, List.map_append, List.map_cons,
      List.nodup_middle, ← hsplit]
    exact List.nodup_cons.mpr ⟨hnew, hr⟩

theorem step_distinct {a : Act} (hI : Inv U w) (hr : w.mem.Distinct)
    (h : step U w a = some w') : w'.mem.Distinct := by
  rcases step_cases h with ⟨pid, -, -, rfl⟩ | ⟨t, rfl⟩ | ⟨t, p, r', pc', -, rfl, heff, -, -⟩
  · exact hr
  · exact hr
  · exact heff.distinct hI.named hr

theorem removeKey_middle (h : ((kept ++ key :: rest).map Key.name).Nodup) :
    removeKey (setTree (kept ++ key :: rest) key.name tree) key.name = kept ++ rest := by
  rw [List.map_append, List.map_cons, List.nodup_middle, List.nodup_cons] at h
  have hother : ∀ other ∈ kept ++ rest, other.name ≠ key.name := by
    intro other hmem heq
    apply h.1
    rw [← List.map_append, ← heq]
    exact List.mem_map_of_mem hmem
  have hkeep : ∀ l : List Key, (∀ other ∈ l, other.name ≠ key.name) →
      removeKey (setTree l key.name tree) key.name = l := by
    intro l hl
    induction l with
    | nil => rfl
    | cons other l ih =>
      have hne := hl other List.mem_cons_self
      have htail := ih fun x hx => hl x (List.mem_cons_of_mem _ hx)
      simp only [removeKey, setTree, List.map_cons, if_neg hne] at htail ⊢
      rw [List.filter_cons_of_pos (by simpa using hne), htail]
  have hleft := hkeep kept fun other hmem => hother other (List.mem_append_left _ hmem)
  have hright := hkeep rest fun other hmem => hother other (List.mem_append_right _ hmem)
  simp only [removeKey, setTree] at hleft hright ⊢
  rw [List.map_append, List.map_cons, List.filter_append, List.filter_cons_of_neg (by simp),
    hleft, hright]

/-! ### A reaper alone -/

/-- No call fails, and it can be told who has ended. -/
def expected (runs : ℕ → Bool) : Pc → Outcome
  | .checkOwner _ _ owner => if runs owner then .ok else .hasEnded
  | _ => .ok

def Alone (t : ℕ) (w : World) (a : Act) : Prop :=
  ∃ p, w.tasks t = some p ∧ a = .advance t (expected (runs w) p.pc)

/-- A snapshot of a process that has ended. -/
def stale (U : Uuids) (runs : ℕ → Bool) (key : Key) : Bool :=
  match snapshotOwner U key.name with
  | .process owner => !runs owner
  | .unknown => false

/-- What process `t` has changed after calls of its own. -/
structure Went (U : Uuids) (t : ℕ) (w : World) (p : Process) (r : Registry) (w' : World) :
    Prop where
  inv : Inv U w'
  self : w'.tasks t = some p
  mem : w'.mem = r
  others : ∀ u, u ≠ t → w'.tasks u = w.tasks u
  runs : RegistryIsolation.runs w' = RegistryIsolation.runs w

theorem runs_resume (hI : Inv U w) (ht : w.tasks t = some p) :
    runs (w.resume t ⟨r', ⟨p.pid, pc'⟩, []⟩) = runs w := by
  have hlt := hI.lt_next ht
  funext q
  have hsame : ∀ u < w.next, ((w.resume t ⟨r', ⟨p.pid, pc'⟩, []⟩).tasks u).any (·.pid == q) =
      (w.tasks u).any (·.pid == q) := by
    intro u hu
    by_cases hut : u = t
    · rw [hut, resume_self _ hlt, ht]
      rfl
    · rw [resume_other _ hu hut]
  rw [Bool.eq_iff_iff]
  simp only [runs, List.any_eq_true, List.mem_range]
  constructor
  · rintro ⟨u, hu, hq⟩
    exact ⟨u, hu, by rw [← hsame u hu]; exact hq⟩
  · rintro ⟨u, hu, hq⟩
    exact ⟨u, hu, by rw [hsame u hu]; exact hq⟩

theorem went_advance (r' : Registry) (pc' : Pc) (hI : Inv U w)
    (ht : w.tasks t = some ⟨pid, pc⟩)
    (h : advance U (runs w) pid w.mem pc (expected (runs w) pc) = some (r', pc')) :
    ∃ a w', Alone t w a ∧ step U w a = some w' ∧ Went U t w ⟨pid, pc'⟩ r' w' := by
  have hstep : step U w (.advance t (expected (runs w) pc)) =
      some (w.resume t ⟨r', ⟨pid, pc'⟩, []⟩) := by
    simp only [step, ht, h, Option.map_some]
  refine ⟨_, _, ⟨⟨pid, pc⟩, ht, rfl⟩, hstep, step_inv hI hstep, ?_, rfl, ?_, ?_⟩
  · exact resume_self _ (hI.lt_next ht)
  · intro u hu
    by_cases hlt : u < w.next
    · exact resume_other _ hlt hu
    · rw [hI.fresh u (Nat.le_of_not_lt hlt)]
      exact resume_fresh _ _ _ u (Nat.le_of_not_lt hlt)
  · exact runs_resume hI ht

theorem Went.trans {w'' : World} {p' : Process} (h : Went U t w p r w')
    (h' : Went U t w' p' r' w'') : Went U t w p' r' w'' where
  inv := h'.inv
  self := h'.self
  mem := h'.mem
  others := fun u hu => (h'.others u hu).trans (h.others u hu)
  runs := h'.runs.trans h.runs

/-- Process `t` alone gets from `w` to `w'` by at most `n` calls. -/
def Gets (U : Uuids) (t n : ℕ) (w w' : World) : Prop :=
  ∃ as, Along (step U) (Alone t) w as ∧ run (step U) w as = some w' ∧ as.length ≤ n

theorem Gets.refl (w : World) : Gets U t 0 w w := ⟨[], trivial, rfl, Nat.le_refl 0⟩

theorem Gets.next {a : Act} {w'' : World} {n : ℕ} (ha : Alone t w a) (h : step U w a = some w')
    (hrest : Gets U t n w' w'') : Gets U t (n + 1) w w'' := by
  obtain ⟨as, halone, hrun, hlen⟩ := hrest
  refine ⟨a :: as, ⟨ha, ?_⟩, run_cons_iff.mpr ⟨w', h, hrun⟩, Nat.succ_le_succ hlen⟩
  intro v hv
  rw [h] at hv
  cases hv
  exact halone

theorem Gets.mono {m n : ℕ} (h : Gets U t m w w') (hmn : m ≤ n) : Gets U t n w w' := by
  obtain ⟨as, halone, hrun, hlen⟩ := h
  exact ⟨as, halone, hrun, hlen.trans hmn⟩

theorem Gets.trans {w'' : World} {m n : ℕ} (h : Gets U t m w w') (h' : Gets U t n w' w'') :
    Gets U t (m + n) w w'' := by
  obtain ⟨as, halone, hrun, hlen⟩ := h
  induction as generalizing w m with
  | nil =>
    cases hrun
    exact h'.mono (Nat.le_add_left n m)
  | cons a as ih =>
    obtain ⟨v, hstep, hrest⟩ := run_cons_iff.mp hrun
    have htail := ih (halone.2 v hstep) hrest (Nat.le_refl as.length)
    have hcount : as.length + n + 1 ≤ m + n := by
      rw [List.length_cons] at hlen
      omega
    exact (Gets.next halone.1 hstep htail).mono hcount

/- One call. -/
theorem gets_advance (r' : Registry) (pc' : Pc) (hI : Inv U w)
    (ht : w.tasks t = some ⟨pid, pc⟩)
    (h : advance U (runs w) pid w.mem pc (expected (runs w) pc) = some (r', pc')) :
    ∃ w', Gets U t 1 w w' ∧ Went U t w ⟨pid, pc'⟩ r' w' := by
  obtain ⟨a, w', ha, hstep, hwent⟩ := went_advance r' pc' hI ht h
  exact ⟨w', .next ha hstep (.refl w'), hwent⟩

/- Two calls at most for a key that stays. -/
theorem gets_past (hI : Inv U w) {i : ℕ} (ht : w.tasks t = some ⟨pid, .enumKey i⟩)
    (hkey : w.mem.keys[i]? = some key) (hfresh : stale U (runs w) key = false) :
    ∃ w', Gets U t 2 w w' ∧ Went U t w ⟨pid, .enumKey (i + 1)⟩ w.mem w' := by
  rw [stale] at hfresh
  cases howner : snapshotOwner U key.name with
  | unknown =>
    obtain ⟨w₁, hgets, hwent⟩ := gets_advance w.mem (.enumKey (i + 1)) hI ht
      (by simp only [expected, advance, hkey, howner])
    exact ⟨w₁, hgets.mono (by decide), hwent⟩
  | process owner =>
    have hlives : runs w owner = true := by simpa [howner] using hfresh
    obtain ⟨w₁, hgets, hwent⟩ := gets_advance w.mem (.checkOwner i key.name owner) hI ht
      (by simp only [expected, advance, hkey, howner])
    obtain ⟨w₂, hgets₂, hwent₂⟩ := gets_advance w.mem (.enumKey (i + 1)) hwent.inv hwent.self
      (by simp only [expected, hwent.runs, hlives, if_true, advance, hwent.mem])
    exact ⟨w₂, hgets.trans hgets₂, hwent.trans hwent₂⟩

/- Four calls for a key that goes; the next one has its index then. -/
theorem gets_reaped (hI : Inv U w) {i : ℕ} (ht : w.tasks t = some ⟨pid, .enumKey i⟩)
    (hkey : w.mem.keys[i]? = some key) (hstale : stale U (runs w) key = true) :
    ∃ w', Gets U t 4 w w' ∧
      Went U t w ⟨pid, .enumKey i⟩ ((w.mem.setTree key.name []).removeKey key.name) w' := by
  rw [stale] at hstale
  cases howner : snapshotOwner U key.name with
  | unknown => simp [howner] at hstale
  | process owner =>
    have hgone : runs w owner = false := by simpa [howner] using hstale
    obtain ⟨w₁, hgets₁, hwent₁⟩ := gets_advance w.mem (.checkOwner i key.name owner) hI ht
      (by simp only [expected, advance, hkey, howner])
    obtain ⟨w₂, hgets₂, hwent₂⟩ := gets_advance w.mem (.reapTree i key.name) hwent₁.inv
      hwent₁.self (by simp [expected, hwent₁.runs, hgone, advance, hwent₁.mem])
    obtain ⟨w₃, hgets₃, hwent₃⟩ := gets_advance (w.mem.setTree key.name [])
      (.reapKey i key.name) hwent₂.inv hwent₂.self
      (by simp only [expected, advance, hwent₂.mem])
    obtain ⟨w₄, hgets₄, hwent₄⟩ :=
      gets_advance ((w.mem.setTree key.name []).removeKey key.name) (.enumKey i) hwent₃.inv
        hwent₃.self (by simp only [expected, advance, hwent₃.mem])
    exact ⟨w₄, ((hgets₁.trans hgets₂).trans hgets₃).trans hgets₄,
      ((hwent₁.trans hwent₂).trans hwent₃).trans hwent₄⟩

/-- What a reaper makes of the keys from an index on. -/
def Leaves (U : Uuids) (t pid n : ℕ) (w : World) (keys : List Key) : Prop :=
  ∃ w', Gets U t n w w' ∧ Went U t w ⟨pid, .createKey⟩ ⟨keys, w.mem.names⟩ w'

theorem Leaves.after {m n : ℕ} (hgets : Gets U t m w w') (hwent : Went U t w p r' w')
    (hnames : r'.names = w.mem.names) (hrest : Leaves U t pid n w' keys) :
    Leaves U t pid (m + n) w keys := by
  obtain ⟨w'', hgets', hwent'⟩ := hrest
  refine ⟨w'', hgets.trans hgets', ?_⟩
  have hall := hwent.trans hwent'
  rw [hwent.mem, hnames] at hall
  exact hall

theorem Leaves.mono {m n : ℕ} (h : Leaves U t pid m w keys) (hmn : m ≤ n) :
    Leaves U t pid n w keys := by
  obtain ⟨w', hgets, hwent⟩ := h
  exact ⟨w', hgets.mono hmn, hwent⟩

/- The induction is on the keys that the reaper has not come to yet; `kept` are those before
its index. -/
theorem reap_from (hI : Inv U w) (hr : w.mem.Distinct) (hkeys : w.mem.keys = kept ++ rest)
    (ht : w.tasks t = some ⟨pid, .enumKey kept.length⟩) :
    Leaves U t pid (4 * rest.length + 1) w
      (kept ++ rest.filter fun key => !stale U (runs w) key) := by
  induction rest generalizing w kept with
  | nil =>
    have hnone : w.mem.keys[kept.length]? = none := by
      rw [hkeys, List.append_nil]
      exact List.getElem?_eq_none (Nat.le_refl _)
    obtain ⟨w₁, hgets, hwent⟩ := gets_advance w.mem .createKey hI ht
      (by simp only [expected, advance, hnone])
    refine ⟨w₁, hgets, ?_⟩
    rw [List.filter_nil, ← hkeys]
    exact hwent
  | cons key rest ih =>
    have hkey : w.mem.keys[kept.length]? = some key := by
      rw [hkeys, List.getElem?_append_right (Nat.le_refl _), Nat.sub_self]
      rfl
    cases hstale : stale U (runs w) key with
    | false =>
      obtain ⟨w₁, hgets, hwent⟩ := gets_past hI ht hkey hstale
      have hrest := @ih (kept ++ [key]) w₁ hwent.inv (by rw [hwent.mem]; exact hr)
        (by rw [hwent.mem, hkeys, List.append_assoc]; rfl)
        (by rw [hwent.self, List.length_append]; rfl)
      rw [hwent.runs, List.append_assoc] at hrest
      rw [List.filter_cons_of_pos (by simp [hstale])]
      exact (Leaves.after hgets hwent rfl hrest).mono (by rw [List.length_cons]; omega)
    | true =>
      obtain ⟨w₁, hgets, hwent⟩ := gets_reaped hI ht hkey hstale
      have hdistinct : ((kept ++ key :: rest).map Key.name).Nodup := by
        rw [← hkeys]
        exact hr
      have hremoved : w₁.mem.keys = kept ++ rest := by
        rw [hwent.mem]
        simp only [Registry.removeKey, Registry.setTree, hkeys, removeKey_middle hdistinct]
      have hleft : w₁.mem.Distinct := by
        rw [Registry.Distinct, hremoved]
        exact hdistinct.sublist (((List.sublist_cons_self key rest).append_left kept).map _)
      have hrest := @ih kept w₁ hwent.inv hleft hremoved hwent.self
      rw [hwent.runs] at hrest
      rw [List.filter_cons_of_neg (by simp [hstale])]
      exact (Leaves.after hgets hwent rfl hrest).mono (by rw [List.length_cons]; omega)

theorem run_distinct {as : List Act} (hdistinct : (keys.map Key.name).Nodup)
    (h : run (step U) (init keys) as = some w) : w.mem.Distinct := by
  have hkept : Inv U w ∧ w.mem.Distinct := by
    refine run_inv (fun v => Inv U v ∧ v.mem.Distinct) ?_ ⟨init_inv keys, hdistinct⟩ h
    rintro v a v' ⟨hI, hr⟩ hstep
    exact ⟨step_inv hI hstep, step_distinct hI hr hstep⟩
  exact hkept.2

/-- Wherever a run has come to, a process that begins to reap and is left alone is done after
at most four calls for each key and one more; of the keys it leaves those whose owners run and
those that are nobody's, and the other processes are where they were. -/
theorem reap_collects (U : Uuids) {keys : List Key} {as : List Act} {w : World} {t pid : ℕ}
    (hdistinct : (keys.map Key.name).Nodup) (h : run (step U) (init keys) as = some w)
    (ht : w.tasks t = some ⟨pid, .enumKey 0⟩) :
    ∃ bs w', Along (step U) (Alone t) w bs ∧ run (step U) w bs = some w' ∧
      bs.length ≤ 4 * w.mem.keys.length + 1 ∧ w'.tasks t = some ⟨pid, .createKey⟩ ∧
      w'.mem.keys = w.mem.keys.filter (fun key => !stale U (runs w) key) ∧
      ∀ u, u ≠ t → w'.tasks u = w.tasks u := by
  have hleaves := @reap_from U [] w.mem.keys w t pid (run_inv_init h)
    (run_distinct hdistinct h) rfl ht
  obtain ⟨w', ⟨bs, halone, hrun, hlen⟩, hwent⟩ := hleaves
  refine ⟨bs, w', halone, hrun, hlen, hwent.self, ?_, hwent.others⟩
  rw [hwent.mem, List.nil_append]

/- Two processes have left their snapshots around a key of the user. -/
def aroundUserKey : List Key :=
  [⟨snapshotOf 7 0x4f59315654254e8ca866b4db4df5972f, []⟩, userKey,
    ⟨snapshotOf 9 0x9c1d2e3f405142638495a6b7c8d9eaf0, ["settings"]⟩]

theorem reap_collects_two :
    ∃ w bs w', run (step hyphenatedUuids) (init aroundUserKey) [.start 5, .advance 0 .ok] =
        some w ∧
      Along (step hyphenatedUuids) (Alone 0) w bs ∧ run (step hyphenatedUuids) w bs = some w' ∧
      w'.mem.keys = [userKey] := by
  have hrun : (run (step hyphenatedUuids) (init aroundUserKey) [.start 5, .advance 0 .ok]).any
      (fun w => decide (w.tasks 0 = some ⟨5, .enumKey 0⟩ ∧
        w.mem.keys.filter (fun key => !stale hyphenatedUuids (runs w) key) = [userKey])) =
      true := by
    decide +kernel
  obtain ⟨w, hw, hreached⟩ := (Option.any_eq_true _ _).mp hrun
  obtain ⟨htask, hkeys⟩ := of_decide_eq_true hreached
  obtain ⟨bs, w', halone, hbs, -, -, hleft, -⟩ :=
    reap_collects hyphenatedUuids (by decide +kernel) hw htask
  exact ⟨w, bs, w', hw, halone, hbs, hleft.trans hkeys⟩

end IdaHeadless.RegistryIsolation
