import IdaHeadless.SessionManager.Step

/-!
# What the session manager keeps

The two maps are inverse to each other (`Global`), and each task knows something of
the memory at its await (`Good`). A task that holds the lifecycle lock of a session
is the only one to change the session or its entry in the maps; the one that holds
`open_lock` is the only one to add entries. `Rely` is what the other tasks leave
alone for a task because of this.
-/

namespace IdaHeadless.SessionManager

/- The session found under `path` is `m`, or has been removed since. -/
def Found (s : Mem) (path id : String) (m : SessionRef) : Prop :=
  s.idOf m = some id ∧ s.pathOf m = some path ∧
    (s.byId.lookup id = some m ∨ s.byId.lookup id = none) ∧
    (s.byPath.lookup path = some id ∨ s.byPath.lookup path = none)

/- What a task knows of the maps and of the age of a session. -/
def Fact (s : Mem) : Pc → Prop
  | .openSession _ (.lifecycle path id m) | .openSession _ (.current path id m) => Found s path id m
  | .openSession _ (.live path id m) | .openSession _ (.discard path id m)
  | .openSession _ (.touch path id m) => Found s path id m ∧ s.byId.lookup id = some m
  | .openSession _ (.discardClose path _ _) | .openSession _ (.claim path) =>
    s.byPath.lookup path = none
  | .openSession _ (.opening path id) | .openSession _ (.warming path id)
  | .openSession _ (.insert path id _) => s.byPath.lookup path = none ∧ s.byId.lookup id = none
  | .call _ _ (.lifecycle m) => s.sessions m ≠ none
  | .call database _ (.access m) | .call database _ (.worker m) => s.byId.lookup database = some m
  | .reap (.elapsed true m _) => ∃ se, s.sessions m = some se ∧ se.idleTtlSec ≠ 0
  | .reap (.remove m _) | .reap (.closing m _) =>
    ∃ se, s.sessions m = some se ∧ se.idleTtlSec ≠ 0 ∧ se.pastTtl s.now
  | _ => True

/- Task `t` has the lifecycle lock of `m`, on which `n` calls are registered. -/
def Holds (s : Mem) (t : TaskId) (m : SessionRef) (n : ℕ) : Prop :=
  ∃ se, s.sessions m = some se ∧ se.lifecycle = some t ∧ se.activeCalls = n

/- What task `t` knows while it waits at `pc`. -/
structure Good (s : Mem) (t : TaskId) (pc : Pc) : Prop where
  opens : pc.opens = true → s.openLock = some t
  locks : ∀ m, pc.locks = some m → Holds s t m (if pc.calls = some m then 1 else 0)
  fact : Fact s pc

/- What only grows: sessions stay and keep who they are, and a session that was taken
out of the maps does not come back. -/
structure Ages (s s' : Mem) : Prop where
  now : s.now ≤ s'.now
  session : ∀ m se, s.sessions m = some se → ∃ se', s'.sessions m = some se' ∧
    se'.sessionId = se.sessionId ∧ se'.canonicalPath = se.canonicalPath ∧
    se'.idleTtlSec = se.idleTtlSec
  gone : ∀ id m, s.sessions m ≠ none → s'.byId.lookup id = some m → s.byId.lookup id = some m

/- What the moves of others leave alone for task `u`. -/
structure Rely (u : TaskId) (s s' : Mem) : Prop extends Ages s s' where
  held : ∀ m se, s.sessions m = some se → se.lifecycle = some u → s'.sessions m = some se ∧
    ∀ id, s.byId.lookup id = some m → s'.byId.lookup id = some m
  opening : s.openLock = some u → s'.openLock = some u ∧
    (∀ id m, s'.byId.lookup id = some m → s.byId.lookup id = some m) ∧
    ∀ path id, s'.byPath.lookup path = some id → s.byPath.lookup path = some id

/- What holds of the memory between any two moves. -/
structure Global (s : Mem) : Prop where
  path_id : ∀ path id, s.byPath.lookup path = some id →
    ∃ m, s.byId.lookup id = some m ∧ s.pathOf m = some path
  id_path : ∀ id m, s.byId.lookup id = some m → s.idOf m = some id ∧
    ∃ path, s.pathOf m = some path ∧ s.byPath.lookup path = some id
  lt_next : ∀ m, s.sessions m ≠ none → m < s.next
  idle : ∀ m se, s.sessions m = some se → se.lifecycle = none → se.activeCalls = 0

/- The move of `t` from `s` to `s'` respects the others and keeps `Global`. -/
structure Keeps (t : TaskId) (s s' : Mem) : Prop where
  rely : ∀ u, u ≠ t → Rely u s s'
  ages : Ages s s'
  global : Global s'

variable {s s' s'' : Mem} {t u : TaskId} {m : SessionRef} {se se' : Session} {id path : String}
  {pc : Pc}

theorem Ages.refl (s : Mem) : Ages s s where
  now := le_rfl
  session _ se h := ⟨se, h, rfl, rfl, rfl⟩
  gone _ _ _ h := h

theorem Ages.trans (h₁ : Ages s s') (h₂ : Ages s' s'') : Ages s s'' where
  now := h₁.now.trans h₂.now
  session m se h := by
    obtain ⟨se', h', hid, hpath, httl⟩ := h₁.session m se h
    obtain ⟨se'', h'', hid', hpath', httl'⟩ := h₂.session m se' h'
    exact ⟨se'', h'', hid'.trans hid, hpath'.trans hpath, httl'.trans httl⟩
  gone id m hm h := by
    obtain ⟨se, hse⟩ := Option.ne_none_iff_exists'.mp hm
    obtain ⟨se', hse', -⟩ := h₁.session m se hse
    exact h₁.gone id m hm (h₂.gone id m (by rw [hse']; simp) h)

theorem Rely.refl (u : TaskId) (s : Mem) : Rely u s s where
  toAges := Ages.refl s
  held _ _ h _ := ⟨h, fun _ h => h⟩
  opening h := ⟨h, fun _ _ h => h, fun _ _ h => h⟩

theorem Rely.trans (h₁ : Rely u s s') (h₂ : Rely u s' s'') : Rely u s s'' where
  toAges := h₁.toAges.trans h₂.toAges
  held m se h hl := by
    obtain ⟨h', hid⟩ := h₁.held m se h hl
    obtain ⟨h'', hid'⟩ := h₂.held m se h' hl
    exact ⟨h'', fun id hi => hid' id (hid id hi)⟩
  opening h := by
    obtain ⟨ho, hi, hp⟩ := h₁.opening h
    obtain ⟨ho', hi', hp'⟩ := h₂.opening ho
    exact ⟨ho', fun id m h => hi id m (hi' id m h), fun path id h => hp path id (hp' path id h)⟩

theorem Keeps.refl (hG : Global s) : Keeps t s s :=
  ⟨fun u _ => Rely.refl u s, Ages.refl s, hG⟩

theorem Keeps.trans (h₁ : Keeps t s s') (h₂ : Keeps t s' s'') : Keeps t s s'' :=
  ⟨fun u hu => (h₁.rely u hu).trans (h₂.rely u hu), h₁.ages.trans h₂.ages, h₂.global⟩

theorem Ages.exists (ha : Ages s s') (h : s.sessions m ≠ none) : s'.sessions m ≠ none := by
  obtain ⟨se, hse⟩ := Option.ne_none_iff_exists'.mp h
  obtain ⟨se', hse', -⟩ := ha.session m se hse
  rw [hse']
  simp

theorem Ages.idOf (ha : Ages s s') (h : s.idOf m = some id) : s'.idOf m = some id := by
  obtain ⟨se, hse, rfl⟩ := Option.map_eq_some_iff.mp h
  obtain ⟨se', hse', hid, -⟩ := ha.session m se hse
  rw [Mem.idOf, hse', ← hid]
  rfl

theorem Ages.pathOf (ha : Ages s s') (h : s.pathOf m = some path) : s'.pathOf m = some path := by
  obtain ⟨se, hse, rfl⟩ := Option.map_eq_some_iff.mp h
  obtain ⟨se', hse', -, hpath, -⟩ := ha.session m se hse
  rw [Mem.pathOf, hse', ← hpath]
  rfl

theorem Global.registered (hG : Global s) (h : s.byId.lookup id = some m) :
    s.sessions m ≠ none := by
  intro hn
  have hid := (hG.id_path id m h).1
  rw [Mem.idOf, hn] at hid
  cases hid

theorem pastTtl_mono {now now' : ℕ} (hle : now ≤ now') (h : se.pastTtl now) : se.pastTtl now' := by
  unfold Session.pastTtl at h ⊢
  omega

/-! ### The assertions are stable -/

/- Entries that only go away. -/
theorem shrunk_cases {α : Type} {f f' : String → Option α} {key : String} {a : α}
    (hshrink : ∀ key a, f' key = some a → f key = some a) (h : f key = some a ∨ f key = none) :
    f' key = some a ∨ f' key = none := by
  cases hf : f' key with
  | none => exact .inr rfl
  | some b =>
    have hold := hshrink key b hf
    rcases h with h | h <;> rw [hold] at h <;> cases h
    exact .inl rfl

theorem shrunk_none {α : Type} {f f' : String → Option α} {key : String}
    (hshrink : ∀ key a, f' key = some a → f key = some a) (h : f key = none) : f' key = none := by
  cases hf : f' key with
  | none => rfl
  | some a =>
    rw [hshrink key a hf] at h
    cases h

theorem Found.stable (h : Found s path id m) (hopen : s.openLock = some u) (hr : Rely u s s') :
    Found s' path id m := by
  obtain ⟨hid, hpath, hcur, hreg⟩ := h
  obtain ⟨-, hids, hpaths⟩ := hr.opening hopen
  exact ⟨hr.toAges.idOf hid, hr.toAges.pathOf hpath, shrunk_cases hids hcur,
    shrunk_cases hpaths hreg⟩

theorem Holds.current {n : ℕ} (h : Holds s u m n) (hcur : s.byId.lookup id = some m)
    (hr : Rely u s s') : s'.byId.lookup id = some m := by
  obtain ⟨se, hse, hl, -⟩ := h
  exact (hr.held m se hse hl).2 id hcur

theorem Holds.stable {n : ℕ} (h : Holds s u m n) (hr : Rely u s s') : Holds s' u m n := by
  obtain ⟨se, hse, hl, hn⟩ := h
  exact ⟨se, (hr.held m se hse hl).1, hl, hn⟩

theorem Holds.aged {n : ℕ} (h : Holds s u m n)
    (hage : ∃ se, s.sessions m = some se ∧ se.idleTtlSec ≠ 0 ∧ se.pastTtl s.now)
    (hr : Rely u s s') : ∃ se, s'.sessions m = some se ∧ se.idleTtlSec ≠ 0 ∧ se.pastTtl s'.now := by
  obtain ⟨se, hse, hl, -⟩ := h
  obtain ⟨se', hse', httl, hpast⟩ := hage
  rw [hse] at hse'
  cases hse'
  exact ⟨se, (hr.held m se hse hl).1, httl, pastTtl_mono hr.now hpast⟩

theorem Good.stable (hg : Good s u pc) (hr : Rely u s s') : Good s' u pc where
  opens h := (hr.opening (hg.opens h)).1
  locks m h := (hg.locks m h).stable hr
  fact := by
    have hf := hg.fact
    cases pc with
    | openSession r stage =>
      cases stage with
      | lock | find => trivial
      | lifecycle path id m | current path id m => exact Found.stable hf (hg.opens rfl) hr
      | live path id m | discard path id m | touch path id m =>
        exact ⟨hf.1.stable (hg.opens rfl) hr, (hg.locks m rfl).current hf.2 hr⟩
      | discardClose path id m | claim path =>
        exact shrunk_none (hr.opening (hg.opens rfl)).2.2 hf
      | opening path id | warming path id | insert path id created =>
        obtain ⟨-, hids, hpaths⟩ := hr.opening (hg.opens rfl)
        exact ⟨shrunk_none hpaths hf.1, shrunk_none hids hf.2⟩
    | call database tool stage =>
      cases stage with
      | lifecycle m => exact hr.toAges.exists hf
      | access m | worker m => exact (hg.locks m rfl).current hf hr
      | _ => trivial
    | reap stage =>
      cases stage with
      | elapsed locked m rest =>
        cases locked with
        | true =>
          obtain ⟨se, hse, httl⟩ := hf
          obtain ⟨se', hse', -, -, heq⟩ := hr.session m se hse
          exact ⟨se', hse', by rw [heq]; exact httl⟩
        | false => trivial
      | remove m rest | closing m rest => exact (hg.locks m rfl).aged hf hr
      | _ => trivial
    | _ => trivial

/-! ### Writes -/

theorem sessions_set_self : (s.set m se).sessions m = some se := Function.update_self ..

theorem sessions_set_other {k : SessionRef} (h : k ≠ m) :
    (s.set m se).sessions k = s.sessions k := Function.update_of_ne h ..

theorem idOf_set {k : SessionRef} (hse : s.sessions m = some se)
    (h : se'.sessionId = se.sessionId) :
    (s.set m se').idOf k = s.idOf k := by
  by_cases hk : k = m
  · rw [hk, Mem.idOf, Mem.idOf, sessions_set_self, hse, Option.map_some, Option.map_some, h]
  · rw [Mem.idOf, Mem.idOf, sessions_set_other hk]

theorem pathOf_set {k : SessionRef} (hse : s.sessions m = some se)
    (h : se'.canonicalPath = se.canonicalPath) : (s.set m se').pathOf k = s.pathOf k := by
  by_cases hk : k = m
  · rw [hk, Mem.pathOf, Mem.pathOf, sessions_set_self, hse, Option.map_some, Option.map_some, h]
  · rw [Mem.pathOf, Mem.pathOf, sessions_set_other hk]

/- `se'` is the same session as `se`. -/
def Same (se se' : Session) : Prop :=
  se'.sessionId = se.sessionId ∧ se'.canonicalPath = se.canonicalPath ∧
    se'.idleTtlSec = se.idleTtlSec

/- A write to a session under its lifecycle lock, or by whoever takes the lock. -/
theorem set_keeps (hG : Global s) (hse : s.sessions m = some se)
    (hl : se.lifecycle = none ∨ se.lifecycle = some t) (hsame : Same se se')
    (hidle : se'.lifecycle = none → se'.activeCalls = 0) : Keeps t s (s.set m se') := by
  obtain ⟨hid, hpath, httl⟩ := hsame
  have hages : Ages s (s.set m se') := by
    refine ⟨le_rfl, fun k sk hk => ?_, fun _ _ _ h => h⟩
    by_cases hkm : k = m
    · subst hkm
      rw [hse] at hk
      cases hk
      exact ⟨se', sessions_set_self, hid, hpath, httl⟩
    · exact ⟨sk, by rw [sessions_set_other hkm]; exact hk, rfl, rfl, rfl⟩
  refine ⟨fun u hu => ⟨hages, fun k sk hk hlk => ⟨?_, fun _ h => h⟩, fun h => ⟨h, fun _ _ h => h,
    fun _ _ h => h⟩⟩, hages, ?_⟩
  · have hkm : k ≠ m := by
      intro he
      rw [he, hse] at hk
      cases hk
      rcases hl with hl | hl <;> rw [hl] at hlk <;> cases hlk
      exact hu rfl
    rw [sessions_set_other hkm]
    exact hk
  · refine ⟨fun p i h => ?_, fun i k h => ?_, fun k hk => ?_, fun k sk hk hlk => ?_⟩
    · obtain ⟨k, hk, hp⟩ := hG.path_id p i h
      exact ⟨k, hk, by rw [pathOf_set hse hpath]; exact hp⟩
    · obtain ⟨hi, p, hp, hreg⟩ := hG.id_path i k h
      exact ⟨by rw [idOf_set hse hid]; exact hi, p, by rw [pathOf_set hse hpath]; exact hp, hreg⟩
    · by_cases hkm : k = m
      · exact hG.lt_next k (by rw [hkm, hse]; simp)
      · exact hG.lt_next k (by rw [sessions_set_other hkm] at hk; exact hk)
    · by_cases hkm : k = m
      · rw [hkm, sessions_set_self] at hk
        cases hk
        exact hidle hlk
      · rw [sessions_set_other hkm] at hk
        exact hG.idle k sk hk hlk

/- `open_lock` is taken or given back. -/
theorem openLock_keeps (hG : Global s) (l : Option TaskId)
    (ho : s.openLock = none ∨ s.openLock = some t) : Keeps t s { s with openLock := l } := by
  have hages : Ages s { s with openLock := l } :=
    ⟨le_rfl, fun _ se h => ⟨se, h, rfl, rfl, rfl⟩, fun _ _ _ h => h⟩
  refine ⟨fun u hu => ⟨hages, fun _ _ h _ => ⟨h, fun _ h => h⟩, fun h => ?_⟩, hages,
    ⟨hG.path_id, hG.id_path, hG.lt_next, hG.idle⟩⟩
  rcases ho with ho | ho <;> rw [ho] at h <;> cases h
  exact absurd rfl hu

/- The removals of `close` and of `remove_if_current` are the same: a session that is
current is also in the path map. -/
theorem removeCurrent_eq (hG : Global s) (hse : s.sessions m = some se)
    (hcur : s.byId.lookup id = some m) :
    s.removeCurrent id se.canonicalPath = s.removeClosed id se.canonicalPath := by
  obtain ⟨-, path, hpath, hreg⟩ := hG.id_path id m hcur
  rw [Mem.pathOf, hse] at hpath
  cases hpath
  unfold Mem.removeCurrent Mem.removeClosed
  rw [if_pos hreg]

theorem lookup_erase_some {α : Type} {map : AList fun _ : String => α} {key key' : String} {a : α}
    (h : (map.erase key).lookup key' = some a) : key' ≠ key ∧ map.lookup key' = some a := by
  have hne : key' ≠ key := by
    intro he
    rw [he, AList.lookup_erase] at h
    cases h
  rw [AList.lookup_erase_ne hne] at h
  exact ⟨hne, h⟩

/- A session is taken out of the maps under its lifecycle lock. -/
theorem removeClosed_keeps (hG : Global s) (hse : s.sessions m = some se)
    (hl : se.lifecycle = some t) (hcur : s.byId.lookup id = some m) :
    Keeps t s (s.removeClosed id se.canonicalPath) := by
  obtain ⟨-, path, hpath, hreg⟩ := hG.id_path id m hcur
  have hpm : s.pathOf m = some se.canonicalPath := by rw [Mem.pathOf, hse]; rfl
  rw [hpm] at hpath
  cases hpath
  have hages : Ages s (s.removeClosed id se.canonicalPath) :=
    ⟨le_rfl, fun _ sk h => ⟨sk, h, rfl, rfl, rfl⟩, fun _ _ _ h => (lookup_erase_some h).2⟩
  refine ⟨fun u hu => ⟨hages, fun k sk hk hlk => ⟨hk, fun i hi => ?_⟩,
    fun h => ⟨h, fun _ _ h => (lookup_erase_some h).2, fun _ _ h => (lookup_erase_some h).2⟩⟩,
    hages, ⟨fun p i h => ?_, fun i k h => ?_, hG.lt_next, hG.idle⟩⟩
  · have hne : i ≠ id := by
      intro he
      rw [he, hcur] at hi
      cases hi
      rw [hse] at hk
      cases hk
      rw [hl] at hlk
      cases hlk
      exact hu rfl
    exact (AList.lookup_erase_ne hne).trans hi
  · obtain ⟨hne, h⟩ := lookup_erase_some h
    obtain ⟨k, hk, hp⟩ := hG.path_id p i h
    have hid : i ≠ id := by
      intro he
      rw [he, hcur] at hk
      cases hk
      rw [hpm] at hp
      cases hp
      exact hne rfl
    exact ⟨k, (AList.lookup_erase_ne hid).trans hk, hp⟩
  · obtain ⟨hne, h⟩ := lookup_erase_some h
    obtain ⟨hi, p, hp, hpi⟩ := hG.id_path i k h
    have hpath : p ≠ se.canonicalPath := by
      intro he
      rw [he, hreg] at hpi
      cases hpi
      exact hne rfl
    exact ⟨hi, p, hp, (AList.lookup_erase_ne hpath).trans hpi⟩

/- The end of an `open`, whose path and id are free. -/
theorem register_keeps {ttl created : ℕ} (hG : Global s) (ho : s.openLock = some t)
    (hpath : s.byPath.lookup path = none) (hid : s.byId.lookup id = none) :
    Keeps t s (s.register path id ttl created) := by
  have hnew : ∀ k, s.sessions k ≠ none → k ≠ s.next := fun k hk he =>
    Nat.lt_irrefl _ (he ▸ hG.lt_next k hk)
  have hold : ∀ k, s.sessions k ≠ none →
      (s.register path id ttl created).sessions k = s.sessions k :=
    fun k hk => Function.update_of_ne (hnew k hk) ..
  have hself : (s.register path id ttl created).sessions s.next =
      some ⟨id, path, ttl, created, 0, none, none, []⟩ := Function.update_self ..
  have hids : ∀ i k, s.byId.lookup i = some k →
      (s.register path id ttl created).byId.lookup i = some k := by
    intro i k h
    have hne : i ≠ id := by
      intro he
      rw [he, hid] at h
      cases h
    exact (AList.lookup_insert_ne hne).trans h
  have hages : Ages s (s.register path id ttl created) := by
    refine ⟨le_rfl, fun k sk hk => ⟨sk, (hold k (by rw [hk]; simp)).trans hk, rfl, rfl, rfl⟩,
      fun i k hk h => ?_⟩
    by_cases hi : i = id
    · rw [hi, show (s.register path id ttl created).byId.lookup id = some s.next from
        AList.lookup_insert _] at h
      cases h
      exact absurd rfl (hnew _ hk)
    · exact (AList.lookup_insert_ne hi).symm.trans h
  have hexists : ∀ k p, s.pathOf k = some p → s.sessions k ≠ none := by
    intro k p hp hn
    rw [Mem.pathOf, hn] at hp
    cases hp
  refine ⟨fun u hu => ⟨hages, fun k sk hk hlk => ⟨(hold k (by rw [hk]; simp)).trans hk,
    fun i hi => hids i k hi⟩, fun h => ?_⟩, hages,
    ⟨fun p i h => ?_, fun i k h => ?_, fun k hk => ?_, fun k sk hk hlk => ?_⟩⟩
  · rw [ho] at h
    cases h
    exact absurd rfl hu
  · by_cases hp : p = path
    · subst hp
      rw [show (s.register p id ttl created).byPath.lookup p = some id from
        AList.lookup_insert _] at h
      cases h
      exact ⟨s.next, AList.lookup_insert _, by rw [Mem.pathOf, hself]; rfl⟩
    · have h' : s.byPath.lookup p = some i := (AList.lookup_insert_ne hp).symm.trans h
      obtain ⟨k, hk, hpk⟩ := hG.path_id p i h'
      exact ⟨k, hids i k hk, by rw [Mem.pathOf, hold k (hexists k p hpk)]; exact hpk⟩
  · by_cases hi : i = id
    · subst hi
      rw [show (s.register path i ttl created).byId.lookup i = some s.next from
        AList.lookup_insert _] at h
      cases h
      exact ⟨by rw [Mem.idOf, hself]; rfl, path, by rw [Mem.pathOf, hself]; rfl,
        AList.lookup_insert _⟩
    · have h' : s.byId.lookup i = some k := (AList.lookup_insert_ne hi).symm.trans h
      obtain ⟨hik, p, hp, hpi⟩ := hG.id_path i k h'
      have hne : p ≠ path := by
        intro he
        rw [he, hpath] at hpi
        cases hpi
      refine ⟨by rw [Mem.idOf, hold k (hexists k p hp)]; exact hik, p,
        by rw [Mem.pathOf, hold k (hexists k p hp)]; exact hp, ?_⟩
      exact (AList.lookup_insert_ne hne).trans hpi
  · by_cases hks : k = s.next
    · rw [hks]
      exact Nat.lt_succ_self _
    · rw [show (s.register path id ttl created).sessions k = s.sessions k from
        Function.update_of_ne hks ..] at hk
      exact Nat.lt_succ_of_lt (hG.lt_next k hk)
  · by_cases hks : k = s.next
    · rw [hks, hself] at hk
      cases hk
      rfl
    · rw [show (s.register path id ttl created).sessions k = s.sessions k from
        Function.update_of_ne hks ..] at hk
      exact hG.idle k sk hk hlk

end IdaHeadless.SessionManager
