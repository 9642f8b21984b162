import Mathlib.Data.List.Basic
import Mathlib.Data.List.Nodup
import Mathlib.Tactic.Common

/-!
# Breadth-first walks with a depth limit and a node limit

A walk takes the nodes out of a queue in the order in which they came in. A node below the depth
limit offers its successors, and what is new comes in while there is room. Nothing comes in after
a node was dropped for lack of room, so every depth is a shortest distance, also in a walk that
was cut.
-/

namespace IdaHeadless.BoundedWalk

variable {α : Type*} {succs : α → List α} {root : α} {maxDepth cap : ℕ}

/-- `y` is reached from the root by `k` edges. -/
def StepsTo (succs : α → List α) (root : α) : ℕ → α → Prop
  | 0, y => y = root
  | k + 1, y => ∃ x, StepsTo succs root k x ∧ y ∈ succs x

theorem StepsTo.mono {more : α → List α} (h : ∀ x, succs x ⊆ more x) {k : ℕ} {y : α}
    (hy : StepsTo succs root k y) : StepsTo more root k y := by
  induction k generalizing y with
  | zero => exact hy
  | succ k ih =>
    obtain ⟨x, hx, hxy⟩ := hy
    exact ⟨x, ih hx, h x hxy⟩

/-- A node stands with its depth, first in the queue and then among those that are done. -/
structure Walk (α : Type*) where
  done : List (α × ℕ)
  queue : List (α × ℕ)
  dropped : Bool

def Walk.start (root : α) : Walk α := ⟨[], [(root, 0)], false⟩

def Walk.nodes (w : Walk α) : List (α × ℕ) := w.done ++ w.queue

def Walk.seen (w : Walk α) : List α := w.nodes.map Prod.fst

theorem Walk.mem_seen {w : Walk α} {y : α} : y ∈ w.seen ↔ ∃ e, (y, e) ∈ w.nodes := by
  simp [Walk.seen]

theorem Walk.seen_push (w : Walk α) (y : α) (depth : ℕ) :
    Walk.seen { w with queue := w.queue ++ [(y, depth)] } = w.seen ++ [y] := by
  simp [Walk.seen, Walk.nodes]

/-! ### What a node adds -/

/-- The successors that came in stand at the end of the queue, and a missing one was dropped for
lack of room. -/
structure Offered (cap depth : ℕ) (ys : List α) (w w' : Walk α) (fresh : List α) : Prop where
  done_eq : w'.done = w.done
  queue_eq : w'.queue = w.queue ++ fresh.map fun y => (y, depth)
  nodup : fresh.Nodup
  mem : ∀ y ∈ fresh, y ∈ ys ∧ y ∉ w.seen
  room : fresh ≠ [] → w.nodes.length + fresh.length ≤ cap
  dropped_iff : w'.dropped = true ↔ w.dropped = true ∨ ∃ y ∈ ys, y ∉ w'.seen
  full : (∃ y ∈ ys, y ∉ w'.seen) → cap ≤ w'.nodes.length

theorem Offered.nodes_eq {depth : ℕ} {ys fresh : List α} {w w' : Walk α}
    (h : Offered cap depth ys w w' fresh) :
    w'.nodes = w.nodes ++ fresh.map fun y => (y, depth) := by
  rw [Walk.nodes, Walk.nodes, h.done_eq, h.queue_eq, List.append_assoc]

theorem Offered.seen_eq {depth : ℕ} {ys fresh : List α} {w w' : Walk α}
    (h : Offered cap depth ys w w' fresh) : w'.seen = w.seen ++ fresh := by
  rw [Walk.seen, h.nodes_eq, List.map_append, List.map_map, Walk.seen]
  simp [Function.comp_def]

/- One more successor, by what becomes of it. -/
section
variable {y : α} {depth : ℕ} {ys fresh : List α} {w w' : Walk α}

theorem Offered.skip (hseen : y ∈ w.seen) (h : Offered cap depth ys w w' fresh) :
    Offered cap depth (y :: ys) w w' fresh := by
  have hin : y ∈ w'.seen := by
    rw [h.seen_eq]
    exact List.mem_append_left _ hseen
  refine ⟨h.done_eq, h.queue_eq, h.nodup, ?_, h.room, ?_, ?_⟩
  · intro z hz
    exact ⟨List.mem_cons_of_mem y (h.mem z hz).1, (h.mem z hz).2⟩
  · rw [h.dropped_iff]
    simp [hin]
  · intro hmiss
    exact h.full (by simpa [hin] using hmiss)

theorem Offered.push (hseen : y ∉ w.seen) (hroom : w.nodes.length < cap)
    (h : Offered cap depth ys { w with queue := w.queue ++ [(y, depth)] } w' fresh) :
    Offered cap depth (y :: ys) w w' (y :: fresh) := by
  have hseen' := w.seen_push y depth
  have hlen : (Walk.nodes { w with queue := w.queue ++ [(y, depth)] }).length =
      w.nodes.length + 1 := by
    simp [Walk.nodes, Nat.add_assoc]
  have hmem := h.mem
  have hroom' := h.room
  have hqueue := h.queue_eq
  have hin : y ∈ w'.seen := by
    rw [h.seen_eq, hseen']
    simp
  rw [hseen'] at hmem
  rw [hlen] at hroom'
  refine ⟨h.done_eq, by simpa using hqueue, ?_, ?_, ?_, ?_, ?_⟩
  · refine List.nodup_cons.mpr ⟨fun hy => (hmem y hy).2 (by simp), h.nodup⟩
  · intro z hz
    rcases List.mem_cons.mp hz with rfl | hz
    · exact ⟨List.mem_cons_self, hseen⟩
    · exact ⟨List.mem_cons_of_mem y (hmem z hz).1,
        fun hz' => (hmem z hz).2 (List.mem_append_left _ hz')⟩
  · intro _
    rw [List.length_cons]
    cases fresh with
    | nil =>
      rw [List.length_nil]
      omega
    | cons z fresh =>
      have hle := hroom' (List.cons_ne_nil z fresh)
      rw [List.length_cons] at hle ⊢
      omega
  · rw [h.dropped_iff]
    simp [hin]
  · intro hmiss
    exact h.full (by simpa [hin] using hmiss)

/- Where there is no room for one there is none for those behind it. -/
theorem Offered.drop (hseen : y ∉ w.seen) (hroom : ¬ w.nodes.length < cap)
    (h : Offered cap depth ys { w with dropped := true } w' fresh) :
    Offered cap depth (y :: ys) w w' [] := by
  have hfresh : fresh = [] := by
    by_contra hne
    have hle : w.nodes.length + fresh.length ≤ cap := h.room hne
    have hpos := List.length_pos_of_ne_nil hne
    omega
  subst hfresh
  have hout : y ∉ w'.seen := by
    rw [h.seen_eq, List.append_nil]
    exact hseen
  refine ⟨h.done_eq, h.queue_eq, List.nodup_nil, by simp, fun hne => absurd rfl hne, ?_, ?_⟩
  · exact iff_of_true (h.dropped_iff.mpr (.inl rfl)) (.inr ⟨y, List.mem_cons_self, hout⟩)
  · intro _
    rw [h.nodes_eq, List.map_nil, List.append_nil]
    exact Nat.le_of_not_lt hroom

end

/-! ### What holds in every state of a walk -/

/-- The nodes stand in the order of their depths, each at its shortest distance. The successors
of what is done are there, unless one was dropped for lack of room. -/
structure Inv (succs : α → List α) (root : α) (maxDepth cap : ℕ) (w : Walk α) : Prop where
  root_mem : (root, 0) ∈ w.nodes
  nodup : w.seen.Nodup
  bound : w.nodes.length ≤ cap
  depth_le : ∀ p ∈ w.nodes, p.2 ≤ maxDepth
  sorted : w.nodes.Pairwise fun p q => p.2 ≤ q.2
  near : ∀ p ∈ w.nodes, ∀ q ∈ w.queue, p.2 ≤ q.2 + 1
  steps : ∀ p ∈ w.nodes, StepsTo succs root p.2 p.1
  shortest : ∀ p ∈ w.nodes, ∀ k, StepsTo succs root k p.1 → p.2 ≤ k
  closed : w.dropped = false → ∀ p ∈ w.done, p.2 < maxDepth → ∀ y ∈ succs p.1,
    ∃ e ≤ p.2 + 1, (y, e) ∈ w.nodes
  missing : w.dropped = true → w.nodes.length = cap ∧
    ∃ p ∈ w.done, p.2 < maxDepth ∧ ∃ y ∈ succs p.1, y ∉ w.seen

theorem Inv.start (hcap : 1 ≤ cap) : Inv succs root maxDepth cap (Walk.start root) where
  root_mem := by simp [Walk.start, Walk.nodes]
  nodup := by simp [Walk.start, Walk.seen, Walk.nodes]
  bound := by simpa [Walk.start, Walk.nodes] using hcap
  depth_le := by simp [Walk.start, Walk.nodes]
  sorted := by simp [Walk.start, Walk.nodes]
  near := by simp [Walk.start, Walk.nodes]
  steps := by simp [Walk.start, Walk.nodes, StepsTo]
  shortest := by simp [Walk.start, Walk.nodes]
  closed := by simp [Walk.start]
  missing := by simp [Walk.start]

/- Up to the depth of the queue everything is there. The relation may be smaller than the
walk's. -/
theorem Inv.reached {w : Walk α} (h : Inv succs root maxDepth cap w) (hdropped : w.dropped = false)
    {m : ℕ} (hqueue : ∀ q ∈ w.queue, m ≤ q.2) (hm : m ≤ maxDepth) {less : α → List α}
    (hless : ∀ p ∈ w.done, p.2 < maxDepth → less p.1 ⊆ succs p.1) {k : ℕ} {y : α} (hk : k ≤ m)
    (hy : StepsTo less root k y) : ∃ e ≤ k, (y, e) ∈ w.nodes := by
  induction k generalizing y with
  | zero =>
    cases hy
    exact ⟨0, Nat.le_refl 0, h.root_mem⟩
  | succ k ih =>
    obtain ⟨x, hx, hxy⟩ := hy
    obtain ⟨e, he, hmem⟩ := ih (Nat.le_of_succ_le hk) hx
    have hdone : (x, e) ∈ w.done := by
      rcases List.mem_append.mp hmem with hdone | hwait
      · exact hdone
      · have hle := hqueue (x, e) hwait
        simp only at hle
        omega
    have hlt : e < maxDepth := by omega
    obtain ⟨e', he', hmem'⟩ := h.closed hdropped (x, e) hdone hlt y (hless (x, e) hdone hlt hxy)
    simp only at he'
    exact ⟨e', by omega, hmem'⟩

/-- A walk that went to its end and dropped nothing has seen what there is within the depth. `all`
may have more successors than the walk, but not at a node that was expanded. -/
theorem Inv.within_iff {w : Walk α} (h : Inv succs root maxDepth cap w)
    (hdropped : w.dropped = false)
    (hend : w.queue = []) {all : α → List α} (hmore : ∀ x, succs x ⊆ all x)
    (hsame : ∀ p ∈ w.done, p.2 < maxDepth → all p.1 ⊆ succs p.1) (y : α) :
    y ∈ w.seen ↔ ∃ k ≤ maxDepth, StepsTo all root k y := by
  constructor
  · intro hy
    obtain ⟨e, he⟩ := Walk.mem_seen.mp hy
    exact ⟨e, h.depth_le (y, e) he, (h.steps (y, e) he).mono hmore⟩
  · rintro ⟨k, hk, hy⟩
    obtain ⟨e, -, he⟩ := h.reached hdropped (by simp [hend]) (Nat.le_refl maxDepth) hsame hk hy
    exact Walk.mem_seen.mpr ⟨e, he⟩

/- The nodes that were expanded, by their distance. -/
theorem Inv.expanded_iff {w : Walk α} (h : Inv succs root maxDepth cap w)
    (hdropped : w.dropped = false) (hend : w.queue = []) {all : α → List α}
    (hmore : ∀ x, succs x ⊆ all x)
    (hsame : ∀ p ∈ w.done, p.2 < maxDepth → all p.1 ⊆ succs p.1) (x : α) :
    x ∈ (w.done.filter (·.2 < maxDepth)).map Prod.fst ↔ ∃ k < maxDepth, StepsTo all root k x := by
  have hnodes : w.nodes = w.done := by rw [Walk.nodes, hend, List.append_nil]
  constructor
  · intro hx
    obtain ⟨p, hp, rfl⟩ := List.mem_map.mp hx
    obtain ⟨hdone, hlt⟩ := List.mem_filter.mp hp
    exact ⟨p.2, of_decide_eq_true hlt, (h.steps p (hnodes ▸ hdone)).mono hmore⟩
  · rintro ⟨k, hk, hx⟩
    obtain ⟨e, he, hmem⟩ := h.reached hdropped (by simp [hend]) (Nat.le_refl maxDepth) hsame
      (Nat.le_of_lt hk) hx
    refine List.mem_map.mpr ⟨(x, e), List.mem_filter.mpr ⟨hnodes ▸ hmem, ?_⟩, rfl⟩
    simp only [decide_eq_true_eq]
    omega

/- At the end a node is missing exactly where one was dropped. -/
theorem Inv.dropped_iff {w : Walk α} (h : Inv succs root maxDepth cap w) (hend : w.queue = []) :
    w.dropped = true ↔ ∃ p ∈ w.nodes, p.2 < maxDepth ∧ ∃ y ∈ succs p.1, y ∉ w.seen := by
  have hnodes : w.nodes = w.done := by rw [Walk.nodes, hend, List.append_nil]
  constructor
  · intro hdropped
    rw [hnodes]
    exact (h.missing hdropped).2
  · rintro ⟨p, hp, hlt, y, hy, hout⟩
    by_contra hdropped
    obtain ⟨e, -, he⟩ := h.closed (by simpa using hdropped) p (hnodes ▸ hp) hlt y hy
    exact hout (Walk.mem_seen.mpr ⟨e, he⟩)

theorem Inv.expanded_nodup {w : Walk α} (h : Inv succs root maxDepth cap w) :
    ((w.done.filter (·.2 < maxDepth)).map Prod.fst).Nodup := by
  have hnodup := h.nodup
  rw [Walk.seen, Walk.nodes, List.map_append] at hnodup
  exact (List.nodup_append.mp hnodup).1.sublist (List.filter_sublist.map Prod.fst)

section
variable {w w' : Walk α} (h : Inv succs root maxDepth cap w) {x : α} {d : ℕ}
  {rest : List (α × ℕ)} {fresh : List α} (hqueue : w.queue = (x, d) :: rest)
include hqueue

/- The nodes do not change when one of them is taken out of the queue. -/
theorem Walk.nodes_pop :
    Walk.nodes { w with done := w.done ++ [(x, d)], queue := rest } = w.nodes := by
  simp [Walk.nodes, hqueue]

theorem Walk.seen_pop :
    Walk.seen { w with done := w.done ++ [(x, d)], queue := rest } = w.seen := by
  rw [Walk.seen, w.nodes_pop hqueue, Walk.seen]

include h

theorem Inv.pop (hd : d ≥ maxDepth) :
    Inv succs root maxDepth cap { w with done := w.done ++ [(x, d)], queue := rest } := by
  have hnodes := w.nodes_pop hqueue
  have hseen := w.seen_pop hqueue
  constructor <;> simp only [hnodes, hseen]
  · exact h.root_mem
  · exact h.nodup
  · exact h.bound
  · exact h.depth_le
  · exact h.sorted
  · intro p hp q hq
    exact h.near p hp q (hqueue ▸ List.mem_cons_of_mem _ hq)
  · exact h.steps
  · exact h.shortest
  · intro hdropped p hp hlt
    rcases List.mem_append.mp hp with hp | hp
    · exact h.closed hdropped p hp hlt
    · cases List.mem_singleton.mp hp
      exact absurd hlt (Nat.not_lt.mpr hd)
  · intro hdropped
    obtain ⟨hfull, p, hp, hmiss⟩ := h.missing hdropped
    exact ⟨hfull, p, List.mem_append_left _ hp, hmiss⟩

/- The first node of the queue is the nearest there. -/
theorem Inv.front_le : ∀ q ∈ w.queue, d ≤ q.2 := by
  intro q hq
  have hsorted := (List.pairwise_append.mp h.sorted).2.1
  rw [hqueue] at hq hsorted
  rcases List.mem_cons.mp hq with rfl | hq
  · exact Nat.le_refl _
  · exact (List.pairwise_cons.mp hsorted).1 q hq

/- What is as near as the first node of the queue has been seen. -/
theorem Inv.unseen_far (hd : d < maxDepth) (hdropped : w.dropped = false) {y : α}
    (hy : y ∉ w.seen) {k : ℕ} (hk : StepsTo succs root k y) : d < k := by
  by_contra hnear
  obtain ⟨e, -, he⟩ := h.reached hdropped (h.front_le hqueue) (Nat.le_of_lt hd)
    (fun _ _ _ => List.Subset.refl _) (Nat.le_of_not_lt hnear) hk
  exact hy (Walk.mem_seen.mpr ⟨e, he⟩)

/- A new node is one edge further than the node that offered it, and there is no shorter way: what
is nearer was there before. -/
theorem Inv.expand (hd : d < maxDepth)
    (ho : Offered cap (d + 1) (succs x)
      { w with done := w.done ++ [(x, d)], queue := rest } w' fresh) :
    Inv succs root maxDepth cap w' := by
  have hseen : w'.seen = w.seen ++ fresh := by rw [ho.seen_eq, w.seen_pop hqueue]
  have hnodes : w'.nodes = w.nodes ++ fresh.map fun y => (y, d + 1) := by
    rw [ho.nodes_eq, w.nodes_pop hqueue]
  have hfront : (x, d) ∈ w.queue := hqueue ▸ List.mem_cons_self
  have hle : ∀ p ∈ w'.nodes, p.2 ≤ d + 1 := by
    intro p hp
    rw [hnodes] at hp
    rcases List.mem_append.mp hp with hp | hp
    · exact h.near p hp (x, d) hfront
    · obtain ⟨y, -, rfl⟩ := List.mem_map.mp hp
      exact Nat.le_refl _
  have hmem : ∀ y ∈ fresh, y ∈ succs x ∧ y ∉ w.seen := by
    intro y hy
    have hy := ho.mem y hy
    rwa [w.seen_pop hqueue] at hy
  have hroom : fresh ≠ [] → w.nodes.length + fresh.length ≤ cap := by
    have hroom := ho.room
    rwa [w.nodes_pop hqueue] at hroom
  have hlen : w'.nodes.length = w.nodes.length + fresh.length := by
    rw [hnodes, List.length_append, List.length_map]
  have hbound : w'.nodes.length ≤ cap := by
    cases fresh with
    | nil =>
      rw [hlen]
      exact h.bound
    | cons y fresh =>
      rw [hlen]
      exact hroom (List.cons_ne_nil y fresh)
  have hfull : w.dropped = true → fresh = [] := by
    intro hdropped
    by_contra hne
    have hcap := (h.missing hdropped).1
    have hle := hroom hne
    have hpos := List.length_pos_of_ne_nil hne
    omega
  refine ⟨?_, ?_, hbound, ?_, ?_, ?_, ?_, ?_, ?_, ?_⟩
  · rw [hnodes]
    exact List.mem_append_left _ h.root_mem
  · rw [hseen]
    refine List.nodup_append.mpr ⟨h.nodup, ho.nodup, ?_⟩
    rintro y hy z hz rfl
    exact (hmem y hz).2 hy
  · intro p hp
    have hp := hle p hp
    omega
  · rw [hnodes]
    refine List.pairwise_append.mpr ⟨h.sorted, ?_, ?_⟩
    · exact List.pairwise_map.mpr (List.pairwise_of_forall fun _ _ => Nat.le_refl _)
    · intro p hp q hq
      obtain ⟨y, -, rfl⟩ := List.mem_map.mp hq
      exact h.near p hp (x, d) hfront
  · intro p hp q hq
    have hp := hle p hp
    have hq : d ≤ q.2 := by
      rw [ho.queue_eq] at hq
      rcases List.mem_append.mp hq with hq | hq
      · exact h.front_le hqueue q (hqueue ▸ List.mem_cons_of_mem _ hq)
      · obtain ⟨y, -, rfl⟩ := List.mem_map.mp hq
        exact Nat.le_succ d
    omega
  · intro p hp
    rw [hnodes] at hp
    rcases List.mem_append.mp hp with hp | hp
    · exact h.steps p hp
    · obtain ⟨y, hy, rfl⟩ := List.mem_map.mp hp
      exact ⟨x, h.steps (x, d) (List.mem_append_right _ hfront), (hmem y hy).1⟩
  · intro p hp k hk
    rw [hnodes] at hp
    rcases List.mem_append.mp hp with hp | hp
    · exact h.shortest p hp k hk
    · obtain ⟨y, hy, rfl⟩ := List.mem_map.mp hp
      have hdropped : w.dropped = false := by
        by_contra hdropped
        rw [hfull (by simpa using hdropped)] at hy
        cases hy
      exact h.unseen_far hqueue hd hdropped (hmem y hy).2 hk
  · intro hdropped p hp hlt y hy
    have hnot : ¬ (w.dropped = true ∨ ∃ y ∈ succs x, y ∉ w'.seen) := by
      intro hor
      have htrue := ho.dropped_iff.mpr hor
      rw [hdropped] at htrue
      cases htrue
    rw [ho.done_eq] at hp
    rcases List.mem_append.mp hp with hp | hp
    · obtain ⟨e, he, hmem⟩ := h.closed (by simpa using fun h => hnot (.inl h)) p hp hlt y hy
      exact ⟨e, he, hnodes ▸ List.mem_append_left _ hmem⟩
    · cases List.mem_singleton.mp hp
      have hin : y ∈ w'.seen := by
        by_contra hout
        exact hnot (.inr ⟨y, hy, hout⟩)
      obtain ⟨e, he⟩ := Walk.mem_seen.mp hin
      exact ⟨e, hle (y, e) he, he⟩
  · intro hdropped
    rw [ho.done_eq]
    rcases ho.dropped_iff.mp hdropped with hbefore | ⟨y, hy, hout⟩
    · obtain ⟨hcap, p, hp, hlt, y, hy, hout⟩ := h.missing hbefore
      rw [hlen, hseen, hfull hbefore, List.append_nil]
      exact ⟨hcap, p, List.mem_append_left _ hp, hlt, y, hy, hout⟩
    · exact ⟨Nat.le_antisymm hbound (ho.full ⟨y, hy, hout⟩), (x, d), by simp, hd, y, hy, hout⟩

end

/-! ### The turns of the loop -/

variable [DecidableEq α]

def Walk.offer (cap depth : ℕ) (w : Walk α) (y : α) : Walk α :=
  if y ∈ w.seen then w
  else if w.nodes.length < cap then { w with queue := w.queue ++ [(y, depth)] }
  else { w with dropped := true }

/-- One turn of the loop. -/
def Walk.turn (succs : α → List α) (maxDepth cap : ℕ) (w : Walk α) : Walk α :=
  match w.queue with
  | [] => w
  | (x, d) :: rest =>
    let w := { w with done := w.done ++ [(x, d)], queue := rest }
    if d ≥ maxDepth then w else (succs x).foldl (Walk.offer cap (d + 1)) w

theorem offered_foldl (cap depth : ℕ) (ys : List α) (w : Walk α) :
    ∃ fresh, Offered cap depth ys w (ys.foldl (Walk.offer cap depth) w) fresh := by
  induction ys generalizing w with
  | nil =>
    exact ⟨[], rfl, by simp, List.nodup_nil, by simp, fun h => absurd rfl h, by simp, by simp⟩
  | cons y ys ih =>
    rw [List.foldl_cons, Walk.offer]
    by_cases hseen : y ∈ w.seen
    · rw [if_pos hseen]
      obtain ⟨fresh, h⟩ := ih w
      exact ⟨fresh, h.skip hseen⟩
    · rw [if_neg hseen]
      by_cases hroom : w.nodes.length < cap
      · rw [if_pos hroom]
        obtain ⟨fresh, h⟩ := ih { w with queue := w.queue ++ [(y, depth)] }
        exact ⟨y :: fresh, h.push hseen hroom⟩
      · rw [if_neg hroom]
        obtain ⟨fresh, h⟩ := ih { w with dropped := true }
        exact ⟨[], h.drop hseen hroom⟩

theorem Inv.turn {w : Walk α} (h : Inv succs root maxDepth cap w) :
    Inv succs root maxDepth cap (w.turn succs maxDepth cap) := by
  rw [Walk.turn]
  cases hqueue : w.queue with
  | nil => exact h
  | cons front rest =>
    obtain ⟨x, d⟩ := front
    simp only
    by_cases hd : d ≥ maxDepth
    · rw [if_pos hd]
      exact h.pop hqueue hd
    · rw [if_neg hd]
      obtain ⟨fresh, ho⟩ := offered_foldl cap (d + 1) (succs x)
        { w with done := w.done ++ [(x, d)], queue := rest }
      exact h.expand hqueue (Nat.lt_of_not_le hd) ho

theorem Walk.foldl_offer_done (w : Walk α) (depth : ℕ) (ys : List α) :
    (ys.foldl (Walk.offer cap depth) w).done = w.done := by
  obtain ⟨fresh, ho⟩ := offered_foldl cap depth ys w
  exact ho.done_eq

theorem Walk.turn_done {w : Walk α} (h : w.queue ≠ []) :
    (w.turn succs maxDepth cap).done.length = w.done.length + 1 := by
  rw [Walk.turn]
  cases hqueue : w.queue with
  | nil => exact absurd hqueue h
  | cons front rest =>
    obtain ⟨x, d⟩ := front
    simp only
    split
    · rw [List.length_append, List.length_singleton]
    · rw [Walk.foldl_offer_done, List.length_append, List.length_singleton]

/-! ### Offers that change nothing -/

/-- Offering `y` changes nothing: it is there, or it was dropped and there is still no room. -/
def Walk.Settled (cap : ℕ) (w : Walk α) (y : α) : Prop :=
  y ∈ w.seen ∨ w.dropped = true ∧ cap ≤ w.nodes.length

theorem Walk.Settled.offer {w : Walk α} {y : α} (h : w.Settled cap y) (depth : ℕ) (z : α) :
    (w.offer cap depth z).Settled cap y := by
  rw [Walk.offer]
  split
  · exact h
  · split
    · rcases h with hseen | ⟨-, hfull⟩
      · rw [Walk.Settled, Walk.seen_push]
        exact .inl (List.mem_append_left _ hseen)
      · omega
    · rcases h with hseen | ⟨-, hfull⟩
      · exact .inl hseen
      · exact .inr ⟨rfl, hfull⟩

variable {σ ρ : Type*} {body : σ → Option (σ ⊕ ρ)}

/-- A loop whose body goes on with a state or breaks with a result. -/
def loop (body : σ → Option (σ ⊕ ρ)) : ℕ → σ → Option ρ
  | 0, _ => none
  | fuel + 1, s =>
    (body s).bind fun next => next.elim (loop body fuel) some

/-- A loop that takes a turn of the walk each time ends, as each turn takes a node out of the queue
and no more than `cap` nodes come in. -/
theorem loop_ends (Rel : σ → Walk α → Prop) (Post : ρ → Walk α → Prop)
    (hbody : ∀ s w, Inv succs root maxDepth cap w → Rel s w →
      (w.queue ≠ [] ∧ ∃ s', body s = some (.inl s') ∧ Rel s' (w.turn succs maxDepth cap)) ∨
        ∃ r, body s = some (.inr r) ∧ Post r w)
    {s : σ} {w : Walk α} (hinv : Inv succs root maxDepth cap w) (hrel : Rel s w) :
    ∃ r w', Inv succs root maxDepth cap w' ∧ Post r w' ∧
      ∀ fuel, cap - w.done.length < fuel → loop body fuel s = some r := by
  induction hn : cap - w.done.length using Nat.strongRecOn generalizing s w with
  | ind n ih =>
    rcases hbody s w hinv hrel with ⟨hqueue, s', hs', hrel'⟩ | ⟨r, hr, hpost⟩
    · have hroom : w.done.length < cap := by
        have hbound := hinv.bound
        have hpos := List.length_pos_of_ne_nil hqueue
        rw [Walk.nodes, List.length_append] at hbound
        omega
      have hdone : (w.turn succs maxDepth cap).done.length = w.done.length + 1 :=
        Walk.turn_done hqueue
      obtain ⟨r, w', hinv', hpost, hloop⟩ := ih _ (by omega) hinv.turn hrel' rfl
      refine ⟨r, w', hinv', hpost, fun fuel hfuel => ?_⟩
      obtain ⟨fuel, rfl⟩ : ∃ k, fuel = k + 1 := ⟨fuel - 1, by omega⟩
      rw [loop, hs', Option.bind_some, Sum.elim_inl, hloop fuel (by omega)]
    · refine ⟨r, w, hinv, hpost, fun fuel hfuel => ?_⟩
      obtain ⟨fuel, rfl⟩ : ∃ k, fuel = k + 1 := ⟨fuel - 1, by omega⟩
      rw [loop, hr, Option.bind_some, Sum.elim_inr]

end IdaHeadless.BoundedWalk
