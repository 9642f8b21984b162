import Mathlib.Data.List.Basic
import Mathlib.Data.List.Lex
import Mathlib.Data.List.Nodup
import Mathlib.Tactic.Common

/-!
# Routes through a graph

A graph is given by the list of the successors of each node, where a node may stand more than
once. A route is named by the choices made along it, so that parallel edges are told apart, and
routes are compared as their choices are.
-/

namespace IdaHeadless.Routes

variable {α : Type*} {succs : α → List α} {goal cur next : α} {choices : List ℕ}
  {nodes visited : List α}
  {depth : ℕ}

/-- The nodes on the way, if each choice is one of the successors. -/
def trace (succs : α → List α) : α → List ℕ → Option (List α)
  | cur, [] => some [cur]
  | cur, k :: choices =>
    (succs cur)[k]?.bind fun next => (trace succs next choices).map (cur :: ·)

theorem trace_cons_eq_some {k : ℕ} :
    trace succs cur (k :: choices) = some nodes ↔
      ∃ next tail, (succs cur)[k]? = some next ∧ trace succs next choices = some tail ∧
        nodes = cur :: tail := by
  simp only [trace, Option.bind_eq_some_iff, Option.map_eq_some_iff]
  constructor
  · rintro ⟨next, hnext, tail, htail, rfl⟩
    exact ⟨next, tail, hnext, htail, rfl⟩
  · rintro ⟨next, tail, hnext, htail, rfl⟩
    exact ⟨next, hnext, tail, htail, rfl⟩

/- A route starts where it starts and has one node more than edges. -/
theorem trace_shape (h : trace succs cur choices = some nodes) :
    nodes.head? = some cur ∧ nodes.length = choices.length + 1 := by
  induction choices generalizing cur nodes with
  | nil =>
    cases h
    exact ⟨rfl, rfl⟩
  | cons k choices ih =>
    obtain ⟨next, tail, -, htail, rfl⟩ := trace_cons_eq_some.mp h
    exact ⟨rfl, congrArg (· + 1) (ih htail).2⟩

/-- A route to the goal that has no node twice and none of the visited ones. -/
structure Simple (succs : α → List α) (goal : α) (visited : List α) (cur : α) (choices : List ℕ)
    (nodes : List α) : Prop where
  follows : trace succs cur choices = some nodes
  nodup : nodes.Nodup
  fresh : ∀ x ∈ nodes, x ∉ visited
  last : nodes.getLast? = some goal

/- The goal ends a simple route, as it stands there only once. -/
theorem Simple.nil_iff (hcur : goal ∉ visited) :
    Simple succs goal visited goal choices nodes ↔ choices = [] ∧ nodes = [goal] := by
  constructor
  · intro h
    cases choices with
    | nil => exact ⟨rfl, (Option.some.inj h.follows).symm⟩
    | cons k choices =>
      obtain ⟨next, tail, -, htail, rfl⟩ := trace_cons_eq_some.mp h.follows
      have hlast := h.last
      have hne : tail ≠ [] := by
        intro hnil
        have hlen := (trace_shape htail).2
        rw [hnil] at hlen
        simp at hlen
      rw [List.getLast?_cons, List.getLast?_eq_getLast_of_ne_nil hne, Option.getD_some,
        Option.some.injEq] at hlast
      exact absurd (hlast ▸ List.getLast_mem hne) (List.nodup_cons.mp h.nodup).1
  · rintro ⟨rfl, rfl⟩
    exact ⟨rfl, List.nodup_singleton _, by simpa using hcur, rfl⟩

theorem Simple.cons_iff (hcur : cur ∉ visited) (hgoal : cur ≠ goal) :
    Simple succs goal visited cur choices nodes ↔
      ∃ k next rest tail, (succs cur)[k]? = some next ∧ next ∉ visited ++ [cur] ∧
        Simple succs goal (visited ++ [cur]) next rest tail ∧
        choices = k :: rest ∧ nodes = cur :: tail := by
  constructor
  · intro h
    cases choices with
    | nil =>
      cases h.follows
      exact absurd (Option.some.inj h.last) hgoal
    | cons k rest =>
      obtain ⟨next, tail, hnext, htail, rfl⟩ := trace_cons_eq_some.mp h.follows
      obtain ⟨hhead, hlen⟩ := trace_shape htail
      obtain ⟨hout, hnodup⟩ := List.nodup_cons.mp h.nodup
      have hfresh : ∀ x ∈ tail, x ∉ visited ++ [cur] := by
        intro x hx hmem
        rcases List.mem_append.mp hmem with hvisited | hx'
        · exact h.fresh x (List.mem_cons_of_mem cur hx) hvisited
        · exact hout (List.mem_singleton.mp hx' ▸ hx)
      have hlast : tail.getLast? = some goal := by
        have hlast := h.last
        cases tail with
        | nil => simp at hlen
        | cons t tail => rwa [List.getLast?_cons_cons] at hlast
      exact ⟨k, next, rest, tail, hnext, hfresh next (List.mem_of_mem_head? hhead),
        ⟨htail, hnodup, hfresh, hlast⟩, rfl, rfl⟩
  · rintro ⟨k, next, rest, tail, hnext, -, h, rfl, rfl⟩
    refine ⟨trace_cons_eq_some.mpr ⟨next, tail, hnext, h.follows, rfl⟩,
      List.nodup_cons.mpr ⟨fun hmem => h.fresh cur hmem (by simp), h.nodup⟩, ?_, ?_⟩
    · intro x hx
      rcases List.mem_cons.mp hx with rfl | hx
      · exact hcur
      · exact fun hvisited => h.fresh x hx (List.mem_append_left _ hvisited)
    · cases tail with
      | nil => cases h.last
      | cons t tail =>
        rw [List.getLast?_cons_cons]
        exact h.last

variable [DecidableEq α]

/-- All simple routes with less than `depth` edges: at each node the successors in turn. -/
def simpleRoutes (succs : α → List α) (goal : α) : ℕ → List α → α → List (List ℕ × List α)
  | 0, _, _ => []
  | depth + 1, visited, cur =>
    if cur = goal then [([], [cur])]
    else (succs cur).zipIdx.flatMap fun edge =>
      if edge.1 ∈ visited ++ [cur] then []
      else (simpleRoutes succs goal depth (visited ++ [cur]) edge.1).map fun route =>
        (edge.2 :: route.1, cur :: route.2)

/- The induction is on the edges that are left. -/
theorem mem_simpleRoutes (hcur : cur ∉ visited) :
    (choices, nodes) ∈ simpleRoutes succs goal depth visited cur ↔
      Simple succs goal visited cur choices nodes ∧ choices.length < depth := by
  induction depth generalizing cur visited choices nodes with
  | zero => simp [simpleRoutes]
  | succ depth ih =>
    rw [simpleRoutes]
    by_cases hgoal : cur = goal
    · subst hgoal
      rw [if_pos rfl, List.mem_singleton, Prod.mk.injEq, Simple.nil_iff hcur]
      constructor
      · rintro ⟨rfl, rfl⟩
        exact ⟨⟨rfl, rfl⟩, Nat.succ_pos depth⟩
      · intro h
        exact h.1
    · rw [if_neg hgoal, List.mem_flatMap, Simple.cons_iff hcur hgoal]
      constructor
      · rintro ⟨⟨next, k⟩, hedge, hmem⟩
        have hnext := List.mem_zipIdx_iff_getElem?.mp hedge
        by_cases hseen : next ∈ visited ++ [cur]
        · rw [if_pos hseen] at hmem
          cases hmem
        · rw [if_neg hseen] at hmem
          obtain ⟨⟨rest, tail⟩, hroute, heq⟩ := List.mem_map.mp hmem
          cases heq
          obtain ⟨hsimple, hlen⟩ := (ih hseen).mp hroute
          exact ⟨⟨k, next, rest, tail, hnext, hseen, hsimple, rfl, rfl⟩, Nat.succ_lt_succ hlen⟩
      · rintro ⟨⟨k, next, rest, tail, hnext, hseen, hsimple, rfl, rfl⟩, hlen⟩
        refine ⟨(next, k), List.mem_zipIdx_iff_getElem?.mpr hnext, ?_⟩
        rw [if_neg hseen]
        exact List.mem_map.mpr
          ⟨(rest, tail), (ih hseen).mpr ⟨hsimple, Nat.lt_of_succ_lt_succ hlen⟩, rfl⟩

/- The routes without their choices. -/
theorem map_snd_simpleRoutes (visited : List α) (cur : α) :
    (simpleRoutes succs goal (depth + 1) visited cur).map Prod.snd =
      if cur = goal then [[cur]]
      else (succs cur).flatMap fun next =>
        if next ∈ visited ++ [cur] then []
        else ((simpleRoutes succs goal depth (visited ++ [cur]) next).map Prod.snd).map
          (cur :: ·) := by
  rw [simpleRoutes]
  split
  · rfl
  · rw [List.map_flatMap]
    conv_rhs => rw [← List.zipIdx_map_fst 0 (succs cur), List.flatMap_map]
    refine List.flatMap_congr fun edge _ => ?_
    split
    · rfl
    · simp only [List.map_map, Function.comp_def]

/- The routes come in the order of their choices. -/
theorem simpleRoutes_sorted (succs : α → List α) (goal : α) (depth : ℕ) (visited : List α)
    (cur : α) :
    (simpleRoutes succs goal depth visited cur).Pairwise fun route later => route.1 < later.1 := by
  induction depth generalizing visited cur with
  | zero => exact List.Pairwise.nil
  | succ depth ih =>
    rw [simpleRoutes]
    split
    · exact List.pairwise_singleton _ _
    · rw [List.pairwise_flatMap]
      constructor
      · intro edge _
        split
        · exact List.Pairwise.nil
        · rw [List.pairwise_map]
          refine (ih (visited ++ [cur]) edge.1).imp fun {route later} hlt => ?_
          exact List.cons_lt_cons_iff.mpr (.inr ⟨rfl, hlt⟩)
      · -- an earlier successor has the smaller choice
        have hchoices : (succs cur).zipIdx.Pairwise fun edge later => edge.2 < later.2 := by
          rw [← List.pairwise_map (f := Prod.snd)]
          rw [List.zipIdx_map_snd]
          exact List.pairwise_lt_range'
        refine hchoices.imp fun {edge later} hlt route hroute other hother => ?_
        split at hroute
        · cases hroute
        · split at hother
          · cases hother
          · obtain ⟨route, -, rfl⟩ := List.mem_map.mp hroute
            obtain ⟨other, -, rfl⟩ := List.mem_map.mp hother
            exact List.cons_lt_cons_iff.mpr (.inl hlt)

end IdaHeadless.Routes
