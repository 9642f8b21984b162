import Mathlib.Data.List.Nodup
import Mathlib.Data.Nat.Notation

/-!
# A request channel with one-shot answers

Senders append requests, each with a ticket of its own, and one server takes them in
order and records how it served each. Whoever holds a ticket finds the record of its
request, and no other, in the log.
-/

namespace IdaHeadless.RequestChannel

structure Message (T R : Type*) where
  ticket : ℕ
  sender : T
  request : R

/- The requests that wait and the ones that were served, both in order. -/
structure Channel (T R E : Type*) where
  queue : List (Message T R)
  served : List (Message T R × E)
  next : ℕ

variable {T R E : Type*}

namespace Channel

def empty : Channel T R E := ⟨[], [], 0⟩

def push (c : Channel T R E) (t : T) (r : R) : Channel T R E :=
  { c with queue := c.queue ++ [⟨c.next, t, r⟩], next := c.next + 1 }

/- The server has taken `m`, before `rest`, and served it as `e` says. -/
def serve (c : Channel T R E) (m : Message T R) (rest : List (Message T R)) (e : E) :
    Channel T R E :=
  { c with queue := rest, served := c.served ++ [(m, e)] }

/- How the request with this ticket was served. -/
def answer (c : Channel T R E) (k : ℕ) : Option E :=
  (c.served.find? fun x => x.1.ticket == k).map Prod.snd

/- All requests, oldest first. -/
def sent (c : Channel T R E) : List (Message T R) := c.served.map Prod.fst ++ c.queue

/- Tickets tell requests apart. -/
structure Ticketed (c : Channel T R E) : Prop where
  nodup : (c.sent.map Message.ticket).Nodup
  lt : ∀ m ∈ c.sent, m.ticket < c.next

end Channel

variable {c : Channel T R E} {t : T} {r : R} {e : E} {m m' : Message T R}
  {rest : List (Message T R)} {k : ℕ}

theorem sent_push : (c.push t r).sent = c.sent ++ [⟨c.next, t, r⟩] := by
  simp [Channel.sent, Channel.push]

theorem sent_serve (h : c.queue = m :: rest) : (c.serve m rest e).sent = c.sent := by
  simp [Channel.sent, Channel.serve, h]

theorem served_sent (h : (m, e) ∈ c.served) : m ∈ c.sent :=
  List.mem_append_left _ (List.mem_map.mpr ⟨(m, e), h, rfl⟩)

theorem ticketed_empty : (Channel.empty : Channel T R E).Ticketed :=
  ⟨List.nodup_nil, fun _ h => (by cases h)⟩

theorem ticketed_push (hc : c.Ticketed) : (c.push t r).Ticketed := by
  refine ⟨?_, ?_⟩
  · rw [sent_push, List.map_append, List.nodup_append]
    refine ⟨hc.nodup, List.nodup_singleton _, ?_⟩
    intro j hj j' hj'
    obtain ⟨m, hm, rfl⟩ := List.mem_map.mp hj
    have hlt := hc.lt m hm
    have hj' : j' = c.next := by simpa using hj'
    omega
  · intro m hm
    rw [sent_push] at hm
    show m.ticket < c.next + 1
    rcases List.mem_append.mp hm with hm | hm
    · have hlt := hc.lt m hm
      omega
    · obtain rfl := List.mem_singleton.mp hm
      exact Nat.lt_succ_self _

theorem ticketed_serve (hc : c.Ticketed) (h : c.queue = m :: rest) :
    (c.serve m rest e).Ticketed := by
  refine ⟨?_, ?_⟩
  · rw [sent_serve h]
    exact hc.nodup
  · rw [sent_serve h]
    exact hc.lt

theorem ticket_inj (hc : c.Ticketed) (hm : m ∈ c.sent) (hm' : m' ∈ c.sent)
    (h : m.ticket = m'.ticket) : m = m' :=
  List.inj_on_of_nodup_map hc.nodup hm hm' h

/- A request is served once. -/
theorem served_inj {e' : E} (hc : c.Ticketed) (h : (m, e) ∈ c.served) (h' : (m, e') ∈ c.served) :
    e = e' := by
  have hnodup : (c.served.map fun x => x.1.ticket).Nodup := by
    have hall := hc.nodup
    rw [Channel.sent, List.map_append, List.map_map] at hall
    exact (List.nodup_append.mp hall).1
  have heq := List.inj_on_of_nodup_map hnodup h h' rfl
  exact congrArg Prod.snd heq

theorem answer_served (h : c.answer k = some e) : ∃ m, (m, e) ∈ c.served ∧ m.ticket = k := by
  obtain ⟨⟨m, e'⟩, hfind, rfl⟩ := Option.map_eq_some_iff.mp h
  exact ⟨m, List.mem_of_find?_eq_some hfind, by simpa using List.find?_some hfind⟩

/- The record under a ticket is the record of the request that has it. -/
theorem answer_of_sent (hc : c.Ticketed) (hm : m ∈ c.sent) (h : c.answer m.ticket = some e) :
    (m, e) ∈ c.served := by
  obtain ⟨m', hm', heq⟩ := answer_served h
  obtain rfl := ticket_inj hc (served_sent hm') hm heq
  exact hm'

/- The next ticket has no record yet. -/
theorem answer_next (hc : c.Ticketed) : c.answer c.next = none := by
  by_contra hne
  obtain ⟨e, he⟩ := Option.ne_none_iff_exists'.mp hne
  obtain ⟨m, hm, heq⟩ := answer_served he
  have hlt := hc.lt m (served_sent hm)
  omega

/- A record found after a service was there before, or is that service. -/
theorem answer_serve {e' : E} (h : (c.serve m rest e).answer k = some e') :
    c.answer k = some e' ∨ e' = e := by
  unfold Channel.answer Channel.serve at h
  rw [List.find?_append] at h
  cases hold : c.served.find? fun x => x.1.ticket == k with
  | some x =>
    rw [hold] at h
    left
    rw [Channel.answer, hold]
    exact h
  | none =>
    rw [hold, Option.none_or] at h
    obtain ⟨x, hx, rfl⟩ := Option.map_eq_some_iff.mp h
    have hmem := List.mem_of_find?_eq_some hx
    rw [List.mem_singleton.mp hmem]
    exact Or.inr rfl

end IdaHeadless.RequestChannel
