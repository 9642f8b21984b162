import IdaHeadless.LegacySse.Sessions

/-!
# What the legacy transport delivers (supervisor/legacy_sse.rs)

The server of a session takes the messages of the POSTs that were accepted for it, each once and
in their order. The client's connection takes the events that were sent to its stream, and a
client that has read some of the stream has found the first of them: the endpoint, and then the
server's messages in their order among the pings.
-/

namespace IdaHeadless.LegacySse

open Runs EventStream

variable {M R : Type} {cfg : Config M R} {w w' : World M R} {id : String} {s s' : Session M R}
  {p : ℕ} {session : Option String} {stage : PostStage M}

/-! ### From the client to the server -/

def Session.messages (s : Session M R) : List M := s.accepted.map Prod.snd

/- What is between the server and its input. -/
structure Session.Queued (s : Session M R) : Prop where
  taken : s.taken <+: s.messages
  waiting : s.server ≠ .ended → s.taken ++ s.input = s.messages
  room : s.input.length ≤ inputChannelCapacity

def acceptedAnswer (bytes : Bytes) : PostStage M := .done ⟨.accepted, .inr bytes⟩

structure Delivers (cfg : Config M R) (w : World M R) : Prop where
  queued : ∀ id s, w.session id = some s → s.Queued
  sending : ∀ (p : ℕ) session bytes message, w.posts[p]? = some ⟨session, .sending bytes message⟩ →
    cfg.fromSlice bytes = .ok message
  accepted : ∀ id s, w.session id = some s → ∀ (p : ℕ) message, (p, message) ∈ s.accepted →
    ∃ bytes, w.posts[p]? = some ⟨some id, acceptedAnswer bytes⟩ ∧
      cfg.fromSlice bytes = .ok message
  posted : ∀ (p : ℕ) session bytes, w.posts[p]? = some ⟨session, acceptedAnswer bytes⟩ →
    ∃ id s message, session = some id ∧ w.session id = some s ∧ (p, message) ∈ s.accepted
  nodup : ∀ id s, w.session id = some s → (s.accepted.map Prod.fst).Nodup

theorem write_input (s : Session M R) (event data : List Char) :
    (s.write event data).input = s.input ∧ (s.write event data).taken = s.taken ∧
      (s.write event data).accepted = s.accepted ∧ (s.write event data).server = s.server := by
  unfold Session.write
  split
  · exact ⟨rfl, rfl, rfl, rfl⟩
  · exact ⟨rfl, rfl, rfl, rfl⟩

/- An event that is sent is nothing to the input. -/
theorem Session.Queued.write (h : s.Queued) (event data : List Char) :
    (s.write event data).Queued := by
  obtain ⟨hinput, htaken, haccepted, hserver⟩ := write_input s event data
  refine ⟨?_, ?_, ?_⟩
  · rw [htaken, Session.messages, haccepted]
    exact h.taken
  · rw [htaken, hinput, Session.messages, haccepted, hserver]
    exact h.waiting
  · rw [hinput]
    exact h.room

theorem SessionMoves.accepted (h : SessionMoves cfg id s s') : s'.accepted = s.accepted := by
  cases h with
  | announce => exact (write_input s _ _).2.2.1
  | reply message => exact (write_input s _ _).2.2.1
  | ping => exact (write_input s _ _).2.2.1
  | take | lost | serverEnds | keepAliveEnds | readFrame | cancelStream | closeStream => rfl

theorem SessionMoves.queued (h : SessionMoves cfg id s s') (hq : s.Queued)
    (hstart : s.stage = .inserted → s.server ≠ .ended) : s'.Queued := by
  cases h with
  | announce hstage =>
    have hwrite := hq.write (endpointEvent id).1 (endpointEvent id).2
    refine ⟨hwrite.taken, fun _ => ?_, hwrite.room⟩
    apply hwrite.waiting
    rw [(write_input s _ _).2.2.2]
    exact hstart hstage
  | take message input hinput hserver =>
    have hwaiting : s.taken ++ message :: input = s.messages := by
      rw [← hinput]
      exact hq.waiting (by rw [hserver]; nofun)
    refine ⟨⟨input, ?_⟩, fun _ => ?_, ?_⟩
    · change (s.taken ++ [message]) ++ input = s.messages
      rw [List.append_assoc, List.singleton_append, hwaiting]
    · change (s.taken ++ [message]) ++ input = s.messages
      rw [List.append_assoc, List.singleton_append, hwaiting]
    · have hroom := hq.room
      rw [hinput, List.length_cons] at hroom
      exact Nat.le_of_succ_le hroom
  | lost => exact hq
  | reply message =>
    have hwrite := hq.write (messageEvent (cfg.toString message)).1 (cfg.toString message)
    exact ⟨hwrite.taken, hwrite.waiting, hwrite.room⟩
  | serverEnds cancels => exact ⟨hq.taken, fun h => absurd rfl h, Nat.zero_le _⟩
  | ping => exact hq.write _ _
  | keepAliveEnds | readFrame | cancelStream | closeStream =>
    exact ⟨hq.taken, hq.waiting, hq.room⟩

theorem bodyStage_spec (cfg : Config M R) (body : Body) :
    (∀ bytes message, bodyStage cfg body = .sending bytes message →
      cfg.fromSlice bytes = .ok message) ∧
      ∀ bytes, bodyStage cfg body ≠ acceptedAnswer bytes := by
  unfold bodyStage
  split
  · split
    · exact ⟨nofun, nofun⟩
    · split
      · rename_i message hparse
        refine ⟨fun bytes' message' h => ?_, nofun⟩
        cases h
        exact hparse
      · exact ⟨nofun, nofun⟩
  · exact ⟨nofun, nofun⟩

theorem postStage_spec (w : World M R) (session : Option String) :
    (∀ bytes message, postStage w session ≠ .sending bytes message) ∧
      ∀ bytes, postStage w session ≠ acceptedAnswer bytes := by
  unfold postStage
  split
  · exact ⟨nofun, nofun⟩
  · split
    · exact ⟨nofun, nofun⟩
    · exact ⟨nofun, nofun⟩

/- One session changes, and no message comes in. -/
theorem Delivers.set (hD : Delivers cfg w) (s' : Session M R) (hs : w.session id = some s)
    (hqueued : s'.Queued) (haccepted : s'.accepted = s.accepted) : Delivers cfg (w.set id s') where
  queued other t ht := by
    rw [set_session] at ht
    split at ht
    · cases ht
      exact hqueued
    · exact hD.queued other t ht
  sending := hD.sending
  accepted other t ht q message hmem := by
    rw [set_session] at ht
    split at ht
    · rename_i heq
      cases ht
      rw [haccepted] at hmem
      rw [heq]
      exact hD.accepted id s hs q message hmem
    · exact hD.accepted other t ht q message hmem
  posted q asked bytes hq := by
    obtain ⟨other, t, message, hasked, ht, hmem⟩ := hD.posted q asked bytes hq
    by_cases heq : other = id
    · rw [heq, hs] at ht
      cases ht
      refine ⟨other, s', message, hasked, ?_, haccepted ▸ hmem⟩
      rw [set_session, if_pos heq]
    · refine ⟨other, t, message, hasked, ?_, hmem⟩
      rw [set_session, if_neg heq]
      exact ht
  nodup other t ht := by
    rw [set_session] at ht
    split at ht
    · cases ht
      rw [haccepted]
      exact hD.nodup id s hs
    · exact hD.nodup other t ht

/- One POST goes on, and its message does not come in. -/
theorem Delivers.answer (hD : Delivers cfg w) {next : PostStage M}
    (hpost : w.posts[p]? = some ⟨session, stage⟩) (hstage : ∀ r, stage ≠ .done r)
    (hsending : ∀ bytes message, next = .sending bytes message →
      cfg.fromSlice bytes = .ok message)
    (hnext : ∀ bytes, next ≠ acceptedAnswer bytes) :
    Delivers cfg (w.answer p session next) where
  queued := hD.queued
  sending q asked bytes message hq := by
    rw [answer_posts] at hq
    split at hq
    · split at hq
      · exact hsending bytes message (congrArg Post.stage (Option.some.inj hq))
      · cases hq
    · exact hD.sending q asked bytes message hq
  accepted other t ht q message hmem := by
    obtain ⟨bytes, hq, hparse⟩ := hD.accepted other t ht q message hmem
    exact ⟨bytes, answer_keeps hpost hstage hq, hparse⟩
  posted q asked bytes hq := by
    rw [answer_posts] at hq
    split at hq
    · split at hq
      · exact absurd (congrArg Post.stage (Option.some.inj hq)) (hnext bytes)
      · cases hq
    · exact hD.posted q asked bytes hq
  nodup := hD.nodup

theorem Delivers.send (hD : Delivers cfg w) {bytes : Bytes} {message : M}
    (hpost : w.posts[p]? = some ⟨some id, .sending bytes message⟩) (hs : w.session id = some s)
    (hserver : s.server ≠ .ended) (hroom : s.input.length < inputChannelCapacity) :
    Delivers cfg ((w.set id { s with
        input := s.input ++ [message], accepted := s.accepted ++ [(p, message)] }).answer
      p (some id) (acceptedAnswer bytes)) := by
  have hlt : p < w.posts.length := (List.getElem?_eq_some_iff.mp hpost).1
  have hqueued := hD.queued id s hs
  have hanswer : ∀ q, ((w.set id { s with
      input := s.input ++ [message], accepted := s.accepted ++ [(p, message)] }).answer
        p (some id) (acceptedAnswer bytes)).posts[q]? =
      if p = q then some ⟨some id, acceptedAnswer bytes⟩ else w.posts[q]? := by
    intro q
    rw [answer_posts]
    simp only [World.set, hlt, if_true]
  have hold : ∀ other q b, w.posts[q]? = some ⟨other, acceptedAnswer b⟩ → p ≠ q := by
    intro other q b hq heq
    rw [← heq, hpost] at hq
    cases hq
  refine ⟨?_, ?_, ?_, ?_, ?_⟩
  · intro other t ht
    change (w.set id _).session other = some t at ht
    rw [set_session] at ht
    split at ht
    · cases ht
      refine ⟨?_, fun _ => ?_, ?_⟩
      · rw [Session.messages, List.map_append]
        exact hqueued.taken.trans (List.prefix_append _ _)
      · rw [Session.messages, List.map_append, ← List.append_assoc, hqueued.waiting hserver]
        rfl
      · rw [List.length_append]
        exact hroom
    · exact hD.queued other t ht
  · intro q asked b m hq
    rw [hanswer] at hq
    split at hq
    · cases hq
    · exact hD.sending q asked b m hq
  · intro other t ht q m hmem
    change (w.set id _).session other = some t at ht
    rw [set_session] at ht
    rw [hanswer]
    split at ht
    · rename_i heq
      cases ht
      rcases List.mem_append.mp hmem with hmem | hmem
      · obtain ⟨b, hq, hparse⟩ := hD.accepted id s hs q m hmem
        rw [if_neg (hold _ q b hq), heq]
        exact ⟨b, hq, hparse⟩
      · cases List.mem_singleton.mp hmem
        rw [if_pos rfl, heq]
        exact ⟨bytes, rfl, hD.sending p (some id) bytes message hpost⟩
    · obtain ⟨b, hq, hparse⟩ := hD.accepted other t ht q m hmem
      rw [if_neg (hold _ q b hq)]
      exact ⟨b, hq, hparse⟩
  · intro q asked b hq
    rw [hanswer] at hq
    split at hq
    · rename_i heq
      cases hq
      refine ⟨id, _, message, rfl, (set_session w id _ id).trans (if_pos rfl), ?_⟩
      rw [← heq]
      exact List.mem_append_right _ (List.mem_singleton_self _)
    · obtain ⟨other, t, m, hasked, ht, hmem⟩ := hD.posted q asked b hq
      by_cases heq : other = id
      · rw [heq, hs] at ht
        cases ht
        exact ⟨other, _, m, hasked, (set_session w id _ other).trans (if_pos heq),
          List.mem_append_left _ hmem⟩
      · exact ⟨other, t, m, hasked, ((set_session w id _ other).trans (if_neg heq)).trans ht, hmem⟩
  · intro other t ht
    change (w.set id _).session other = some t at ht
    rw [set_session] at ht
    split at ht
    · cases ht
      rw [List.map_append]
      refine List.nodup_append.mpr ⟨hD.nodup id s hs, List.pairwise_singleton _ p, ?_⟩
      intro q hq last hlast heq
      obtain ⟨⟨q', m⟩, hmem, rfl⟩ := List.mem_map.mp hq
      obtain ⟨b, hpast, -⟩ := hD.accepted id s hs q' m hmem
      exact hold _ q' b hpast (heq.trans (List.mem_singleton.mp hlast)).symm
    · exact hD.nodup other t ht

/-! ### From the server to the client -/

def isMessage (e : List Char × List Char) : Bool := e.1 = (messageEvent []).1

/- The events of a session before and after `announce`. -/
structure Session.Sent (cfg : Config M R) (id : String) (s : Session M R) : Prop where
  read : s.read <+: s.written
  waiting : s.stage ≠ .gone → s.read ++ s.output = s.written
  quiet : s.stage = .inserted →
    s.written = [] ∧ s.replies = [] ∧ s.server = .unstarted ∧ s.keepAlive = false
  events : s.stage ≠ .inserted → ∃ rest, s.written = endpointEvent id :: rest ∧
    (∀ e ∈ rest, e = pingEvent ∨ ∃ message, e = messageEvent (cfg.toString message)) ∧
      rest.filter isMessage = s.replies.map fun message => messageEvent (cfg.toString message)

theorem write_open (hstage : s.stage ≠ .gone) (event data : List Char) :
    s.write event data =
      { s with output := s.output ++ [(event, data)], written := s.written ++ [(event, data)] } :=
  if_neg hstage

theorem Session.Sent.push (h : s.Sent cfg id) (hstage : s.stage ≠ .gone)
    (e : List Char × List Char) :
    s.read <+: s.written ++ [e] ∧ s.read ++ (s.output ++ [e]) = s.written ++ [e] := by
  refine ⟨h.read.trans (List.prefix_append _ _), ?_⟩
  rw [← List.append_assoc, h.waiting hstage]

theorem SessionMoves.sent (h : SessionMoves cfg id s s') (hsent : s.Sent cfg id) :
    s'.Sent cfg id := by
  cases h with
  | announce hstage =>
    obtain ⟨hwritten, hreplies, -, -⟩ := hsent.quiet hstage
    have hgone : s.stage ≠ .gone := by rw [hstage]; nofun
    obtain ⟨hread, hwaiting⟩ := hsent.push hgone (endpointEvent id)
    rw [Session.announce, write_open hgone]
    refine ⟨hread, fun _ => hwaiting, nofun, fun _ => ⟨[], ?_, nofun, ?_⟩⟩
    · change s.written ++ [endpointEvent id] = [endpointEvent id]
      rw [hwritten, List.nil_append]
    · change [] = s.replies.map _
      rw [hreplies]
      rfl
  | take | lost => exact ⟨hsent.read, hsent.waiting, hsent.quiet, hsent.events⟩
  | reply message hserver hgone =>
    have hbegun : s.stage ≠ .inserted := by
      intro hstage
      obtain ⟨-, -, hunstarted, -⟩ := hsent.quiet hstage
      exact absurd hunstarted hserver
    obtain ⟨rest, hrest, hkinds, hfilter⟩ := hsent.events hbegun
    obtain ⟨hread, hwaiting⟩ := hsent.push hgone (messageEvent (cfg.toString message))
    rw [write_open hgone]
    refine ⟨hread, fun _ => hwaiting, fun h => absurd h hbegun, fun _ =>
      ⟨rest ++ [messageEvent (cfg.toString message)], ?_, ?_, ?_⟩⟩
    · change s.written ++ [messageEvent (cfg.toString message)] = _
      rw [hrest, List.cons_append]
    · intro e he
      rcases List.mem_append.mp he with he | he
      · exact hkinds e he
      · exact .inr ⟨message, List.mem_singleton.mp he⟩
    · rw [List.filter_append, hfilter, List.map_append]
      rfl
  | serverEnds cancels hserver =>
    refine ⟨hsent.read, hsent.waiting, fun hstage => ?_, hsent.events⟩
    obtain ⟨-, -, hunstarted, -⟩ := hsent.quiet hstage
    rw [hunstarted] at hserver
    cases hserver
  | ping hkeep =>
    have hbegun : s.stage ≠ .inserted := by
      intro hstage
      obtain ⟨-, -, -, hnone⟩ := hsent.quiet hstage
      rw [hnone] at hkeep
      cases hkeep
    by_cases hgone : s.stage = .gone
    · rw [Session.write, if_pos hgone]
      exact hsent
    · obtain ⟨rest, hrest, hkinds, hfilter⟩ := hsent.events hbegun
      obtain ⟨hread, hwaiting⟩ := hsent.push hgone pingEvent
      rw [write_open hgone]
      refine ⟨hread, fun _ => hwaiting, fun h => absurd h hbegun, fun _ =>
        ⟨rest ++ [pingEvent], ?_, ?_, ?_⟩⟩
      · change s.written ++ [pingEvent] = _
        rw [hrest, List.cons_append]
      · intro e he
        rcases List.mem_append.mp he with he | he
        · exact hkinds e he
        · exact .inl (List.mem_singleton.mp he)
      · have hping : isMessage pingEvent = false := by decide
        rw [List.filter_append, hfilter, List.filter_singleton, hping]
        exact List.append_nil _
  | keepAliveEnds =>
    refine ⟨hsent.read, hsent.waiting, fun hstage => ?_, hsent.events⟩
    obtain ⟨hwritten, hreplies, hunstarted, -⟩ := hsent.quiet hstage
    exact ⟨hwritten, hreplies, hunstarted, rfl⟩
  | readFrame event output houtput hstage =>
    have hwaiting : s.read ++ event :: output = s.written := by
      rw [← houtput]
      exact hsent.waiting (by rw [hstage]; nofun)
    have hwaiting' : (s.read ++ [event]) ++ output = s.written := by
      rw [List.append_assoc, List.singleton_append, hwaiting]
    exact ⟨⟨output, hwaiting'⟩, fun _ => hwaiting', hsent.quiet, hsent.events⟩
  | cancelStream hstage =>
    refine ⟨hsent.read, fun _ => hsent.waiting (by rw [hstage]; nofun), nofun, fun _ => ?_⟩
    exact hsent.events (by rw [hstage]; nofun)
  | closeStream hstage =>
    refine ⟨hsent.read, fun h => absurd rfl h, nofun, fun _ => ?_⟩
    exact hsent.events (by rw [hstage]; nofun)

/-! ### Whole runs -/

structure Flows (cfg : Config M R) (w : World M R) : Prop where
  delivers : Delivers cfg w
  sent : ∀ id s, w.session id = some s → s.Sent cfg id

theorem start_flows : Flows cfg (start : World M R) where
  delivers := ⟨nofun, nofun, nofun, nofun, nofun⟩
  sent := nofun

/- The session that changed, and the others. -/
theorem sent_set (hsent : ∀ id s, w.session id = some s → s.Sent cfg id)
    (hs' : s'.Sent cfg id) :
    ∀ other t, (w.set id s').session other = some t → t.Sent cfg other := by
  intro other t ht
  rw [set_session] at ht
  split at ht
  · rename_i heq
    cases ht
    rw [heq]
    exact hs'
  · exact hsent other t ht

theorem moves_flows (hF : Flows cfg w) (h : Moves cfg w w') : Flows cfg w' := by
  obtain ⟨hD, hsent⟩ := hF
  cases h with
  | insert id hnew =>
    have hold : ∀ other t, w.session other = some t → other ≠ id := by
      intro other t ht heq
      rw [heq, hnew] at ht
      cases ht
    have hcases : ∀ other t, (w.set id (openedSession w.token)).session other = some t →
        t = openedSession w.token ∨ w.session other = some t := by
      intro other t ht
      rw [set_session] at ht
      split at ht
      · exact .inl (Option.some.inj ht).symm
      · exact .inr ht
    refine ⟨⟨?_, hD.sending, ?_, ?_, ?_⟩, ?_⟩
    · intro other t ht
      rcases hcases other t ht with rfl | ht
      · exact ⟨List.prefix_rfl, fun _ => rfl, Nat.zero_le _⟩
      · exact hD.queued other t ht
    · intro other t ht p message hmem
      rcases hcases other t ht with rfl | ht
      · exact (List.not_mem_nil hmem).elim
      · exact hD.accepted other t ht p message hmem
    · intro p asked bytes hp
      obtain ⟨other, t, message, hasked, ht, hmem⟩ := hD.posted p asked bytes hp
      exact ⟨other, t, message, hasked,
        ((set_session w id _ other).trans (if_neg (hold other t ht))).trans ht, hmem⟩
    · intro other t ht
      rcases hcases other t ht with rfl | ht
      · exact List.nodup_nil
      · exact hD.nodup other t ht
    · exact sent_set hsent ⟨List.prefix_rfl, fun _ => rfl, fun _ => ⟨rfl, rfl, rfl, rfl⟩,
        fun h => absurd rfl h⟩
  | session id s s' hs hmoves =>
    have hstart : s.stage = .inserted → s.server ≠ .ended := by
      intro hstage
      rw [((hsent id s hs).quiet hstage).2.2.1]
      nofun
    exact ⟨hD.set s' hs (hmoves.queued (hD.queued id s hs) hstart) hmoves.accepted,
      sent_set hsent (hmoves.sent (hsent id s hs))⟩
  | dropStream id s hs hstage =>
    have hqueued := hD.queued id s hs
    have hs' := hsent id s hs
    have hset := hD.set { s with stage := .removed } hs
      ⟨hqueued.taken, hqueued.waiting, hqueued.room⟩ rfl
    refine ⟨⟨hset.queued, hset.sending, hset.accepted, hset.posted, hset.nodup⟩, ?_⟩
    exact sent_set hsent ⟨hs'.read, fun _ => hs'.waiting (by rw [hstage]; nofun), nofun,
      fun _ => hs'.events (by rw [hstage]; nofun)⟩
  | post session =>
    obtain ⟨hnosending, hnoanswer⟩ := postStage_spec w session
    have hposts : ∀ (p : ℕ) post, (w.posts ++ [⟨session, postStage w session⟩])[p]? = some post →
        w.posts[p]? = some post ∨ post = ⟨session, postStage w session⟩ := by
      intro p post hp
      rw [List.getElem?_append] at hp
      split at hp
      · exact .inl hp
      · rw [List.getElem?_singleton] at hp
        split at hp
        · exact .inr (Option.some.inj hp).symm
        · cases hp
    refine ⟨⟨hD.queued, ?_, ?_, ?_, hD.nodup⟩, hsent⟩
    · intro p asked bytes message hp
      rcases hposts p _ hp with hp | hp
      · exact hD.sending p asked bytes message hp
      · exact absurd (congrArg Post.stage hp).symm (hnosending bytes message)
    · intro id s hs p message hmem
      obtain ⟨bytes, hp, hparse⟩ := hD.accepted id s hs p message hmem
      have hlt := (List.getElem?_eq_some_iff.mp hp).1
      exact ⟨bytes, (List.getElem?_append_left hlt).trans hp, hparse⟩
    · intro p asked bytes hp
      rcases hposts p _ hp with hp | hp
      · exact hD.posted p asked bytes hp
      · exact absurd (congrArg Post.stage hp).symm (hnoanswer bytes)
  | body p session body hpost =>
    obtain ⟨hsending, hnext⟩ := bodyStage_spec cfg body
    exact ⟨hD.answer hpost nofun hsending hnext, hsent⟩
  | send p id bytes message s hpost hs hserver hroom =>
    have hs' := hsent id s hs
    refine ⟨hD.send hpost hs hserver hroom, ?_⟩
    exact sent_set hsent ⟨hs'.read, hs'.waiting, hs'.quiet, hs'.events⟩
  | sendFailed p id bytes message s hpost hs =>
    have hqueued := hD.queued id s hs
    have hs' := hsent id s hs
    have hset := hD.set { s with token := true } hs
      ⟨hqueued.taken, hqueued.waiting, hqueued.room⟩ rfl
    refine ⟨hset.answer (p := p) hpost nofun nofun nofun, ?_⟩
    exact sent_set hsent ⟨hs'.read, hs'.waiting, hs'.quiet, hs'.events⟩
  | forget p id hpost =>
    have herase : Delivers cfg { w with sessions := w.sessions.erase id } :=
      ⟨hD.queued, hD.sending, hD.accepted, hD.posted, hD.nodup⟩
    exact ⟨herase.answer (p := p) hpost nofun nofun nofun, hsent⟩
  | abandon p session stage hpost hstage =>
    exact ⟨hD.answer hpost hstage nofun nofun, hsent⟩
  | cancelService =>
    have hcases : ∀ id t, ((w.session id).map fun s => { s with token := true }) = some t →
        ∃ s, w.session id = some s ∧ t = { s with token := true } := by
      intro id t ht
      obtain ⟨s, hs, rfl⟩ := Option.map_eq_some_iff.mp ht
      exact ⟨s, hs, rfl⟩
    refine ⟨⟨?_, hD.sending, ?_, ?_, ?_⟩, ?_⟩
    · intro id t ht
      obtain ⟨s, hs, rfl⟩ := hcases id t ht
      have hqueued := hD.queued id s hs
      exact ⟨hqueued.taken, hqueued.waiting, hqueued.room⟩
    · intro id t ht
      obtain ⟨s, hs, rfl⟩ := hcases id t ht
      exact hD.accepted id s hs
    · intro p asked bytes hp
      obtain ⟨id, s, message, hasked, hs, hmem⟩ := hD.posted p asked bytes hp
      exact ⟨id, { s with token := true }, message, hasked, congrArg (Option.map _) hs, hmem⟩
    · intro id t ht
      obtain ⟨s, hs, rfl⟩ := hcases id t ht
      exact hD.nodup id s hs
    · intro id t ht
      obtain ⟨s, hs, rfl⟩ := hcases id t ht
      have hs' := hsent id s hs
      exact ⟨hs'.read, hs'.waiting, hs'.quiet, hs'.events⟩

theorem run_flows {as : List (Act R)} (hrun : run (step cfg) start as = some w) : Flows cfg w :=
  run_inv (Flows cfg) (fun _ _ _ hF hstep => moves_flows hF (step_moves hstep)) start_flows hrun

/-- Whatever happens, the server of a session takes the messages of the POSTs that were accepted
for this session, in the order in which they were accepted; until it ends the others wait in
the channel. A POST is accepted for the session it names, once and with the message of its body. -/
theorem messages_delivered (cfg : Config M R) (as : List (Act R)) (w : World M R)
    (hrun : run (step cfg) start as = some w) (id : String) (s : Session M R)
    (hs : w.session id = some s) :
    s.taken <+: s.messages ∧ (s.server ≠ .ended → s.taken ++ s.input = s.messages) ∧
      s.input.length ≤ inputChannelCapacity ∧ (s.accepted.map Prod.fst).Nodup ∧
      ∀ p message, (p, message) ∈ s.accepted ↔
        ∃ bytes, w.posts[p]? = some ⟨some id, acceptedAnswer bytes⟩ ∧
          cfg.fromSlice bytes = .ok message := by
  have hD : Delivers cfg w := (run_flows hrun).delivers
  have hqueued := hD.queued id s hs
  refine ⟨hqueued.taken, hqueued.waiting, hqueued.room, hD.nodup id s hs, fun p message => ?_⟩
  constructor
  · exact hD.accepted id s hs p message
  · rintro ⟨bytes, hp, hparse⟩
    obtain ⟨other, t, message', hother, ht, hmem⟩ := hD.posted p (some id) bytes hp
    cases hother
    rw [hs] at ht
    cases ht
    obtain ⟨bytes', hp', hparse'⟩ := hD.accepted id s hs p message' hmem
    rw [hp] at hp'
    cases hp'
    rw [hparse] at hparse'
    cases hparse'
    exact hmem

theorem messages_delivered_pinged :
    ∃ w s, run (step pingConfig) start pinged = some w ∧ w.session "a" = some s ∧
      (0, pingText) ∈ s.accepted := by
  have hrun : (run (step pingConfig) start pinged).any (fun w => (w.session "a").isSome &&
      decide (w.posts[0]? = some ⟨some "a", acceptedAnswer pingText⟩)) = true := by
    decide +kernel
  obtain ⟨w, hw, hfacts⟩ := (Option.any_eq_true _ _).mp hrun
  obtain ⟨hsome, hpost⟩ := (Bool.and_eq_true _ _).mp hfacts
  obtain ⟨s, hs⟩ := Option.isSome_iff_exists.mp hsome
  have hiff := (messages_delivered pingConfig pinged w hw "a" s hs).2.2.2.2 0 pingText
  exact ⟨w, s, hw, hs, hiff.mpr ⟨pingText, of_decide_eq_true hpost, rfl⟩⟩

/-! ### What the client reads -/

def OneLine (text : List Char) : Prop := '\n' ∉ text ∧ '\r' ∉ text

instance (text : List Char) : Decidable (OneLine text) := by
  unfold OneLine
  infer_instance

theorem event_sendable (hjson : ∀ message, OneLine (cfg.toString message))
    (hid : OneLine id.toList) (hsent : s.Sent cfg id) {e : List Char × List Char}
    (he : e ∈ s.written) : Sendable e ∧ '\n' ∉ e.2 := by
  by_cases hstage : s.stage = .inserted
  · rw [(hsent.quiet hstage).1] at he
    cases he
  · obtain ⟨rest, hrest, hkinds, -⟩ := hsent.events hstage
    rw [hrest] at he
    rcases List.mem_cons.mp he with rfl | he
    · have htext : ("/sse?session=" ++ id).toList = "/sse?session=".toList ++ id.toList :=
        String.toList_append ..
      have hfixed : OneLine "/sse?session=".toList := by decide
      have hline : OneLine ("/sse?session=" ++ id).toList := by
        rw [htext]
        exact ⟨fun h => (List.mem_append.mp h).elim hfixed.1 hid.1,
          fun h => (List.mem_append.mp h).elim hfixed.2 hid.2⟩
      exact ⟨⟨List.cons_ne_nil _ _, by simp [endpointEvent], by simp [endpointEvent], hline.2⟩,
        hline.1⟩
    · rcases hkinds e he with rfl | ⟨message, rfl⟩
      · exact ⟨⟨List.cons_ne_nil _ _, by decide, by decide, by decide⟩, by decide⟩
      · exact ⟨⟨List.cons_ne_nil _ _, by simp [messageEvent], by simp [messageEvent],
          (hjson message).2⟩, (hjson message).1⟩

theorem wholeFrames_le (frames : List (List Char)) (n : ℕ) :
    wholeFrames frames n ≤ frames.length := by
  induction frames generalizing n with
  | nil => exact le_rfl
  | cons frame frames ih =>
    rw [wholeFrames]
    split
    · exact Nat.succ_le_succ (ih _)
    · exact Nat.zero_le _

/-- A client that has received some chunks of its stream has found the first events that were sent
to the session, one for each whole frame, as they were sent: the endpoint comes first, and the
server's messages come in their order. -/
theorem client_reads (cfg : Config M R) (hjson : ∀ message, OneLine (cfg.toString message))
    (as : List (Act R)) (w : World M R) (hrun : run (step cfg) start as = some w) (id : String)
    (hid : OneLine id.toList) (s : Session M R) (hs : w.session id = some s)
    (chunks : List (List Char)) (unread : List Char)
    (hchunks : chunks.flatten ++ unread = (frames s.read).flatten) :
    decode chunks =
        (s.written.take (wholeFrames (frames s.read) chunks.flatten.length)).map
          (fun e => ⟨e.1, e.2⟩) ∧
      (s.written = [] ∧ s.replies = [] ∨ ∃ rest, s.written = endpointEvent id :: rest ∧
        (∀ e ∈ rest, e = pingEvent ∨ ∃ message, e = messageEvent (cfg.toString message)) ∧
        rest.filter isMessage =
          s.replies.map fun message => messageEvent (cfg.toString message)) := by
  have hsent : s.Sent cfg id := (run_flows hrun).sent id s hs
  obtain ⟨later, hlater⟩ := hsent.read
  have hread : ∀ e ∈ s.read, Sendable e ∧ '\n' ∉ e.2 := fun e he =>
    event_sendable hjson hid hsent (hlater ▸ List.mem_append_left later he)
  constructor
  · have hdecode := decode_frames (fun e he => (hread e he).1) hchunks
    have hlength : wholeFrames (frames s.read) chunks.flatten.length ≤ s.read.length :=
      (wholeFrames_le _ _).trans_eq (List.length_map _)
    rw [hdecode, ← hlater, List.take_append_of_le_length hlength]
    apply List.map_congr_left
    intro e he
    obtain ⟨⟨-, -, -, hret⟩, hnl⟩ := hread e (List.mem_of_mem_take he)
    rw [received, receivedData_line hnl hret]
  · by_cases hstage : s.stage = .inserted
    · exact .inl ⟨(hsent.quiet hstage).1, (hsent.quiet hstage).2.1⟩
    · exact .inr (hsent.events hstage)

/- Both frames that the client has taken are cut, and the second is not whole yet. -/
def cutChunks : List (List Char) :=
  ["event: endpo".toList, "int\ndata: /sse?session=a\n\nevent: pi".toList]

theorem client_reads_pinged :
    ∃ w s rest, run (step pingConfig) start pinged = some w ∧ w.session "a" = some s ∧
      cutChunks.flatten ++ "ng\ndata: \x7b\x7d\n\n".toList = (frames s.read).flatten ∧
      decode cutChunks = [⟨"endpoint".toList, "/sse?session=a".toList⟩] ∧
      s.written = endpointEvent "a" :: rest ∧ rest.filter isMessage =
        s.replies.map fun message => messageEvent (pingConfig.toString message) := by
  have hrun : (run (step pingConfig) start pinged).any (fun w => (w.session "a").any fun s =>
      decide (s.written ≠ [] ∧
        cutChunks.flatten ++ "ng\ndata: \x7b\x7d\n\n".toList = (frames s.read).flatten ∧
        (s.written.take (wholeFrames (frames s.read) cutChunks.flatten.length)).map
            (fun e => Event.mk e.1 e.2) =
          [⟨"endpoint".toList, "/sse?session=a".toList⟩])) = true := by
    decide +kernel
  obtain ⟨w, hw, hfacts⟩ := (Option.any_eq_true _ _).mp hrun
  obtain ⟨s, hs, hfacts⟩ := (Option.any_eq_true _ _).mp hfacts
  obtain ⟨hwritten, hchunks, hfirst⟩ := of_decide_eq_true hfacts
  have hanswer : OneLine (pingConfig.toString ()) := by decide
  obtain ⟨hdecode, hread⟩ := client_reads pingConfig (fun _ => hanswer) pinged w hw "a"
    (by decide) s hs cutChunks _ hchunks
  rcases hread with ⟨hnone, -⟩ | ⟨rest, hrest, -, hfilter⟩
  · exact absurd hnone hwritten
  · exact ⟨w, s, rest, hw, hs, hchunks, hdecode.trans hfirst, hrest, hfilter⟩

end IdaHeadless.LegacySse
