import IdaHeadless.LegacySse.Step

/-!
# The sessions of the legacy transport and their streams (supervisor/legacy_sse.rs)

A session is in the map only while its stream is there. One that is not in the map is cancelled,
but for the moment between the two halves of the stream's drop, and no later POST reaches it.
-/

namespace IdaHeadless.LegacySse

open Runs

variable {M R : Type} {cfg : Config M R} {w w' : World M R} {id : String} {s s' : Session M R}
  {p : ℕ} {session : Option String} {stage : PostStage M}

/- The stream's drop has not begun. -/
def Stage.isOpen : Stage → Bool
  | .inserted | .streaming => true
  | .removed | .cancelled | .gone => false

structure SessionInv (w : World M R) : Prop where
  nodup : w.sessions.Nodup
  held : ∀ id ∈ w.sessions, ∃ s, w.session id = some s ∧ s.stage.isOpen = true
  lost : ∀ id s, w.session id = some s → id ∉ w.sessions → s.token = true ∨ s.stage = .removed
  failing : ∀ (p : ℕ) id, w.posts[p]? = some ⟨some id, .failing⟩ →
    ∃ s, w.session id = some s ∧ s.token = true

theorem start_inv : SessionInv (start : World M R) where
  nodup := List.nodup_nil
  held _ hid := (List.not_mem_nil hid).elim
  lost _ _ hs := by cases hs
  failing _ _ hpost := by cases hpost

/-! ### The state after a step -/

theorem set_session (w : World M R) (id : String) (s : Session M R) (other : String) :
    (w.set id s).session other = if other = id then some s else w.session other :=
  Function.update_apply ..

theorem answer_posts (w : World M R) (p : ℕ) (session : Option String) (stage : PostStage M)
    (q : ℕ) :
    (w.answer p session stage).posts[q]? =
      if p = q then (if p < w.posts.length then some ⟨session, stage⟩ else none)
      else w.posts[q]? := List.getElem?_set ..

theorem write_stage (s : Session M R) (event data : List Char) :
    (s.write event data).stage = s.stage ∧ (s.write event data).token = s.token := by
  unfold Session.write
  split
  · exact ⟨rfl, rfl⟩
  · exact ⟨rfl, rfl⟩

theorem SessionMoves.isOpen (h : SessionMoves cfg id s s') :
    s'.stage.isOpen = s.stage.isOpen := by
  cases h with
  | announce hstage =>
    rw [hstage]
    rfl
  | take | lost | serverEnds | keepAliveEnds | readFrame => rfl
  | reply message => exact congrArg Stage.isOpen (write_stage s _ _).1
  | ping => exact congrArg Stage.isOpen (write_stage s _ _).1
  | cancelStream hstage =>
    rw [hstage]
    rfl
  | closeStream hstage =>
    rw [hstage]
    rfl

theorem SessionMoves.token (h : SessionMoves cfg id s s') (ht : s.token = true) :
    s'.token = true := by
  cases h with
  | announce => exact (write_stage s _ _).2.trans ht
  | take | lost | keepAliveEnds | readFrame | closeStream => exact ht
  | reply message => exact (write_stage s _ _).2.trans ht
  | ping => exact (write_stage s _ _).2.trans ht
  | serverEnds cancels =>
    change (s.token || cancels) = true
    rw [ht, Bool.true_or]
  | cancelStream => rfl

theorem SessionMoves.removed (h : SessionMoves cfg id s s') (hr : s.stage = .removed) :
    s'.token = true ∨ s'.stage = .removed := by
  cases h with
  | announce hstage => rw [hr] at hstage; cases hstage
  | take | lost | serverEnds | keepAliveEnds | readFrame => exact .inr hr
  | reply message => exact .inr ((write_stage s _ _).1.trans hr)
  | ping => exact .inr ((write_stage s _ _).1.trans hr)
  | cancelStream => exact .inl rfl
  | closeStream hstage => rw [hr] at hstage; cases hstage

/-! ### What a step keeps -/

theorem SessionInv.set (hI : SessionInv w) (s' : Session M R) (hs : w.session id = some s)
    (hopen : s'.stage.isOpen = s.stage.isOpen) (htoken : s.token = true → s'.token = true)
    (hremoved : s.stage = .removed → s'.token = true ∨ s'.stage = .removed) :
    SessionInv (w.set id s') where
  nodup := hI.nodup
  held other hother := by
    obtain ⟨t, ht, htopen⟩ := hI.held other hother
    rw [set_session]
    split
    · rename_i heq
      rw [heq, hs] at ht
      cases ht
      exact ⟨s', rfl, hopen.trans htopen⟩
    · exact ⟨t, ht, htopen⟩
  lost other t ht hother := by
    rw [set_session] at ht
    split at ht
    · rename_i heq
      cases ht
      rcases hI.lost id s hs (heq ▸ hother) with h | h
      · exact .inl (htoken h)
      · exact hremoved h
    · exact hI.lost other t ht hother
  failing p other hpost := by
    obtain ⟨t, ht, httoken⟩ := hI.failing p other hpost
    rw [set_session]
    split
    · rename_i heq
      rw [heq, hs] at ht
      cases ht
      exact ⟨s', rfl, htoken httoken⟩
    · exact ⟨t, ht, httoken⟩

theorem SessionInv.answer (hI : SessionInv w)
    (hfailing : stage = .failing → ∀ id, session = some id →
      ∃ s, w.session id = some s ∧ s.token = true) : SessionInv (w.answer p session stage) where
  nodup := hI.nodup
  held := hI.held
  lost := hI.lost
  failing q id hpost := by
    rw [answer_posts] at hpost
    split at hpost
    · split at hpost
      · cases hpost
        exact hfailing rfl id rfl
      · cases hpost
    · exact hI.failing q id hpost

/- The map loses a session that is cancelled or on its way there. -/
theorem SessionInv.erase (hI : SessionInv w) (id : String)
    (hlost : ∀ s, w.session id = some s → s.token = true ∨ s.stage = .removed) :
    SessionInv { w with sessions := w.sessions.erase id } where
  nodup := hI.nodup.erase id
  held other hother := hI.held other (List.mem_of_mem_erase hother)
  lost other t ht hother := by
    by_cases heq : other = id
    · exact hlost t (heq ▸ ht)
    · exact hI.lost other t ht fun hmem => hother ((List.mem_erase_of_ne heq).mpr hmem)
  failing := hI.failing

theorem bodyStage_failing (cfg : Config M R) (body : Body) : bodyStage cfg body ≠ .failing := by
  unfold bodyStage
  split
  · split
    · exact nofun
    · split
      · exact nofun
      · exact nofun
  · exact nofun

theorem postStage_failing (w : World M R) (session : Option String) :
    postStage w session ≠ .failing := by
  unfold postStage
  split
  · exact nofun
  · split
    · exact nofun
    · exact nofun

theorem moves_inv (hI : SessionInv w) (h : Moves cfg w w') : SessionInv w' := by
  cases h with
  | insert id hnew =>
    have hnotin : id ∉ w.sessions := by
      intro hmem
      obtain ⟨s, hs, -⟩ := hI.held id hmem
      rw [hnew] at hs
      cases hs
    refine ⟨List.nodup_cons.mpr ⟨hnotin, hI.nodup⟩, ?_, ?_, ?_⟩
    · intro other hother
      rw [set_session]
      split
      · exact ⟨_, rfl, rfl⟩
      · rename_i hne
        exact hI.held other ((List.mem_cons.mp hother).resolve_left hne)
    · intro other t ht hother
      rw [set_session] at ht
      split at ht
      · rename_i heq
        exact absurd (heq ▸ List.mem_cons_self) hother
      · exact hI.lost other t ht fun hmem => hother (List.mem_cons_of_mem id hmem)
    · intro p other hpost
      obtain ⟨t, ht, httoken⟩ := hI.failing p other hpost
      have hne : other ≠ id := by
        intro heq
        rw [heq, hnew] at ht
        cases ht
      rw [set_session, if_neg hne]
      exact ⟨t, ht, httoken⟩
  | session id s s' hs hmoves => exact hI.set s' hs hmoves.isOpen hmoves.token hmoves.removed
  | dropStream id s hs hstage =>
    -- first the map, then the stage: in between the session is as it was
    refine ⟨hI.nodup.erase id, ?_, ?_, ?_⟩
    · intro other hother
      obtain ⟨hne, hmem⟩ := (hI.nodup.mem_erase_iff).mp hother
      rw [set_session, if_neg hne]
      exact hI.held other hmem
    · intro other t ht hother
      rw [set_session] at ht
      split at ht
      · cases ht
        exact .inr rfl
      · rename_i hne
        exact hI.lost other t ht fun hmem => hother ((List.mem_erase_of_ne hne).mpr hmem)
    · intro p other hpost
      obtain ⟨t, ht, httoken⟩ := hI.failing p other hpost
      rw [set_session]
      split
      · rename_i heq
        rw [heq, hs] at ht
        cases ht
        exact ⟨_, rfl, httoken⟩
      · exact ⟨t, ht, httoken⟩
  | post session =>
    refine ⟨hI.nodup, hI.held, hI.lost, ?_⟩
    intro p id hpost
    rw [List.getElem?_append] at hpost
    split at hpost
    · exact hI.failing p id hpost
    · rw [List.getElem?_singleton] at hpost
      split at hpost
      · rename_i hlast
        have hstage := congrArg Post.stage (Option.some.inj hpost)
        exact absurd hstage (postStage_failing w session)
      · cases hpost
  | body p session body hpost =>
    exact hI.answer fun hstage => absurd hstage (bodyStage_failing cfg body)
  | send p id bytes message s hpost hs hserver hroom =>
    have hset := hI.set { s with
      input := s.input ++ [message], accepted := s.accepted ++ [(p, message)] } hs rfl
      (fun h => h) (fun h => .inr h)
    exact hset.answer nofun
  | sendFailed p id bytes message s hpost hs =>
    have hset := hI.set { s with token := true } hs rfl (fun _ => rfl) (fun _ => .inl rfl)
    refine hset.answer fun _ other hother => ?_
    cases hother
    rw [set_session, if_pos rfl]
    exact ⟨_, rfl, rfl⟩
  | forget p id hpost =>
    obtain ⟨s, hs, htoken⟩ := hI.failing p id hpost
    have herase := hI.erase id fun t ht => by
      rw [hs] at ht
      cases ht
      exact .inl htoken
    exact herase.answer nofun
  | abandon p session stage hpost hstage => exact hI.answer nofun
  | cancelService =>
    refine ⟨hI.nodup, ?_, ?_, ?_⟩
    · intro id hid
      obtain ⟨s, hs, hopen⟩ := hI.held id hid
      exact ⟨{ s with token := true }, congrArg (Option.map _) hs, hopen⟩
    · intro id t ht _
      obtain ⟨s, hs, rfl⟩ := Option.map_eq_some_iff.mp ht
      exact .inl rfl
    · intro p id hpost
      obtain ⟨s, hs, -⟩ := hI.failing p id hpost
      exact ⟨{ s with token := true }, congrArg (Option.map _) hs, rfl⟩

theorem step_inv {a : Act R} (hI : SessionInv w) (h : step cfg w a = some w') : SessionInv w' :=
  moves_inv hI (step_moves h)

/-! ### Answers are final -/

theorem answer_keeps {r : Response} {q : ℕ} (hq : w.posts[q]? = some ⟨session, stage⟩)
    (hstage : ∀ r', stage ≠ .done r') {other : Option String} {next : PostStage M}
    {asked : Option String} (hp : w.posts[p]? = some ⟨other, .done r⟩) :
    (w.answer q asked next).posts[p]? = some ⟨other, .done r⟩ := by
  have hne : q ≠ p := by
    intro heq
    rw [heq, hp] at hq
    exact hstage r (congrArg Post.stage (Option.some.inj hq)).symm
  rw [answer_posts, if_neg hne, hp]

theorem Moves.keeps_answer (h : Moves cfg w w') {r : Response}
    (hp : w.posts[p]? = some ⟨session, .done r⟩) : w'.posts[p]? = some ⟨session, .done r⟩ := by
  cases h with
  | insert | session | dropStream | cancelService => exact hp
  | post other =>
    obtain ⟨hlt, -⟩ := List.getElem?_eq_some_iff.mp hp
    exact (List.getElem?_append_left hlt).trans hp
  | body q other body hq => exact answer_keeps hq nofun hp
  | send q id bytes message s hq hs hserver hroom =>
    exact answer_keeps (w := w.set id _) hq nofun hp
  | sendFailed q id bytes message s hq hs => exact answer_keeps (w := w.set id _) hq nofun hp
  | forget q id hq =>
    exact answer_keeps (w := { w with sessions := w.sessions.erase id }) hq nofun hp
  | abandon q other stage hq hstage => exact answer_keeps hq hstage hp

/-- In every state a session of the map has its stream, one that is not in the map is cancelled or
the next half of its stream's drop cancels it, and a POST that came after the stream's drop had
begun was refused. -/
theorem sessions_follow_streams (cfg : Config M R) (as : List (Act R)) (w : World M R)
    (hrun : run (step cfg) start as = some w) :
    (∀ id ∈ w.sessions, ∃ s, w.session id = some s ∧ s.stage.isOpen = true) ∧
      (∀ id s, w.session id = some s → id ∉ w.sessions →
        s.token = true ∨ s.stage = .removed) ∧
      ∀ bs cs id u s, as = bs ++ .post (some id) :: cs → run (step cfg) start bs = some u →
        u.session id = some s → s.stage.isOpen = false →
          w.posts[u.posts.length]? = some ⟨some id, .done (noConnection id)⟩ := by
  have hI : SessionInv w := run_inv SessionInv (fun _ _ _ => step_inv) start_inv hrun
  refine ⟨hI.held, hI.lost, ?_⟩
  intro bs cs id u s has hu hs hclosed
  have hIu : SessionInv u := run_inv SessionInv (fun _ _ _ => step_inv) start_inv hu
  have hnotin : id ∉ u.sessions := by
    intro hmem
    obtain ⟨t, ht, hopen⟩ := hIu.held id hmem
    rw [hs] at ht
    cases ht
    rw [hclosed] at hopen
    cases hopen
  rw [has, run_append_iff] at hrun
  obtain ⟨u', hu', hrest⟩ := hrun
  rw [hu] at hu'
  cases hu'
  obtain ⟨v, huv, hvw⟩ := run_cons_iff.mp hrest
  cases huv
  have hrefused : (u.posts ++ [⟨some id, postStage u (some id)⟩])[u.posts.length]? =
      some ⟨some id, .done (noConnection id)⟩ := by
    rw [List.getElem?_append_right le_rfl, Nat.sub_self, postStage, if_neg hnotin]
    rfl
  exact run_inv (fun x => x.posts[u.posts.length]? = some ⟨some id, .done (noConnection id)⟩)
    (fun x a y hx hxy => (step_moves hxy).keeps_answer hx) hrefused hvw

def pingText : Bytes := "\x7b\"jsonrpc\":\"2.0\",\"id\":1,\"method\":\"ping\"\x7d".toUTF8.toList

/- The messages stand for their JSON texts, and the server has one answer. -/
def pingConfig : Config Bytes Unit where
  keepAlive := true
  maxRequestBodyBytes := 1024
  fromSlice := .ok
  toString _ := "\x7b\"jsonrpc\":\"2.0\",\"id\":1,\"result\":\x7b\x7d\x7d".toList

/- One request and its answer, with a ping in between. -/
def pinged : List (Act Unit) :=
  [.insert "a", .session "a" .announce, .post (some "a"), .body 0 (.collected pingText), .send 0,
    .session "a" .take, .session "a" .ping, .session "a" (.reply ()), .session "a" .readFrame,
    .session "a" .readFrame]

def disconnected : List (Act Unit) :=
  pinged ++ [.dropStream "a", .session "a" .cancelStream, .session "a" .closeStream]

theorem sessions_follow_streams_disconnected :
    ∃ w, run (step pingConfig) start (disconnected ++ [.post (some "a")]) = some w ∧
      w.posts[1]? = some ⟨some "a", .done (noConnection "a")⟩ := by
  have hdrop : (run (step pingConfig) start disconnected).any (fun u =>
      u.posts.length == 1 && (u.session "a").any fun s => !s.stage.isOpen) = true := by
    decide +kernel
  have hpost :
      (run (step pingConfig) start (disconnected ++ [.post (some "a")])).isSome = true := by
    decide +kernel
  obtain ⟨u, hu, hfacts⟩ := (Option.any_eq_true _ _).mp hdrop
  obtain ⟨hlength, hfacts⟩ := (Bool.and_eq_true _ _).mp hfacts
  obtain ⟨s, hs, hclosed⟩ := (Option.any_eq_true _ _).mp hfacts
  obtain ⟨w, hw⟩ := Option.isSome_iff_exists.mp hpost
  have hrefused := (sessions_follow_streams pingConfig _ w hw).2.2 disconnected [] "a" u s rfl hu hs
    (by simpa using hclosed)
  rw [beq_iff_eq.mp hlength] at hrefused
  exact ⟨w, hw, hrefused⟩

end IdaHeadless.LegacySse
