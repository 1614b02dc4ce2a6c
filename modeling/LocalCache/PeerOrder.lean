import LocalCache.Benchmark

namespace LocalCache

open Protocol Serializer RequestCodec Library Keyed Transition
open scoped List

def Answer.served (x : Answer) : Bool := x.response.status ≠ .kServerBusy

namespace Server

variable {config : ServerConfig} {fds : Descriptors} {s s' : Server} {a : Action} {o : Outcome}

/-- The jobs that one worker has answered, the one it executes and those it has still to execute. -/
def line (s : Server) : List Job :=
  (s.ledger.answers.filter Answer.served).filterMap Answer.job ++ (s.worker 0).job.toList ++
    s.queue

/-- The jobs stand in the line in the order in which they were taken. -/
def InLine (s : Server) : Prop := s.line.Sublist s.ledger.taken

theorem InLine.frame (h : s.InLine) (answers : s'.ledger.answers = s.ledger.answers)
    (job : (s'.worker 0).job = (s.worker 0).job) (queue : s'.queue = s.queue)
    (taken : s.ledger.taken <+: s'.ledger.taken) : s'.InLine := by
  rw [InLine, line, answers, job, queue]
  exact h.trans taken.sublist

theorem InLine.answered {x : Answer} (h : s.InLine)
    (answers : s'.ledger.answers = s.ledger.answers ++ [x])
    (other : x.served = false ∨ x.job = none) (worker : s'.worker = s.worker)
    (queue : s'.queue = s.queue) (taken : s'.ledger.taken = s.ledger.taken) : s'.InLine := by
  have hsame : (s'.ledger.answers.filter Answer.served).filterMap Answer.job =
      (s.ledger.answers.filter Answer.served).filterMap Answer.job := by
    rw [answers, List.filter_append, List.filterMap_append]
    obtain hx | hx := other
    · simp [hx]
    · simp [List.filter_cons, apply_ite (List.filterMap Answer.job), hx]
  rw [InLine, line, hsame, worker, queue, taken]
  exact h

theorem inLine_loop (h : s.InLine) (hs : LoopStep config fds s o s') : s'.InLine := by
  cases hs with
  | submit c request x error n pc room next accepts =>
    rw [InLine, line]
    dsimp only
    rw [← List.append_assoc]
    exact h.append (.refl _)
  | refuse => exact h.frame rfl rfl rfl (List.prefix_append _ _)
  | busy job ok x pc he =>
    cases hclosed : (s.conn job.connection).closed with
    | true => exact h.frame (by simp [recordAnswer]) rfl rfl (by simp [recordAnswer])
    | false =>
      exact h.answered (by simp only [recordAnswer]; rfl) (.inl rfl) rfl rfl
        (by simp [recordAnswer])
  | immediate c response ok x pc he =>
    cases hclosed : (s.conn c).closed with
    | true => exact h.frame rfl rfl rfl (List.prefix_refl _)
    | false => exact h.answered rfl (.inr rfl) rfl rfl rfl
  | stopExpired pc =>
    rw [InLine, line]
    dsimp only
    rw [List.append_nil]
    exact (List.sublist_append_left _ _).trans h
  | _ => exact h.frame rfl rfl rfl (List.prefix_refl _)

theorem inLine_worker (h : s.InLine) (hs : WorkerStep s 0 s') : s'.InLine := by
  have hself : ∀ pc, s.setWorker 0 pc 0 = pc := fun pc => by rw [setWorker_apply, if_pos rfl]
  cases hs with
  | take job queue pc hq =>
    rw [InLine, line, pc, hq] at h
    rw [InLine, line]
    dsimp only
    rw [hself]
    simpa [Worker.job] using h
  | discard job pc =>
    rw [InLine, line, pc] at h
    rw [InLine, line]
    dsimp only
    rw [hself]
    refine List.Sublist.trans ?_ h
    exact List.Sublist.append_right
      (List.Sublist.append_left (List.nil_sublist _) _) _
  | stage job response overLimit x pc =>
    rw [InLine, line, pc] at h
    rw [InLine, line]
    dsimp only
    rw [hself, List.filter_append, List.filterMap_append]
    have hlast : (([⟨job.connection, some job, response⟩] : List Answer).filter
        Answer.served).filterMap Answer.job <+ [job] := List.filter_sublist.filterMap _
    refine List.Sublist.trans (List.Sublist.append_right ?_ _) h
    have hnone : (Worker.decrement job.connection !overLimit).job = none := rfl
    rw [hnone, Option.toList_none, List.append_nil]
    exact hlast.append_left _
  | decrement c healthy pc =>
    refine h.frame rfl ?_ rfl (List.prefix_refl _)
    dsimp only
    rw [hself, pc]
    cases healthy <;> rfl
  | exit pc | run _ _ _ _ _ pc | record _ _ _ pc | checkClosed _ _ pc | checkOpen _ _ pc
  | unhealthy _ pc | notified _ pc | notify _ pc | push _ pc | write _ pc | finish _ pc =>
    refine h.frame rfl ?_ rfl (List.prefix_refl _)
    dsimp only
    rw [hself, pc]
    rfl

theorem step_inLine (one : config.workerThreads.toNat ≤ 1) (h : s.InLine)
    (hs : Step config fds s a s') : s'.InLine := by
  cases hs with
  | loop hl => exact inLine_loop h hl
  | @worker w _ _ hw hs =>
    obtain rfl : w = 0 := by omega
    exact inLine_worker h hs
  | requestShutdown => exact h.frame rfl rfl rfl (List.prefix_refl _)

theorem InLine.answersOn (h : s.InLine) (hc : s.Core config) (c : Nat) :
    ((s.answersOn c).filter Answer.served).filterMap Answer.job <+ s.takenOn c := by
  have hline : (s.ledger.answers.filter Answer.served).filterMap Answer.job <+ s.ledger.taken := by
    rw [InLine, line, List.append_assoc] at h
    exact (List.sublist_append_left _ _).trans h
  have hon : ((s.answersOn c).filter Answer.served).filterMap Answer.job <+
      (s.ledger.answers.filter Answer.served).filterMap Answer.job := by
    refine List.Sublist.filterMap _ (List.Sublist.filter _ ?_)
    exact List.filter_sublist
  have hfilter := (hon.trans hline).filter (fun j => j.connection = c)
  rwa [List.filter_eq_self.mpr] at hfilter
  intro j hj
  obtain ⟨x, hx, hxj⟩ := List.mem_filterMap.mp hj
  obtain ⟨hx, hconn⟩ := List.mem_filter.mp (List.mem_filter.mp hx).1
  rw [← (hc.accounted.answers x hx j hxj).1]
  exact hconn

end Server

namespace Net

variable {σ α : Type} {config : ServerConfig} {fds : Descriptors}
  {P : Nat → Peer config.frameLimits σ α} {z z' : Net σ} {c k n : Nat}

theorem reach_inLine (hconfig : config.Valid) (one : config.workerThreads.toNat ≤ 1)
    (h : Reach (step fds P) (Assumed P) (start config fds P) z) :
    z.Inv P ∧ z.fed.server.InLine := by
  refine h.invariant (P := fun z => z.Inv P ∧ z.fed.server.InLine)
    ⟨inv_start config fds P, List.Sublist.slnil⟩ ?_
  rintro z a z' ⟨hinv, hline⟩ ok hstep
  have hm := moves_of_step hstep
  refine ⟨inv_moves hconfig hinv ok hm, ?_⟩
  cases hm with
  | served a fed arrives hs | accepted fd k n fed awaits hs | rejected fd k n fed hs =>
    exact Server.step_inLine one hline (Server.step_sound (Fed.step_server hs).1)
  | moved => exact hline

theorem Inv.link_of_told (h : z.Inv P) {p : Nat × Nat} (told : z.toldOn P p ≠ []) :
    ∃ c, z.link c = some p := by
  obtain ⟨r, hr⟩ := List.exists_mem_of_ne_nil _ told
  obtain ⟨c, -, hc, -⟩ := h.answer_of_told (mem_listedOn.mp hr)
  exact ⟨c, hc⟩

/-- With one worker a peer is told the responses to the requests of a connection in the order in
which it asked them, except for refusals. -/
theorem Inv.told_in_order (h : z.Inv P) (line : z.fed.server.InLine) (p : Nat × Nat) :
    ((z.toldOn P p).filter (fun r => r.status ≠ .kServerBusy)).map Response.requestId <+
      (z.askedOn P p).map Request.requestId := by
  by_cases htold : z.toldOn P p = []
  · rw [htold]
    exact List.nil_sublist _
  obtain ⟨c, hc⟩ := h.link_of_told htold
  have hids : (((z.fed.server.answersOn c).filter Answer.served).map
      (fun x => x.response.requestId)) =
      (((z.fed.server.answersOn c).filter Answer.served).filterMap Answer.job).map
        (fun j => j.request.requestId) := by
    rw [List.map_filterMap]
    refine (List.filterMap_eq_map_iff_forall_eq_some.mpr ?_).symm
    intro x hx
    obtain ⟨j, hj, -, hanswers⟩ := h.job_of_answer (List.mem_filter.mp hx).1
    rw [hj, hanswers.2]
    rfl
  calc ((z.toldOn P p).filter (fun r => r.status ≠ .kServerBusy)).map Response.requestId
      <+ (((z.fed.server.answersOn c).map Answer.response).filter
          (fun r => r.status ≠ .kServerBusy)).map Response.requestId :=
        ((h.responses hc).sublist.filter _).map _
    _ = ((z.fed.server.answersOn c).filter Answer.served).map
          (fun x => x.response.requestId) := by
        rw [List.filter_map, List.map_map]
        rfl
    _ = (((z.fed.server.answersOn c).filter Answer.served).filterMap Answer.job).map
          (fun j => j.request.requestId) := hids
    _ <+ (z.fed.server.takenOn c).map (fun j => j.request.requestId) :=
        (line.answersOn h.core c).map _
    _ <+ (z.askedOn P p).map Request.requestId := by
        have htaken := (h.requests hc).sublist.map Request.requestId
        rwa [List.map_map] at htaken

end Net

namespace Engine

/-- With one worker thread, and generators that ask only for requests within the server's limits,
an engine completes the requests of every connection in the order in which it issued them, except
for those that are refused: whatever the interleaving, responses never overtake each other. -/
theorem engines_in_order (config : ServerConfig) (fds : Descriptors)
    (configs : Nat → EngineConfig) (valid : config.validate = none)
    (one : config.workerThreads = 1) {z : Net Engine}
    (h : Reach (Net.step fds (engines config configs)) (Net.Assumed (engines config configs))
      (Net.start config fds (engines config configs)) z) (k i : Nat) :
    (((z.peer k).completedOn i).filter (fun x => x.response.status ≠ .kServerBusy)).map
        (fun x => x.response.requestId) <+ ((z.peer k).issuedOn i).map Ticket.id := by
  obtain ⟨hinv, hline⟩ := Net.reach_inLine (ServerConfig.valid_of_validate valid)
    (by rw [one]; decide) h
  have horder := hinv.told_in_order hline (k, i)
  rw [show z.toldOn (engines config configs) (k, i) =
      ((z.peer k).completedOn i).map Completion.response from listedOn_told (z.peer k) i,
    show z.askedOn (engines config configs) (k, i) = ((z.peer k).issuedOn i).map Ticket.request
      from listedOn_asked (z.peer k) i, List.filter_map, List.map_map, List.map_map] at horder
  exact horder

def oneWorker : ServerConfig := { workerThreads := 1 }

def serveInOrder : List Action :=
  [.loop (.batch [(7, { epollin := true })]), .loop .internal,
    .loop (.recv (.data Server.putGet))] ++ List.replicate 8 (.loop .internal) ++
    [.loop (.control true), .loop .internal] ++ List.replicate 18 (.worker 0 0) ++
    [.loop (.batch [(6, { epollin := true })])] ++ List.replicate 5 (.loop .internal) ++
    [.loop (.send (.sent 49))]

theorem engines_in_order_putGet :
    ∃ z : Net Engine, (z.peer 0).trace.completed.map (fun p => p.2.response.status) =
        [.kOk, .kOk] ∧
      (((z.peer 0).completedOn 0).filter (fun x => x.response.status ≠ .kServerBusy)).map
        (fun x => x.response.requestId) <+ ((z.peer 0).issuedOn 0).map Ticket.id := by
  obtain ⟨z, hr, hcompleted⟩ := exists_reach
    (guarded (Net.step Server.usualFds (engines oneWorker putGetConfig))
      (Net.Assumed (engines oneWorker putGetConfig)))
    (Net.start oneWorker Server.usualFds (engines oneWorker putGetConfig))
    (sendPutGet.map (.peer 0) ++
      [.server (.loop (.batch [(3, { epollin := true })])), .server (.loop .internal),
        .accept 7 0 0, .server (.loop .acceptStop), .server (.loop .internal)] ++
      serveInOrder.map .server ++
      (readPair (serializeResponse ⟨.kPut, .kOk, 1, []⟩ ++
        serializeResponse ⟨.kGet, .kOk, 2, [2]⟩) 2).map (.peer 0))
    (fun z => (z.peer 0).trace.completed.map (fun p => p.2.response.status) = [.kOk, .kOk])
    (by decide +kernel)
  exact ⟨z, hcompleted, engines_in_order oneWorker Server.usualFds putGetConfig
    (by decide +kernel) rfl hr.of_guarded 0 0⟩

end Engine

end LocalCache
