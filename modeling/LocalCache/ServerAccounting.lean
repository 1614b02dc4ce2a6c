import LocalCache.ServerLedger

namespace LocalCache.Server

open Protocol Serializer Library Threads Transition

variable {config : ServerConfig} {fds : Descriptors} {s s' : Server} {a : Action} {o : Outcome}
  {w c : Nat}

@[simp] theorem job_busy (job : Job) : (Loop.busy job).job = some job := rfl

@[simp] theorem job_of_ne {l : Loop} (h : ∀ job, l ≠ .busy job) : l.job = none :=
  Loop.job.eq_2 l h

@[simp] theorem job_of_turn {l : Loop} (h : l.turn = true) : l.job = none := by
  cases l <;> first | rfl | cases h

theorem Accounted.taken {x : Connection} {request : Request} {result : ParseResult}
    (h : s.Accounted config) (hb : s.Buffers config)
    (room : (s.conn c).inflightLimitReached = false)
    (hn : (s.conn c).nextRequest {} = (result, request, x)) (d : Nat) :
    (s.setConn c x.noteRequestSubmitted d).inflight =
        s.outstanding config d + (if c = d then 1 else 0) ∧
      (s.setConn c x.noteRequestSubmitted d).inflight ≤ config.maxInflightPerConn.toNat := by
  have hlt : (s.conn c).inflight < config.maxInflightPerConn.toNat := by
    rw [Connection.inflightLimitReached, (hb c).limits_eq, decide_eq_false_iff_not] at room
    exact Nat.not_le.mp room
  have hx : x.noteRequestSubmitted.inflight = (s.conn c).inflight + 1 := by
    have hsame : x.inflight = (s.conn c).inflight := by rw [Connection.nextRequest_frame hn]
    rw [Connection.noteRequestSubmitted, hsame]
    apply Word64.add_of_lt
    have hmax := config.maxInflightPerConn.toNat_lt
    have hsize : Word64.size = 2 ^ 64 := rfl
    omega
  have hi := h.inflight d
  have hle := h.inflight_le d
  rw [setConn_apply]
  by_cases hd : d = c
  · subst hd
    rw [if_pos rfl, if_pos rfl, hx]
    omega
  · rw [if_neg hd, if_neg (Ne.symm hd)]
    omega

theorem Accounted.tickets_snoc (h : s.Accounted config) (c : Nat) (request : Request) :
    (s.ledger.taken ++ [(⟨c, request, s.ledger.taken.length⟩ : Job)]).map Job.ticket =
      List.range (s.ledger.taken ++ [(⟨c, request, s.ledger.taken.length⟩ : Job)]).length := by
  rw [List.map_append, h.tickets, List.length_append, List.length_singleton, List.range_succ]
  rfl

theorem accounted_submit {x : Connection} {request : Request} {result : ParseResult}
    (h : s.Accounted config) (hb : s.Buffers config)
    (room : (s.conn c).inflightLimitReached = false)
    (hn : (s.conn c).nextRequest {} = (result, request, x)) :
    Accounted config { s with
      conn := s.setConn c x.noteRequestSubmitted
      stats := s.stats.recordRequest
      queue := s.queue ++ [⟨c, request, s.ledger.taken.length⟩]
      ledger := { s.ledger with
        taken := s.ledger.taken ++ [⟨c, request, s.ledger.taken.length⟩] } } where
  tickets := h.tickets_snoc c request
  places := by
    intro j
    have hp := h.places j
    simp only [executing, held, answered, List.count_append] at hp ⊢
    omega
  answers := h.answers
  carries := h.carries
  inflight := by
    intro d
    have hi := (h.taken hb room hn d).1
    simp only [outstanding, List.countP_append, List.countP_singleton,
      decide_eq_true_eq] at hi ⊢
    omega
  inflight_le := fun d => (h.taken hb room hn d).2

theorem accounted_refuse {x : Connection} {request : Request} {result : ParseResult}
    (h : s.Accounted config) (hb : s.Buffers config) (pc : s.loop = .process c)
    (room : (s.conn c).inflightLimitReached = false)
    (hn : (s.conn c).nextRequest {} = (result, request, x)) :
    Accounted config { s with
      conn := s.setConn c x.noteRequestSubmitted
      stats := s.stats.recordRequest.recordRejected
      loop := .busy ⟨c, request, s.ledger.taken.length⟩
      ledger := { s.ledger with
        taken := s.ledger.taken ++ [⟨c, request, s.ledger.taken.length⟩] } } where
  tickets := h.tickets_snoc c request
  places := by
    intro j
    have hp := h.places j
    simp only [executing, held, answered, List.count_append, List.count_singleton, pc,
      Loop.job, Option.some.injEq, beq_iff_eq, reduceCtorEq, if_false] at hp ⊢
    omega
  answers := h.answers
  carries := h.carries
  inflight := by
    intro d
    have hi := (h.taken hb room hn d).1
    simp only [outstanding, pc, Loop.job, Option.map_some, Option.map_none,
      Option.some.injEq, reduceCtorEq, if_false] at hi ⊢
    omega
  inflight_le := fun d => (h.taken hb room hn d).2

theorem inflight_enqueueResponse {x y : Connection} {frame : Bytes} {ok : Bool}
    (h : x.enqueueResponse frame true = some (ok, y)) (hpos : 0 < x.inflight) :
    y.inflight = x.inflight - 1 := by
  obtain ⟨-, -, rfl⟩ | ⟨-, z, hz, rfl⟩ := Connection.enqueueResponse_cases h
  · exact inflight_completeRequest hpos
  · have hsame : z.inflight = x.inflight := by rw [Connection.stage_frame hz]
    rw [if_pos rfl, inflight_completeRequest (hsame ▸ hpos), hsame]

theorem Accounted.busy_pos {job : Job} (h : s.Accounted config) (pc : s.loop = .busy job) :
    0 < (s.conn job.connection).inflight := by
  rw [h.inflight, outstanding, pc, job_busy, Option.map_some, if_pos rfl]
  omega

theorem accounted_busy {job : Job} {ok : Bool} {x : Connection} (h : s.Accounted config)
    (pc : s.loop = .busy job)
    (he : (s.conn job.connection).enqueueResponse (serializeResponse (busyResponse job)) true =
      some (ok, x)) :
    Accounted config { s with
      conn := s.setConn job.connection x
      loop := if ok then .process job.connection else .close job.connection false
      ledger := recordAnswer s.ledger (s.conn job.connection).closed job (busyResponse job) } := by
  have hpos := h.busy_pos pc
  have hjob : Loop.job (if ok then .process job.connection else .close job.connection false) =
      none := by
    cases ok <;> rfl
  have hdropped : (recordAnswer s.ledger (s.conn job.connection).closed job
      (busyResponse job)).dropped = s.ledger.dropped := by
    rw [recordAnswer]
    split <;> rfl
  have hcount := h.lowered ({ s with
      conn := s.setConn job.connection x
      loop := if ok then .process job.connection else .close job.connection false
      ledger := recordAnswer s.ledger (s.conn job.connection).closed job (busyResponse job) })
    hpos rfl (inflight_enqueueResponse he hpos) (by
      intro d
      simp only [outstanding, hjob, hdropped, pc, job_busy, Option.map_some, Option.map_none,
        Option.some.injEq, reduceCtorEq, if_false]
      omega)
  refine ⟨?_, ?_, ?_, h.carries, fun d => (hcount d).1, fun d => (hcount d).2⟩
  · simp only [recordAnswer]
    split <;> exact h.tickets
  · intro j
    have hp := h.places j
    simp only [executing, held, answered, pc, job_busy, hjob, Option.some.injEq, recordAnswer,
      reduceCtorEq, if_false] at hp ⊢
    split
    · simp only [List.count_append, List.count_singleton, beq_iff_eq]
      omega
    · simp only [List.countP_append, List.countP_singleton, Option.some.injEq,
        decide_eq_true_eq]
      omega
  · intro a ha j hj
    simp only [recordAnswer] at ha
    split at ha
    · exact h.answers a ha j hj
    · obtain ha | ha := List.mem_append.mp ha
      · exact h.answers a ha j hj
      · rw [List.mem_singleton.mp ha] at hj ⊢
        cases hj
        exact ⟨rfl, rfl, rfl⟩

theorem accounted_immediate {response : Response} {ok : Bool} {x : Connection}
    (h : s.Accounted config) (pc : s.loop = .immediate c response)
    (he : (s.conn c).enqueueResponse (serializeResponse response) false = some (ok, x)) :
    Accounted config { s with
      conn := s.setConn c (if ok then { x with closeAfterFlush := true } else x)
      loop := if ok then .flush c .done else .close c true
      ledger :=
        if (s.conn c).closed then s.ledger
        else { s.ledger with answers := s.ledger.answers ++ [⟨c, none, response⟩] } } := by
  have hx : x.inflight = (s.conn c).inflight := by
    obtain ⟨-, -, rfl⟩ | ⟨-, z, hz, rfl⟩ := Connection.enqueueResponse_cases he
    · rfl
    · rw [Connection.stage_frame hz]
  have hpc : s.loop.job = none := by rw [pc]; rfl
  have hjob : Loop.job (if ok then .flush c .done else .close c true) = none := by
    cases ok <;> rfl
  have hinflight := setConn_congr Connection.inflight (s := s) (c := c)
    (x := if ok then { x with closeAfterFlush := true } else x) (by cases ok <;> exact hx)
  cases hc : (s.conn c).closed with
  | true =>
    exact h.frame rfl rfl rfl rfl rfl rfl (hjob.trans hpc.symm) hinflight
  | false =>
    refine ⟨h.tickets, ?_, ?_, h.carries, ?_, ?_⟩
    · intro j
      have hp := h.places j
      simp only [executing, held, answered, hpc, hjob, Bool.false_eq_true, if_false,
        List.countP_append, List.countP_singleton, reduceCtorEq, decide_false] at hp ⊢
      omega
    · intro a ha j hj
      obtain ha | ha := List.mem_append.mp ha
      · exact h.answers a ha j hj
      · rw [List.mem_singleton.mp ha] at hj
        cases hj
    · intro d
      have hi := h.inflight d
      simp only [outstanding, hpc] at hi
      simp only [outstanding, hjob, Bool.false_eq_true, if_false]
      rw [hinflight]
      exact hi
    · intro d
      exact hinflight d ▸ h.inflight_le d

theorem accounted_stopExpired (h : s.Accounted config) (pc : s.loop = .stopWait) :
    Accounted config { s with
      queue := []
      stopping := true
      loop := .join
      ledger := { s.ledger with dropped := s.ledger.dropped ++ s.queue } } where
  tickets := h.tickets
  places := by
    intro j
    have hp := h.places j
    simp only [executing, held, answered, pc, Loop.job, List.count_append, List.count_nil,
      reduceCtorEq, if_false] at hp ⊢
    omega
  answers := h.answers
  carries := h.carries
  inflight := by
    intro d
    have hi := h.inflight d
    simp only [outstanding, pc, Loop.job, List.countP_append, List.countP_nil, Option.map_none,
      reduceCtorEq, if_false] at hi ⊢
    omega
  inflight_le := h.inflight_le

theorem accounted_loop (h : s.Accounted config) (hb : s.Buffers config) (ht : s.Tabled config)
    (hs : LoopStep config fds s o s') : s'.Accounted config := by
  cases hs with
  | submit c request x error n pc room hn => exact accounted_submit h hb room hn
  | refuse c request x error n pc room hn => exact accounted_refuse h hb pc room hn
  | busy job ok x pc he => exact accounted_busy h pc he
  | immediate c response ok x pc he => exact accounted_immediate h pc he
  | stopExpired pc => exact accounted_stopExpired h pc
  | opened fd pc =>
    refine h.frame rfl rfl rfl rfl rfl rfl rfl (setConn_congr Connection.inflight ?_)
    rw [ht.fresh _ (Nat.le_refl _)]
  | finish pc =>
    refine h.frame rfl rfl rfl rfl rfl rfl (by rw [pc]; rfl) (fun c => ?_)
    rw [closeAll]
    dsimp only
    split <;> rfl
  | ready c rest pc =>
    refine h.frame rfl rfl rfl rfl rfl rfl ?_ (setConn_congr Connection.inflight rfl)
    simp only [pc]
    split <;> rfl
  | flushMore c k x pc hr =>
    refine h.frame rfl rfl rfl rfl rfl rfl (by simp [pc]) (setConn_congr Connection.inflight ?_)
    rw [Connection.refill_frame hr]
  | flushed c k x pc hr =>
    refine h.frame rfl rfl rfl rfl rfl rfl (by simp [pc]) (setConn_congr Connection.inflight ?_)
    rw [Connection.refill_frame hr]
  | needMore c out x error n pc room hn =>
    refine h.frame rfl rfl rfl rfl rfl rfl (by simp [pc]) (setConn_congr Connection.inflight ?_)
    rw [Connection.nextRequest_frame hn]
  | malformed c out x error n id opcode pc room hn =>
    refine h.frame rfl rfl rfl rfl rfl rfl (by simp [pc]) (setConn_congr Connection.inflight ?_)
    rw [Connection.nextRequest_frame hn]
  | unidentified c out x error n pc room hn =>
    refine h.frame rfl rfl rfl rfl rfl rfl (by simp [pc]) (setConn_congr Connection.inflight ?_)
    rw [Connection.nextRequest_frame hn]
  | sent c _ _ pc | readData c _ pc | closedBefore c _ pc | close c _ pc | register c _ pc =>
    refine h.frame rfl rfl rfl rfl rfl rfl ?_ (setConn_congr Connection.inflight rfl)
    simp [pc, apply_ite Loop.job]
  | _ =>
    refine h.frame rfl rfl rfl rfl rfl rfl ?_ (fun _ => rfl)
    simp_all [apply_ite Loop.job, leave]

theorem step_accounted (h : s.Accounted config) (hb : s.Buffers config) (ht : s.Tabled config)
    (hs : Step config fds s a s') : s'.Accounted config := by
  cases hs with
  | loop hl => exact accounted_loop h hb ht hl
  | worker hw hs => exact accounted_worker h hw hs
  | requestShutdown => exact h.frame rfl rfl rfl rfl rfl rfl rfl (fun _ => rfl)

end LocalCache.Server
