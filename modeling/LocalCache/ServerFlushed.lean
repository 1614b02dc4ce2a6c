import LocalCache.ServerMalformed
import LocalCache.ServerParsing

namespace LocalCache

open Protocol Serializer Library Transition RequestStream Framing

def Worker.spoils : Worker → Option Nat
  | .decrement c false | .unhealthy c => some c
  | _ => none

def Worker.answering : Worker → Option (Job × Response)
  | .stage job response => some (job, response)
  | _ => none

def Action.mover : Action → Option Nat
  | .worker w _ => some w
  | _ => none

namespace Server

/-- The condition on what marks a connection for closing: a malformed frame is met only when
all the requests before it are answered, and no response is staged above the hard cap. -/
def MarksIdle (s : Server) (a : Action) : Prop :=
  (a = .loop .internal → ∀ c ∈ s.loop.parses, s.MeetsMalformed c → (s.conn c).inflight = 0) ∧
    ∀ w ∈ a.mover, ∀ p ∈ (s.worker w).answering,
      (s.conn p.1.connection).WithinCap (serializeResponse p.2)

instance (s : Server) (a : Action) : Decidable (s.MarksIdle a) :=
  inferInstanceAs (Decidable ((_ → ∀ c ∈ s.loop.parses, _ → _ = _) ∧
    ∀ w ∈ a.mover, ∀ p ∈ (s.worker w).answering,
      (s.conn p.1.connection).WithinCap (serializeResponse p.2)))

def Exhausted (config : ServerConfig) (s : Server) (c : Nat) : Prop :=
  (s.conn c).inflight = 0 ∧
    ∃ e, head config.connectionLimits.protocolLimits (s.conn c).unconsumed = .bad e

structure Marked (config : ServerConfig) (s : Server) : Prop where
  flag : ∀ c, (s.conn c).closeAfterFlush = true → (s.conn c).closed = true ∨ s.Exhausted config c
  reply : ∀ p ∈ s.loop.reply, s.Exhausted config p.1
  workers : ∀ w, ∀ c ∈ (s.worker w).spoils, (s.conn c).closed = true

variable {config : ServerConfig} {fds : Descriptors} {s s' : Server} {a : Action} {o : Outcome}
  {w c : Nat} {x : Connection}

theorem step_exhausted (hc : s.Core config) (hs : step config fds s a = some s')
    (h : s.Exhausted config c) : s'.Exhausted config c := by
  obtain ⟨hidle, e, hbad⟩ := h
  obtain ⟨hbad', hle, -⟩ := step_malformed hc hs hbad
  rw [hidle] at hle
  exact ⟨Nat.le_zero.mp hle, e, hbad'⟩

theorem flag_setConn (hx : x.closeAfterFlush = (s.conn c).closeAfterFlush) {d : Nat}
    (h : (s.setConn c x d).closeAfterFlush = true) : (s.conn d).closeAfterFlush = true := by
  rw [← setConn_congr Connection.closeAfterFlush hx d]
  exact h

theorem flag_setConn_or {d : Nat} (h : (s.setConn c x d).closeAfterFlush = true) :
    d = c ∨ (s.conn d).closeAfterFlush = true := by
  by_cases hd : d = c
  · exact .inl hd
  · rw [setConn_of_ne hd] at h
    exact .inr h

theorem step_flag (ht : s.Tabled config) (hs : Step config fds s a s')
    (h : (s'.conn c).closeAfterFlush = true) :
    (s.conn c).closeAfterFlush = true ∨ (s'.conn c).closed = true ∨
      (a = .loop .internal ∧ s.MeetsMalformed c) ∨
      (∃ response, s.loop = .immediate c response) ∨ ∃ w, s.worker w = .unhealthy c := by
  cases hs with
  | loop hl =>
    cases hl with
    | unidentified d out x error n pc room next =>
      obtain rfl | hold := flag_setConn_or h
      · exact .inr (.inr (.inl ⟨rfl, pc, room, (nextRequest_status next).symm⟩))
      · exact .inl hold
    | immediate d response ok x pc he =>
      obtain rfl | hold := flag_setConn_or h
      · exact .inr (.inr (.inr (.inl ⟨response, pc⟩)))
      · exact .inl hold
    | closedBefore d malformed pc closed =>
      obtain rfl | hold := flag_setConn_or h
      · right
        left
        dsimp only
        rw [setConn_same]
        exact closed
      · exact .inl hold
    | close d malformed pc =>
      obtain rfl | hold := flag_setConn_or h
      · right
        left
        dsimp only
        rw [setConn_same]
      · exact .inl hold
    | opened fd pc =>
      refine .inl (flag_setConn ?_ h)
      rw [ht.fresh _ (Nat.le_refl _)]
    | finish pc =>
      left
      rw [closeAll] at h
      dsimp only at h
      split at h <;> exact h
    | flushMore d k x pc hr | flushed d k x pc hr =>
      refine .inl (flag_setConn ?_ h)
      rw [Connection.refill_frame hr]
    | needMore d out x error n pc room hn =>
      refine .inl (flag_setConn ?_ h)
      rw [Connection.nextRequest_frame hn]
    | malformed d out x error n id opcode pc room hn =>
      refine .inl (flag_setConn ?_ h)
      rw [Connection.nextRequest_frame hn]
    | submit d request x error n pc room hn | refuse d request x error n pc room hn =>
      refine .inl (flag_setConn ?_ h)
      rw [Connection.nextRequest_frame hn]
      rfl
    | busy job ok x pc he =>
      refine .inl (flag_setConn ?_ h)
      rw [Connection.enqueueResponse_frame he]
    | ready d | sent d | readData d | register d =>
      refine .inl (flag_setConn ?_ h)
      rfl
    | _ => exact .inl h
  | @worker w _ _ hw hs =>
    cases hs with
    | stage job response overLimit x pc hx =>
      refine .inl (flag_setConn ?_ h)
      rw [Connection.stage_frame hx]
    | unhealthy d pc =>
      obtain rfl | hold := flag_setConn_or h
      · exact .inr (.inr (.inr (.inr ⟨w, pc⟩)))
      · exact .inl hold
    | discard job | decrement d | notify d =>
      refine .inl (flag_setConn ?_ h)
      rfl
    | _ => exact .inl h
  | requestShutdown => exact .inl h

theorem step_reply {p : Nat × Response} (hs : Step config fds s a s')
    (h : s'.loop.reply = some p) :
    s.loop.reply = some p ∨ a = .loop .internal ∧ s.MeetsMalformed p.1 := by
  cases hs with
  | loop hl =>
    cases hl with
    | malformed c out x error n id opcode pc room next =>
      cases h
      exact .inr ⟨rfl, pc, room, (nextRequest_status next).symm⟩
    | opened fd pc | submit _ _ _ _ _ pc => exact .inl h
    | finish pc => cases h
    | _ => simp_all [apply_ite Loop.reply, leave]
  | worker _ hs => cases hs <;> exact .inl h
  | requestShutdown => exact .inl h

theorem MarksIdle.exhausted (h : s.MarksIdle (.loop .internal)) (hb : s.Buffers config)
    (meets : s.MeetsMalformed c) : s.Exhausted config c := by
  obtain ⟨e, hbad⟩ := head_of_meetsMalformed meets
  rw [(hb c).limits_eq] at hbad
  refine ⟨h.1 rfl c ?_ meets, e, hbad⟩
  rw [meets.1]
  rfl

theorem spoils_setWorker {pc : Worker} {P : Nat → Prop}
    (h : ∀ v, ∀ c ∈ (s.worker v).spoils, P c) (hpc : ∀ c ∈ pc.spoils, P c) (v : Nat) :
    ∀ c ∈ (s.setWorker w pc v).spoils, P c := by
  rw [setWorker_apply]
  split
  · exact hpc
  · exact h v

theorem spoils_step (h : s.Marked config) (hd : s.Discards) (ok : s.MarksIdle a)
    (hs : Step config fds s a s') : ∀ v, ∀ c ∈ (s'.worker v).spoils, (s.conn c).closed = true := by
  cases hs with
  | loop hl =>
    have hsame : s'.worker = s.worker := by cases hl <;> rfl
    rw [hsame]
    exact h.workers
  | @worker w uptimeMs _ hw hs =>
    cases hs with
    | discard job pc =>
      apply spoils_setWorker h.workers
      rintro c ⟨⟩
      exact hd.workers w job pc
    | stage job response overLimit x pc hx =>
      apply spoils_setWorker h.workers
      intro c hc
      have hunder := ok.2 w rfl (job, response) (by rw [pc]; rfl)
      cases overLimit with
      | false => cases hc
      | true => exact absurd hunder ((Connection.overLimit_of_stage hx).mp rfl)
    | decrement d healthy pc =>
      apply spoils_setWorker h.workers
      intro c hc
      cases healthy with
      | true => cases hc
      | false =>
        cases hc
        exact h.workers w d (by rw [pc]; rfl)
    | _ =>
      apply spoils_setWorker h.workers
      rintro c ⟨⟩
  | requestShutdown => exact h.workers

theorem step_marked (h : s.Marked config) (hc : s.Core config) (ok : s.MarksIdle a)
    (hs : step config fds s a = some s') : s'.Marked config where
  flag := by
    intro c hf
    have hstep := step_sound hs
    obtain hf | hclosed | ⟨rfl, meets⟩ | ⟨response, pc⟩ | ⟨w, pc⟩ := step_flag hc.tabled hstep hf
    · exact (h.flag c hf).imp (step_closed hc.tabled hstep) (step_exhausted hc hs)
    · exact .inl hclosed
    · exact .inr (step_exhausted hc hs (ok.exhausted hc.buffers meets))
    · exact .inr (step_exhausted hc hs (h.reply (c, response) (by rw [pc]; rfl)))
    · exact .inl (step_closed hc.tabled hstep (h.workers w c (by rw [pc]; rfl)))
  reply := by
    intro p hp
    obtain hold | ⟨rfl, meets⟩ := step_reply (step_sound hs) hp
    · exact step_exhausted hc hs (h.reply p hold)
    · exact step_exhausted hc hs (ok.exhausted hc.buffers meets)
  workers := by
    intro w c hw
    exact step_closed hc.tabled (step_sound hs)
      (spoils_step h hc.discards ok (step_sound hs) w c hw)

theorem reach_marked (h : Reach (step config fds) MarksIdle (start config fds) s) :
    s.Marked config := by
  have hp : s.Core config ∧ s.Marked config := by
    refine h.invariant (P := fun s => s.Core config ∧ s.Marked config)
      ⟨core_start config fds, ?_⟩ ?_
    · refine ⟨fun c hf => ?_, fun p hp => ?_, fun w c hw => ?_⟩
      · cases hf
      · cases hp
      · cases hw
    · intro s a s' hp ok hs
      exact ⟨step_core hp.1 (step_sound hs), step_marked hp.2 hp.1 ok hs⟩
  exact hp.2

theorem closeCheck_closes (pc : s.loop = .closeCheck c)
    (hs : step config fds s (.loop .internal) = some s') (closes : s'.loop = .close c false) :
    (s.conn c).closeAfterFlush = true ∧ (s.conn c).hasPendingOutput = false := by
  simp only [step, loopStep, pc, Option.some.injEq] at hs
  obtain rfl := hs
  dsimp only at closes
  split at closes
  · rename_i hboth
    simpa using hboth
  · refine absurd closes ?_
    exact updateInterest_where (P := fun l => l ≠ .close c false) s c (by simp) (by simp)

/-- If a malformed frame is met only when the requests before it are answered, and no response
goes above the hard cap, then a connection is closed after a flush only when nothing of it is in
flight: the requests in front of the malformed frame are all that was taken, every one of them
was answered, and the socket has all the frames. -/
theorem close_after_flush_complete (config : ServerConfig) (fds : Descriptors) {f f' : Fed}
    {c : Nat}
    (h : Reach (Fed.step config fds) (fun f a => f.server.MarksIdle a) (Fed.start config fds) f)
    (pc : f.server.loop = .closeCheck c) (opened : (f.server.conn c).closed = false)
    (hs : f.step config fds (.loop .internal) = some f')
    (closes : f'.server.loop = .close c false) :
    (f.server.conn c).inflight = 0 ∧ (f.server.conn c).pendingOutputBytes = 0 ∧
      (∃ e, parse (head config.connectionLimits.protocolLimits) (f.received c) =
        ((f.server.takenOn c).map Job.request, some e)) ∧
      (∀ j ∈ f.server.takenOn c, f.server.answered j = 1) ∧
      f.server.ledger.accepted c = f.server.frames c := by
  have hr := Fed.reach_server MarksIdle h
  have hc := reach_core hr
  obtain ⟨flag, flushed⟩ := closeCheck_closes pc (Fed.step_server hs).1 closes
  obtain ⟨hidle, e, hbad⟩ := ((reach_marked hr).flag c flag).resolve_left (by simp [opened])
  obtain ⟨hzero, haccepted⟩ := hc.accepted_of_flushed flushed
  refine ⟨hidle, hzero, ⟨e, ?_⟩, ?_, haccepted⟩
  · rw [(Fed.reach_tracked MarksIdle h c).parse_eq, parse_bad hbad]
    simp [after]
  · intro j hj
    obtain ⟨hmem, hconn⟩ := List.mem_filter.mp hj
    obtain rfl := of_decide_eq_true hconn
    exact hc.answered_of_idle hmem hidle opened

def noise : Bytes := List.replicate 24 0

/-- A request and a malformed frame in one read, where the request is answered before
`process_input` comes to the frame. -/
theorem close_after_flush_complete_answered :
    ∃ f : Fed, f.server.loop = .closeCheck 1 ∧ (f.server.takenOn 1).length = 1 ∧
      (f.server.conn 1).inflight = 0 ∧ f.server.ledger.accepted 1 = f.server.frames 1 := by
  obtain ⟨f, hr, pc, opened, htaken, hstep⟩ := exists_reach
    (guarded (Fed.step usualConfig usualFds) (fun f a => f.server.MarksIdle a))
    (Fed.start usualConfig usualFds)
    (connect 7 ++ [.loop (.batch [(7, { epollin := true })]), .loop .internal,
      .loop (.recv (.data (ping 1 ++ noise)))] ++ submitAndAnswer ++
      List.replicate 2 (.loop .internal) ++ [.loop (.send (.sent 24)), .loop .internal])
    (fun f => f.server.loop = .closeCheck 1 ∧ (f.server.conn 1).closed = false ∧
      (f.server.takenOn 1).length = 1 ∧ (f.step usualConfig usualFds (.loop .internal)).any
        (fun f' => f'.server.loop = .close 1 false) = true)
    (by decide +kernel)
  obtain ⟨f', hs, closes⟩ := (Option.any_eq_true _ _).mp hstep
  obtain ⟨hidle, -, -, -, haccepted⟩ := close_after_flush_complete usualConfig usualFds
    hr.of_guarded pc opened hs (of_decide_eq_true closes)
  exact ⟨f, pc, htaken, hidle, haccepted⟩

/-- A request and a malformed frame in one read: the connection is closed while the request is
in flight, and its response is thrown away. -/
theorem close_drops_request :
    usualConfig.validate = none ∧
      (∃ f : Fed, Reach (Fed.step usualConfig usualFds) Free (Fed.start usualConfig usualFds) f ∧
        f.server.loop = .closeCheck 1 ∧ (f.server.conn 1).closed = false ∧
        (f.server.conn 1).inflight = 1 ∧ (f.step usualConfig usualFds (.loop .internal)).any
          (fun f' => f'.server.loop = .close 1 false) = true) ∧
      ∃ f : Fed, Reach (Fed.step usualConfig usualFds) Free (Fed.start usualConfig usualFds) f ∧
        f.received 1 = ping 1 ++ noise ∧ (f.server.takenOn 1).length = 1 ∧
        f.server.ledger.discarded = f.server.takenOn 1 ∧ f.server.ledger.accepted 1 = [] := by
  refine ⟨by decide +kernel, ?_, ?_⟩
  · refine exists_reach (Fed.step usualConfig usualFds) (Fed.start usualConfig usualFds)
      (connect 7 ++ [.loop (.batch [(7, { epollin := true })]),
        .loop .internal, .loop (.recv (.data (ping 1 ++ noise)))] ++
        List.replicate 3 (.loop .internal)) _ ?_
    decide +kernel
  · refine exists_reach (Fed.step usualConfig usualFds) (Fed.start usualConfig usualFds)
      (connect 7 ++ [.loop (.batch [(7, { epollin := true })]),
        .loop .internal, .loop (.recv (.data (ping 1 ++ noise)))] ++
        List.replicate 5 (.loop .internal) ++ List.replicate 5 (.worker 0 0)) _ ?_
    decide +kernel

end Server

end LocalCache
