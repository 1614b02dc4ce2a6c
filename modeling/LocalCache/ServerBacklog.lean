import LocalCache.ServerCache
import LocalCache.ServerStreams

namespace LocalCache

open Protocol Serializer Library Transition Threads RequestStream

def Loop.reply : Loop → Option (Nat × Response)
  | .immediate c response => some (c, response)
  | _ => none

/-- The bytes that a `recv` adds to the input if `process_input` runs after it. -/
def Action.brings : Action → Option Bytes
  | .loop (.recv (.data bytes)) => some bytes
  | .loop (.recv .eintr) => some []
  | _ => none

def Loop.reading : Loop → Option Nat
  | .read c => some c
  | _ => none

namespace Server

/-- The condition on a read: if the connection then holds a request or a malformed frame, its
backlog is not over the hard cap, and all it holds fits what is left of the in-flight window. -/
def ReadsUnderCap (s : Server) (a : Action) : Prop :=
  ∀ c ∈ s.loop.reading, ∀ bytes ∈ a.brings,
    demand (s.conn c).limits.protocolLimits ((s.conn c).unconsumed ++ bytes) = 0 ∨
      (s.conn c).pendingOutputBytes ≤ 2 * (s.conn c).limits.maxOutputBytes.toNat ∧
        demand (s.conn c).limits.protocolLimits ((s.conn c).unconsumed ++ bytes) +
          (s.conn c).inflight ≤ (s.conn c).limits.maxInflight.toNat

instance (s : Server) (a : Action) : Decidable (s.ReadsUnderCap a) :=
  inferInstanceAs (Decidable (∀ c ∈ s.loop.reading, ∀ bytes ∈ a.brings, _ = 0 ∨ _ ∧ _))

def frameBound (config : ServerConfig) : Nat := kHeaderSize + valueBound config

def backlogBound (config : ServerConfig) : Nat :=
  2 * config.maxConnOutputBytes.toNat + config.maxInflightPerConn.toNat * frameBound config

def staging (c : Nat) (pc : Worker) : Nat :=
  if pc.job.map Job.connection = some c then 1 else 0

def unstaged (config : ServerConfig) (s : Server) (c : Nat) : Nat :=
  s.queue.countP (fun j => j.connection = c) +
    total config.workerThreads.toNat (staging c) s.worker +
    (if s.loop.job.map Job.connection = some c then 1 else 0)

def replyBytes (l : Loop) (c : Nat) : Nat :=
  l.reply.elim 0 (fun p => if p.1 = c then (serializeResponse p.2).length else 0)

/-- What `process_input` has still to take off the connection it is at. -/
def untaken (config : ServerConfig) (s : Server) (c : Nat) : Nat :=
  if s.loop.parses = some c then
    demand config.connectionLimits.protocolLimits (s.conn c).unconsumed
  else 0

/-- The responses that may still be staged for a connection before it is read again. -/
def due (config : ServerConfig) (s : Server) (c : Nat) : Nat :=
  s.unstaged config c + s.untaken config c

/-- The backlog of every connection, with all that may still be added to it. -/
def Backlogged (config : ServerConfig) (s : Server) : Prop :=
  ∀ c, (s.conn c).pendingOutputBytes + frameBound config * s.due config c +
    replyBytes s.loop c ≤ backlogBound config

variable {config : ServerConfig} {fds : Descriptors} {s s' : Server} {a : Action} {o : Outcome}
  {w c : Nat} {x : Connection}

theorem staging_le_owing (c : Nat) (pc : Worker) : staging c pc ≤ owing c pc := by
  cases pc <;> simp [staging, owing, Worker.job, Worker.owes]

theorem unstaged_le (h : s.Accounted config) (c : Nat) :
    s.unstaged config c ≤ (s.conn c).inflight := by
  have hle := total_mono (staging_le_owing c) config.workerThreads.toNat s.worker
  rw [h.inflight, unstaged, outstanding]
  omega

theorem unstaged_setWorker (pc : Worker) (hw : w < config.workerThreads.toNat)
    (worker : s'.worker = s.setWorker w pc) (queue : s'.queue = s.queue)
    (loop : s'.loop = s.loop) (c : Nat) :
    s'.unstaged config c + staging c (s.worker w) = s.unstaged config c + staging c pc := by
  have hu := total_setWorker hw s (staging c) pc
  rw [unstaged, unstaged, worker, queue, loop]
  omega

theorem untaken_worker (ha : s.Accounted config) (hw : w < config.workerThreads.toNat)
    (hs : WorkerStep s w s') (c : Nat) : s'.untaken config c ≤ s.untaken config c := by
  have hloop : s'.loop = s.loop := by cases hs <;> rfl
  have none : ∀ d, s.incoming (.worker w 0) d = [] := by
    intro d
    unfold incoming
    split
    · rename_i h
      cases h
    · rfl
  cases inputStep_worker ha hw none c hs with
  | fed input =>
    rw [none, List.append_nil] at input
    rw [untaken, hloop, input]
    exact Nat.le_refl _
  | took _ _ _ act => cases act

theorem unstaged_le_setWorker {pc : Worker} (hw : w < config.workerThreads.toNat)
    (worker : s'.worker = s.setWorker w pc) (queue : s'.queue = s.queue)
    (loop : s'.loop = s.loop) (hpc : ∀ c, staging c pc ≤ staging c (s.worker w)) (c : Nat) :
    s'.unstaged config c ≤ s.unstaged config c := by
  have hu := unstaged_setWorker pc hw worker queue loop c
  have hle := hpc c
  omega

theorem unstaged_settled {pc : Worker} (hw : w < config.workerThreads.toNat)
    (worker : s'.worker = s.setWorker w pc) (queue : s'.queue = s.queue)
    (loop : s'.loop = s.loop) (hold : (s.worker w).job.map Job.connection = some c)
    (hpc : pc.job = none) (d : Nat) :
    s'.unstaged config d + (if c = d then 1 else 0) = s.unstaged config d := by
  have hu := unstaged_setWorker pc hw worker queue loop d
  have hone : staging d (s.worker w) = if c = d then 1 else 0 := by
    rw [staging, hold]
    simp
  have hnone : staging d pc = 0 := by rw [staging, hpc]; rfl
  omega

theorem due_le (taken : ∀ c, s'.untaken config c ≤ s.untaken config c)
    (unstaged : ∀ c, s'.unstaged config c ≤ s.unstaged config c) (c : Nat) :
    s'.due config c ≤ s.due config c :=
  Nat.add_le_add (unstaged c) (taken c)

theorem due_settled (taken : ∀ d, s'.untaken config d ≤ s.untaken config d)
    (settled : ∀ d, s'.unstaged config d + (if c = d then 1 else 0) = s.unstaged config d)
    (d : Nat) : s'.due config d + (if c = d then 1 else 0) ≤ s.due config d := by
  have ht := taken d
  have hu := settled d
  rw [due, due]
  omega

/-- Responses that are due are turned into bytes, each into at most the longest frame. -/
theorem Backlogged.convert (h : s.Backlogged config)
    (turn : ∀ c, ∃ n m, (s'.conn c).pendingOutputBytes ≤ (s.conn c).pendingOutputBytes + n ∧
      n + replyBytes s'.loop c ≤ frameBound config * m + replyBytes s.loop c ∧
      s'.due config c + m ≤ s.due config c) : s'.Backlogged config := by
  intro c
  obtain ⟨n, m, hpending, hbytes, hdue⟩ := turn c
  have hc := h c
  have hmul := Nat.mul_le_mul_left (frameBound config) hdue
  rw [Nat.mul_add] at hmul
  omega

theorem Backlogged.frame (h : s.Backlogged config)
    (pending : ∀ c, (s'.conn c).pendingOutputBytes ≤ (s.conn c).pendingOutputBytes)
    (due : ∀ c, s'.due config c ≤ s.due config c)
    (reply : ∀ c, replyBytes s'.loop c ≤ replyBytes s.loop c) : s'.Backlogged config := by
  refine h.convert (fun c => ⟨0, 0, pending c, ?_, due c⟩)
  rw [Nat.zero_add, Nat.mul_zero, Nat.zero_add]
  exact reply c

theorem Backlogged.staged {n : Nat} (h : s.Backlogged config) (conn : s'.conn = s.setConn c x)
    (hx : x.pendingOutputBytes ≤ (s.conn c).pendingOutputBytes + n)
    (hn : n ≤ frameBound config)
    (due : ∀ d, s'.due config d + (if c = d then 1 else 0) ≤ s.due config d)
    (reply : ∀ d, replyBytes s'.loop d ≤ replyBytes s.loop d) : s'.Backlogged config := by
  refine h.convert (fun d => ⟨if c = d then n else 0, if c = d then 1 else 0, ?_, ?_, due d⟩)
  · rw [conn, setConn_apply]
    by_cases hd : d = c
    · subst hd
      rw [if_pos rfl, if_pos rfl]
      exact hx
    · rw [if_neg hd]
      exact Nat.le_add_right _ _
  · have hr := reply d
    split
    · omega
    · omega

theorem pending_stage {frame : Bytes} {overLimit : Bool} {y : Connection}
    (hx : x.Sound config.connectionLimits) (h : x.stage frame = some (overLimit, y)) :
    y.pendingOutputBytes = x.pendingOutputBytes + frame.length := by
  have hy := hx.counted.stage h
  rw [hy.pending_eq, hx.counted.pending_eq, Connection.unsent_stage h, List.length_append]

theorem pending_enqueueResponse {frame : Bytes} {completes ok : Bool} {y : Connection}
    (hx : x.Sound config.connectionLimits)
    (h : x.enqueueResponse frame completes = some (ok, y)) :
    y.pendingOutputBytes ≤ x.pendingOutputBytes + frame.length := by
  obtain ⟨-, -, rfl⟩ | ⟨-, z, hz, rfl⟩ := Connection.enqueueResponse_cases h
  · cases completes <;> exact Nat.le_add_right _ _
  · have hp := pending_stage hx hz
    cases completes <;> exact Nat.le_of_eq hp

theorem pending_advance {n : Nat} (hx : x.Sound config.connectionLimits) (hn : n ≤ x.remaining) :
    (x.advance n).pendingOutputBytes ≤ x.pendingOutputBytes := by
  have hlen := congrArg List.length (Connection.unsent_advance n x)
  rw [List.length_append] at hlen
  rw [(hx.counted.advance hn).pending_eq, hx.counted.pending_eq]
  omega

theorem pending_setConn (hx : x.pendingOutputBytes ≤ (s.conn c).pendingOutputBytes) (d : Nat) :
    (s.setConn c x d).pendingOutputBytes ≤ (s.conn d).pendingOutputBytes := by
  rw [setConn_apply]
  split
  · rename_i hd
    rw [hd]
    exact hx
  · exact Nat.le_refl _

theorem frame_le {response : Response} (h : response.value.length ≤ valueBound config) :
    (serializeResponse response).length ≤ frameBound config := by
  rw [ResponseCodec.length_serializeResponse, frameBound]
  omega

theorem backlogged_worker (h : s.Backlogged config) (hc : s.Core config)
    (hcached : s.Cached config) (hw : w < config.workerThreads.toNat)
    (hs : WorkerStep s w s') : s'.Backlogged config := by
  have htaken := untaken_worker hc.accounted hw hs
  cases hs with
  | take job queue pc hq =>
    refine h.frame (fun _ => Nat.le_refl _) (due_le htaken fun c => ?_) (fun _ => Nat.le_refl _)
    have hu := total_setWorker hw s (staging c) (.run job)
    have hold : staging c (s.worker w) = 0 := by rw [pc]; rfl
    have hnew : staging c (.run job) = if job.connection = c then 1 else 0 := by
      simp [staging, Worker.job]
    rw [hold, hnew] at hu
    simp only [unstaged, hq, List.countP_cons, decide_eq_true_eq]
    omega
  | stage job response overLimit x pc hx =>
    have hlen := frame_le (hcached.sized w response (by rw [pc]; rfl))
    exact h.staged rfl (Nat.le_of_eq (pending_stage (hc.buffers _) hx)) hlen
      (due_settled htaken (unstaged_settled hw rfl rfl rfl (by rw [pc]; rfl) rfl))
      (fun _ => Nat.le_refl _)
  | discard job pc | decrement c healthy pc | unhealthy c pc | notify c pc =>
    refine h.frame (pending_setConn (Nat.le_refl _))
      (due_le htaken (unstaged_le_setWorker hw rfl rfl rfl ?_)) (fun _ => Nat.le_refl _)
    intro d
    first | exact Nat.zero_le _ | (cases healthy <;> exact Nat.zero_le _)
  | run _ _ _ _ _ pc | record _ _ _ pc | checkClosed _ _ pc | checkOpen _ _ pc =>
    refine h.frame (fun _ => Nat.le_refl _)
      (due_le htaken (unstaged_le_setWorker hw rfl rfl rfl ?_)) (fun _ => Nat.le_refl _)
    intro d
    rw [pc]
    exact Nat.le_refl _
  | exit pc | notified _ pc | push _ pc | write _ pc | finish _ pc =>
    exact h.frame (fun _ => Nat.le_refl _)
      (due_le htaken (unstaged_le_setWorker hw rfl rfl rfl (fun _ => Nat.zero_le _)))
      (fun _ => Nat.le_refl _)

@[simp] theorem reply_immediate (c : Nat) (response : Response) :
    (Loop.immediate c response).reply = some (c, response) := rfl

@[simp] theorem reply_of_ne {l : Loop} (h : ∀ c response, l ≠ .immediate c response) :
    l.reply = none :=
  Loop.reply.eq_2 l h

@[simp] theorem reply_of_turn {l : Loop} (h : l.turn = true) : l.reply = none := by
  cases l <;> first | rfl | cases h

theorem parses_of_turn {l : Loop} (h : l.turn = true) : l.parses = none := by
  cases l <;> first | rfl | cases h

theorem job_of_parses {l : Loop} (h : l.parses = none) : l.job = none := by
  cases l <;> first | rfl | cases h

theorem untaken_of_parses (h : s.loop.parses = none) (c : Nat) : s.untaken config c = 0 := by
  rw [untaken, h]
  rfl

theorem unstaged_of_job (queue : s'.queue = s.queue) (worker : s'.worker = s.worker)
    (job : s'.loop.job = s.loop.job) (c : Nat) : s'.unstaged config c = s.unstaged config c := by
  rw [unstaged, unstaged, queue, worker, job]

theorem Backlogged.quiet (h : s.Backlogged config)
    (pending : ∀ c, (s'.conn c).pendingOutputBytes ≤ (s.conn c).pendingOutputBytes)
    (queue : s'.queue = s.queue) (worker : s'.worker = s.worker)
    (parses : s'.loop.parses = none) (reply : s'.loop.reply = none) : s'.Backlogged config := by
  refine h.frame pending (fun c => ?_) (fun c => ?_)
  · rw [due, untaken_of_parses parses]
    refine Nat.le_trans ?_ (Nat.le_add_right _ _)
    simp [unstaged, queue, worker, job_of_parses parses]
  · rw [replyBytes, reply]
    exact Nat.zero_le _

/-- A read that leaves something to take finds the backlog under the cap, and what it leaves
fits the in-flight window. -/
theorem Backlogged.read {bytes : Bytes} (h : s.Backlogged config) (hc : s.Core config)
    (under : s.ReadsUnderCap a) (pc : s.loop = .read c) (brings : a.brings = some bytes)
    (conn : s'.conn = s.setConn c { s.conn c with inBuf := (s.conn c).inBuf ++ bytes })
    (queue : s'.queue = s.queue) (worker : s'.worker = s.worker) (loop : s'.loop = .process c) :
    s'.Backlogged config := by
  have hpending : ∀ d, (s'.conn d).pendingOutputBytes = (s.conn d).pendingOutputBytes := by
    intro d
    rw [conn]
    exact setConn_congr Connection.pendingOutputBytes
      (x := { s.conn c with inBuf := (s.conn c).inBuf ++ bytes }) rfl d
  have hunstaged : ∀ d, s'.unstaged config d = s.unstaged config d :=
    unstaged_of_job queue worker (by rw [loop, pc]; rfl)
  have hinput : (s'.conn c).unconsumed = (s.conn c).unconsumed ++ bytes := by
    rw [conn, setConn_same, Connection.unconsumed,
      List.drop_append_of_le_length (hc.buffers c).inPos_le]
    rfl
  have hcap := under c (by rw [pc]; rfl) bytes brings
  rw [(hc.buffers c).limits_eq] at hcap
  -- Without new work the step is a frame step.
  have idle : ∀ d, s'.untaken config d = 0 → (s'.conn d).pendingOutputBytes +
      frameBound config * s'.due config d + replyBytes s'.loop d ≤ backlogBound config := by
    intro d hzero
    have hd := h d
    have hmul := Nat.mul_le_mul_left (frameBound config)
      (Nat.le_add_right (s.unstaged config d) (s.untaken config d))
    rw [due] at hd
    rw [due, hzero, hunstaged, hpending, loop, Nat.add_zero, replyBytes]
    exact Nat.le_trans (by simpa using hmul) (Nat.le_trans (Nat.le_add_right _ _) hd)
  intro d
  by_cases hdc : d = c
  · subst hdc
    have htake : s'.untaken config d =
        demand config.connectionLimits.protocolLimits ((s.conn d).unconsumed ++ bytes) := by
      rw [untaken, loop, hinput]
      exact if_pos rfl
    obtain hzero | ⟨hpend, hroom⟩ := hcap
    · exact idle d (htake.trans hzero)
    · have hdue : s'.due config d ≤ config.maxInflightPerConn.toNat := by
        rw [due, hunstaged, htake, Nat.add_comm]
        exact Nat.le_trans (Nat.add_le_add_left (unstaged_le hc.accounted d) _) hroom
      have hmul := Nat.mul_le_mul_right (frameBound config) hdue
      rw [Nat.mul_comm (s'.due config d)] at hmul
      have hreply : replyBytes s'.loop d = 0 := by rw [loop]; rfl
      rw [hpending, hreply, Nat.add_zero, backlogBound]
      exact Nat.add_le_add hpend hmul
  · refine idle d ?_
    rw [untaken, loop]
    exact if_neg (fun he => hdc (Option.some.inj he).symm)

theorem untaken_process (pc : s.loop.parses = some c) (d : Nat) :
    s.untaken config d =
      if c = d then demand config.connectionLimits.protocolLimits (s.conn c).unconsumed else 0 := by
  rw [untaken, pc]
  by_cases hd : c = d
  · subst hd
    rw [if_pos rfl, if_pos rfl]
  · rw [if_neg (fun he => hd (Option.some.inj he)), if_neg hd]

theorem untaken_took {request : Request} {error : ParseError} {n : Nat} (hb : s.Buffers config)
    (pc : s.loop = .process c)
    (next : (s.conn c).nextRequest {} = (⟨.kComplete, error, n⟩, request, x))
    (conn : s'.conn = s.setConn c x.noteRequestSubmitted) (parses : s'.loop.parses = some c)
    (d : Nat) : s'.untaken config d + (if c = d then 1 else 0) = s.untaken config d := by
  obtain ⟨hlim, -, hdem, -⟩ := nextRequest_demand next
  rw [hlim, (hb c).limits_eq] at hdem
  rw [untaken_process parses, untaken_process (c := c) (by rw [pc]; rfl), conn, setConn_same]
  split
  · exact hdem
  · rfl

theorem untaken_malformed {out : Request} {error : ParseError} {n : Nat} (hb : s.Buffers config)
    (pc : s.loop = .process c)
    (next : (s.conn c).nextRequest {} = (⟨.kMalformed, error, n⟩, out, x)) (d : Nat) :
    s.untaken config d = if c = d then 1 else 0 := by
  rw [untaken_process (c := c) (by rw [pc]; rfl)]
  obtain ⟨_, -, hr, -⟩ | ⟨-, hr, -⟩ | ⟨e, hh, -, -⟩ := Connection.nextRequest_cases next
  · cases hr
  · cases hr
  · rw [(hb c).limits_eq] at hh
    rw [demand, Framing.parse_bad hh]
    rfl

theorem Backlogged.took {request : Request} {error : ParseError} {n : Nat}
    (h : s.Backlogged config) (hb : s.Buffers config) (pc : s.loop = .process c)
    (next : (s.conn c).nextRequest {} = (⟨.kComplete, error, n⟩, request, x))
    (conn : s'.conn = s.setConn c x.noteRequestSubmitted) (parses : s'.loop.parses = some c)
    (unstaged : ∀ d, s'.unstaged config d = s.unstaged config d + if c = d then 1 else 0)
    (reply : s'.loop.reply = none) : s'.Backlogged config := by
  refine h.frame (fun d => ?_) (fun d => ?_) (fun d => ?_)
  · rw [conn]
    refine pending_setConn ?_ d
    rw [Connection.nextRequest_frame next]
    exact Nat.le_refl _
  · have ht := untaken_took hb pc next conn parses d
    have hu := unstaged d
    rw [due, due]
    omega
  · rw [replyBytes, reply]
    exact Nat.zero_le _

theorem Backlogged.malformed {out : Request} {error : ParseError} {n : Nat} {response : Response}
    (h : s.Backlogged config) (hb : s.Buffers config) (pc : s.loop = .process c)
    (next : (s.conn c).nextRequest {} = (⟨.kMalformed, error, n⟩, out, x))
    (conn : s'.conn = s.setConn c x) (queue : s'.queue = s.queue) (worker : s'.worker = s.worker)
    (loop : s'.loop = .immediate c response) (hvalue : response.value = []) :
    s'.Backlogged config := by
  refine h.convert (fun d => ⟨0, if c = d then 1 else 0, ?_, ?_, ?_⟩)
  · rw [conn]
    refine pending_setConn ?_ d
    rw [Connection.nextRequest_frame next]
  · have hframe : (serializeResponse response).length ≤ frameBound config :=
      frame_le (by rw [hvalue]; exact Nat.zero_le _)
    have hreply : replyBytes s'.loop d =
        if c = d then (serializeResponse response).length else 0 := by
      rw [loop]
      rfl
    rw [hreply]
    split
    · omega
    · omega
  · have ht := untaken_malformed hb pc next d
    have hu : s'.unstaged config d = s.unstaged config d :=
      unstaged_of_job queue worker (by rw [loop, pc]; rfl) d
    have hz : s'.untaken config d = 0 := untaken_of_parses (by rw [loop]; rfl) d
    rw [due, due]
    omega

theorem Backlogged.replied {response : Response} (h : s.Backlogged config)
    (pc : s.loop = .immediate c response) (conn : s'.conn = s.setConn c x)
    (hx : x.pendingOutputBytes ≤
      (s.conn c).pendingOutputBytes + (serializeResponse response).length)
    (queue : s'.queue = s.queue) (worker : s'.worker = s.worker)
    (parses : s'.loop.parses = none) (reply : s'.loop.reply = none) : s'.Backlogged config := by
  refine h.convert (fun d => ⟨replyBytes s.loop d, 0, ?_, ?_, ?_⟩)
  · rw [conn, setConn_apply, pc, replyBytes, reply_immediate, Option.elim_some]
    by_cases hd : d = c
    · subst hd
      rw [if_pos rfl, if_pos rfl]
      exact hx
    · rw [if_neg hd]
      exact Nat.le_add_right _ _
  · have hz : replyBytes s'.loop d = 0 := by rw [replyBytes, reply]; rfl
    omega
  · have hjob : s'.loop.job = s.loop.job := by rw [job_of_parses parses, pc]; rfl
    rw [due, untaken_of_parses parses, unstaged_of_job queue worker hjob]
    exact Nat.le_add_right _ _

theorem backlogged_loop (h : s.Backlogged config) (hc : s.Core config)
    (under : s.ReadsUnderCap (.loop o)) (hs : LoopStep config fds s o s') :
    s'.Backlogged config := by
  have hb := hc.buffers
  cases hs with
  | readData c bytes pc => exact h.read hc under pc rfl rfl rfl rfl rfl
  | readRetry c pc =>
    refine h.read hc under pc rfl ?_ rfl rfl rfl
    simp [setConn]
  | submit c request x error n pc room next =>
    refine h.took hb pc next rfl (by rw [pc]; rfl) (fun d => ?_) (by rw [pc]; rfl)
    simp only [unstaged, List.countP_append, List.countP_singleton, decide_eq_true_eq]
    omega
  | refuse c request x error n pc room next =>
    refine h.took hb pc next rfl rfl (fun d => ?_) rfl
    simp [unstaged, pc]
  | malformed c out x error n id opcode pc room next =>
    exact h.malformed hb pc next rfl rfl rfl rfl rfl
  | busy job ok x pc he =>
    have hlen : (serializeResponse (busyResponse job)).length ≤ frameBound config :=
      frame_le (Nat.zero_le _)
    refine h.staged rfl (pending_enqueueResponse (hb _) he) hlen
      (due_settled (fun d => ?_) (fun d => ?_)) (fun d => ?_)
    · have hinput := (Connection.Keeps.of_enqueueResponse he
        (fun _ => hc.accounted.busy_pos pc)).input
      rw [untaken_process (s := s) (c := job.connection) (by rw [pc]; rfl)]
      cases ok with
      | false => exact Nat.zero_le _
      | true =>
        rw [untaken_process (c := job.connection) rfl]
        dsimp only
        rw [setConn_same, hinput]
    · simp [unstaged, pc, apply_ite Loop.job]
    · simp [replyBytes, apply_ite Loop.reply]
  | immediate c response ok x pc he =>
    have hx := pending_enqueueResponse (hb c) he
    cases ok <;> exact h.replied pc rfl hx rfl rfl rfl rfl
  | stopExpired pc =>
    refine h.frame (fun _ => Nat.le_refl _) (due_le (fun c => ?_) fun c => ?_) (fun c => ?_)
    · rw [untaken_of_parses rfl]
      exact Nat.zero_le _
    · simp [unstaged, pc]
    · exact Nat.zero_le _
  | opened fd pc =>
    refine h.quiet (pending_setConn (Nat.zero_le _)) rfl rfl ?_ ?_ <;>
      simp [openConnection, pc, Loop.parses]
  | finish pc =>
    refine h.quiet (fun c => ?_) rfl rfl rfl rfl
    rw [closeAll]
    dsimp only
    split <;> exact Nat.le_refl _
  | ready c | closedBefore c | close c | register c =>
    refine h.quiet (pending_setConn (Nat.le_refl _)) rfl rfl ?_ ?_ <;>
      simp [↓apply_ite Loop.parses, Loop.parses, apply_ite Loop.reply]
  | sent c k n pc le =>
    exact h.quiet (pending_setConn (pending_advance (hb c) le)) rfl rfl rfl rfl
  | flushMore c k x pc hr =>
    refine h.quiet (pending_setConn ?_) rfl rfl rfl rfl
    rw [Connection.refill_frame hr]
  | flushed c k x pc hr =>
    refine h.quiet (pending_setConn ?_) rfl rfl (parses_of_turn (turn_resume s c k))
      (reply_of_turn (turn_resume s c k))
    rw [Connection.refill_frame hr]
  | needMore c out x error n pc room next | unidentified c out x error n pc room next =>
    refine h.quiet (pending_setConn ?_) rfl rfl rfl rfl
    rw [Connection.nextRequest_frame next]
  | _ =>
    refine h.quiet (fun _ => Nat.le_refl _) rfl rfl ?_ ?_ <;>
      simp_all [↓apply_ite Loop.parses, ↓parses_of_turn, Loop.parses, apply_ite Loop.reply, leave]

theorem backlogged_start (config : ServerConfig) (fds : Descriptors) :
    (start config fds).Backlogged config := by
  intro c
  have hz : total config.workerThreads.toNat (staging c) (start config fds).worker = 0 :=
    total_eq_zero_iff.mpr (fun _ _ => rfl)
  rw [due, unstaged, hz]
  exact Nat.zero_le _

/-- If every read that leaves a connection something to take finds its backlog within the hard
cap and the in-flight window wide enough for all of it, the backlog never exceeds the cap by more
than the responses to one window of requests. -/
theorem backlog_bounded (config : ServerConfig) (fds : Descriptors) {s : Server}
    (h : Reach (step config fds) ReadsUnderCap (start config fds) s) (c : Nat) :
    (s.conn c).pendingOutputBytes ≤ 2 * config.maxConnOutputBytes.toNat +
      config.maxInflightPerConn.toNat * (24 + max config.maxValueBytes.toNat 114) := by
  have hp : s.Cached config ∧ s.Backlogged config := by
    refine core_invariant (P := fun s => s.Cached config ∧ s.Backlogged config)
      ⟨cached_start config fds, backlogged_start config fds⟩ ?_ h
    intro s a s' hc under hp hs
    refine ⟨step_cached hp.1 hs, ?_⟩
    cases hs with
    | loop hl => exact backlogged_loop hp.2 hc under hl
    | worker hw hs => exact backlogged_worker hp.2 hc hp.1 hw hs
    | requestShutdown =>
      exact hp.2.frame (fun _ => Nat.le_refl _) (fun _ => Nat.le_refl _) (fun _ => Nat.le_refl _)
  have hb := hp.2 c
  exact Nat.le_trans (Nat.le_trans (Nat.le_add_right _ _) (Nat.le_add_right _ _)) hb

def narrow : ServerConfig :=
  { maxValueBytes := 1, maxConnOutputBytes := 1, maxInflightPerConn := 1, workerThreads := 1 }

def submitAndAnswer : List Action := .loop .internal :: List.replicate 6 (.worker 0 0)

theorem backlog_bounded_one :
    ∃ s : Server, Reach (step narrow usualFds) ReadsUnderCap (start narrow usualFds) s ∧
      (s.conn 1).pendingOutputBytes = 24 ∧ (s.conn 1).pendingOutputBytes ≤ 140 := by
  obtain ⟨s, hr, hp⟩ := exists_reach (guarded (step narrow usualFds) ReadsUnderCap)
    (start narrow usualFds)
    (connect 7 ++ [.loop (.batch [(7, { epollin := true })]), .loop .internal,
      .loop (.recv (.data (ping 1)))] ++ submitAndAnswer)
    (fun s => (s.conn 1).pendingOutputBytes = 24) (by decide +kernel)
  exact ⟨s, hr.of_guarded, hp, backlog_bounded narrow usualFds hr.of_guarded 1⟩

/-- Six requests in one read, each answered before the next is taken: nothing stops
`process_input` while the backlog grows past the cap and past the bound. -/
theorem backlog_exceeds_bound :
    narrow.validate = none ∧ 2 * narrow.maxConnOutputBytes.toNat < 2 ^ 64 ∧
      ∃ s : Server, Reach (step narrow usualFds) Free (start narrow usualFds) s ∧
        (7, 1) ∈ s.connections ∧ (s.conn 1).closed = false ∧
        2 * narrow.maxConnOutputBytes.toNat +
          narrow.maxInflightPerConn.toNat * (24 + max narrow.maxValueBytes.toNat 114) <
          (s.conn 1).pendingOutputBytes := by
  refine ⟨by decide +kernel, by decide +kernel, ?_⟩
  exact exists_reach (step narrow usualFds) (start narrow usualFds)
    (connect 7 ++ [.loop (.batch [(7, { epollin := true })]), .loop .internal,
      .loop (.recv (.data (ping 1 ++ ping 2 ++ ping 3 ++ ping 4 ++ ping 5 ++ ping 6)))] ++
      submitAndAnswer ++ List.replicate 5 (.worker 0 0) ++
      (List.replicate 5 (submitAndAnswer ++ List.replicate 3 (.worker 0 0))).flatten) _
    (by decide +kernel)

end Server

end LocalCache
