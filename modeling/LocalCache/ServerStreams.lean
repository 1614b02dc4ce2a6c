import LocalCache.ServerInput

namespace LocalCache

open Protocol Serializer Library Transition RequestStream Framing

namespace Connection.Keeps

variable {x y : Connection}

theorem of_enqueueResponse {frame : Bytes} {completes ok : Bool}
    (h : x.enqueueResponse frame completes = some (ok, y))
    (hpos : completes = true → 0 < x.inflight) : Keeps x y := by
  have hf := Connection.enqueueResponse_frame h
  have hle : y.inflight ≤ x.inflight := by
    cases completes with
    | true =>
      rw [Server.inflight_enqueueResponse h (hpos rfl)]
      exact Nat.sub_le _ _
    | false =>
      obtain ⟨-, -, rfl⟩ | ⟨-, z, hz, rfl⟩ := Connection.enqueueResponse_cases h
      · exact Nat.le_refl _
      · rw [Connection.stage_frame hz]
  refine ⟨?_, ?_, ?_, ?_, hle⟩ <;> rw [hf]
  · rfl
  · exact id
  · exact id

theorem of_nextRequest {out request : Request} {result : ParseResult}
    (h : x.nextRequest out = (result, request, y)) (hr : result.status ≠ .kComplete) :
    Keeps x y := by
  have hinput : y.unconsumed = x.unconsumed := by
    obtain ⟨n, -, rfl, -⟩ | ⟨-, -, rfl⟩ | ⟨e, -, -, rfl⟩ := Connection.nextRequest_cases h
    · exact absurd rfl hr
    · exact Connection.unconsumed_compactInput _
    · rfl
  refine ⟨hinput, ?_, ?_, ?_, ?_⟩ <;> rw [Connection.nextRequest_frame h]
  · exact id
  · exact id

end Connection.Keeps

namespace Server

def takenOn (s : Server) (c : Nat) : List Job :=
  s.ledger.taken.filter (fun j => j.connection = c)

def incoming (s : Server) (a : Action) (c : Nat) : Bytes :=
  match s.loop, a with
  | .read d, .loop (.recv (.data bytes)) => if d = c then bytes else []
  | _, _ => []

inductive InputStep (s : Server) (a : Action) (s' : Server) (c : Nat) : Prop
  | fed (input : (s'.conn c).unconsumed = (s.conn c).unconsumed ++ s.incoming a c)
      (inflight : (s'.conn c).inflight ≤ (s.conn c).inflight)
      (taken : s'.takenOn c = s.takenOn c)
  | took (request : Request) (n : Nat) (pc : s.loop = .process c) (act : a = .loop .internal)
      (head : head (s.conn c).limits.protocolLimits (s.conn c).unconsumed = .item request n)
      (input : (s'.conn c).unconsumed = (s.conn c).unconsumed.drop n)
      (taken : s'.takenOn c = s.takenOn c ++ [⟨c, request, s.ledger.taken.length⟩])

variable {config : ServerConfig} {fds : Descriptors} {s s' : Server} {a : Action} {o : Outcome}
  {w c d : Nat} {x : Connection}

theorem incoming_internal (s : Server) (c : Nat) : s.incoming (.loop .internal) c = [] := by
  unfold incoming
  split
  · simp_all
  · rfl

theorem takenOn_append (s : Server) (j : Job) (c : Nat) :
    (s.ledger.taken ++ [j]).filter (fun j => j.connection = c) =
      s.takenOn c ++ if j.connection = c then [j] else [] := by
  rw [List.filter_append, takenOn]
  by_cases hj : j.connection = c <;> simp [hj]

theorem InputStep.keeps (none : ∀ d, s.incoming a d = []) (conn : s'.conn = s.setConn c x)
    (keeps : (s.conn c).Keeps x) (taken : s'.ledger.taken = s.ledger.taken) :
    InputStep s a s' d := by
  have htaken : s'.takenOn d = s.takenOn d := by rw [takenOn, taken, takenOn]
  refine .fed ?_ ?_ htaken
  · rw [none, List.append_nil, conn]
    exact setConn_congr Connection.unconsumed keeps.input d
  · rw [conn, setConn_apply]
    split
    · rename_i hd
      exact hd ▸ keeps.inflight
    · exact Nat.le_refl _

theorem InputStep.still (none : ∀ d, s.incoming a d = []) (conn : s'.conn = s.conn)
    (taken : s'.ledger.taken = s.ledger.taken) : InputStep s a s' d := by
  refine .keeps none (c := d) (x := s.conn d) ?_ (.refl _) taken
  rw [conn, setConn, Function.update_eq_self]

theorem inputStep_took {request : Request} {error : ParseError} {n : Nat} (d : Nat)
    (pc : s.loop = .process c)
    (next : (s.conn c).nextRequest {} = (⟨.kComplete, error, n⟩, request, x))
    (conn : s'.conn = s.setConn c x.noteRequestSubmitted)
    (taken : s'.ledger.taken = s.ledger.taken ++ [⟨c, request, s.ledger.taken.length⟩]) :
    InputStep s (.loop .internal) s' d := by
  obtain ⟨m, hh, hres, rfl⟩ | ⟨-, hres, -⟩ | ⟨e, -, hres, -⟩ := Connection.nextRequest_cases next
  · have htaken := takenOn_append s ⟨c, request, s.ledger.taken.length⟩ d
    rw [← taken] at htaken
    by_cases hd : d = c
    · subst hd
      refine .took request m pc rfl hh ?_ ?_
      · rw [conn, setConn_same]
        exact Connection.unconsumed_consume m _
      · rw [if_pos rfl] at htaken
        exact htaken
    · refine .fed ?_ ?_ ?_
      · rw [conn, setConn_of_ne hd, incoming_internal, List.append_nil]
      · rw [conn, setConn_of_ne hd]
      · rw [if_neg (Ne.symm hd), List.append_nil] at htaken
        exact htaken
  · cases hres
  · cases hres

theorem inputStep_worker (ha : s.Accounted config) (hw : w < config.workerThreads.toNat)
    (none : ∀ d, s.incoming a d = []) (d : Nat) (hs : WorkerStep s w s') :
    InputStep s a s' d := by
  cases hs with
  | stage job response overLimit x pc hx => exact .keeps none rfl (.of_stage hx) rfl
  | discard job pc =>
    have hpos := ha.inflight_pos hw (c := job.connection) (by rw [pc]; rfl)
    exact .keeps none rfl (.of_complete hpos) rfl
  | decrement c healthy pc =>
    have hpos := ha.inflight_pos hw (c := c) (by rw [pc]; rfl)
    exact .keeps none rfl (.of_complete hpos) rfl
  | unhealthy c pc => exact .keeps none rfl ⟨rfl, rfl, id, fun _ => rfl, Nat.le_refl _⟩ rfl
  | notify c pc => exact .keeps none rfl ⟨rfl, rfl, id, id, Nat.le_refl _⟩ rfl
  | _ => exact .still none rfl rfl

theorem inputStep_loop (hc : s.Core config) (none : ∀ d, s.incoming (.loop o) d = [])
    (data : ∀ c bytes, s.loop = .read c → o ≠ .recv (.data bytes)) (d : Nat)
    (hs : LoopStep config fds s o s') : InputStep s (.loop o) s' d := by
  cases hs with
  | submit c request x error n pc room next => exact inputStep_took d pc next rfl rfl
  | refuse c request x error n pc room next => exact inputStep_took d pc next rfl rfl
  | readData c bytes pc => exact absurd rfl (data c bytes pc)
  | needMore c out x error n pc room next | malformed c out x error n id opcode pc room next =>
    exact .keeps none rfl (.of_nextRequest next (by simp)) rfl
  | unidentified c out x error n pc room next =>
    obtain ⟨hinput, hlimits, hclosed, -, hinflight⟩ :=
      Connection.Keeps.of_nextRequest next (by simp)
    exact .keeps none rfl ⟨hinput, hlimits, hclosed, fun _ => rfl, hinflight⟩ rfl
  | busy job ok x pc he =>
    refine .keeps none rfl (.of_enqueueResponse he (fun _ => hc.accounted.busy_pos pc)) ?_
    simp only [recordAnswer]
    split <;> rfl
  | immediate c response ok x pc he =>
    obtain ⟨hinput, hlimits, hclosed, hflag, hinflight⟩ :=
      Connection.Keeps.of_enqueueResponse he (by simp)
    refine .keeps none rfl ?_ ?_
    · cases ok with
      | true => exact ⟨hinput, hlimits, hclosed, fun _ => rfl, hinflight⟩
      | false => exact ⟨hinput, hlimits, hclosed, hflag, hinflight⟩
    · dsimp only
      split <;> rfl
  | opened fd pc =>
    refine .keeps none rfl ?_ rfl
    rw [hc.tabled.fresh _ (Nat.le_refl _)]
    exact ⟨rfl, rfl, id, id, Nat.le_refl _⟩
  | finish pc =>
    refine .fed ?_ ?_ rfl
    · rw [none, List.append_nil, closeAll]
      dsimp only
      split <;> rfl
    · rw [closeAll]
      dsimp only
      split <;> exact Nat.le_refl _
  | flushMore c k x pc hr | flushed c k x pc hr => exact .keeps none rfl (.of_refill hr) rfl
  | closedBefore c malformed pc closed =>
    exact .keeps none rfl ⟨rfl, rfl, id, fun hf => by simp [hf], Nat.le_refl _⟩ rfl
  | close c malformed pc =>
    exact .keeps none rfl ⟨rfl, rfl, fun _ => rfl, fun hf => by simp [hf], Nat.le_refl _⟩ rfl
  | ready c | sent c | register c =>
    exact .keeps none rfl ⟨rfl, rfl, id, id, Nat.le_refl _⟩ rfl
  | _ => exact .still none rfl rfl

theorem step_read {bytes : Bytes} (pc : s.loop = .read c)
    (h : step config fds s (.loop (.recv (.data bytes))) = some s') :
    s' = { s with
      conn := s.setConn c { s.conn c with inBuf := (s.conn c).inBuf ++ bytes }
      loop := .process c } := by
  simp only [step, loopStep, pc, onRead, Connection.readSome] at h
  split at h
  · exact (Option.some.inj h).symm
  · cases h

theorem inputStep_read {bytes : Bytes} (hb : s.Buffers config) (pc : s.loop = .read c)
    (h : step config fds s (.loop (.recv (.data bytes))) = some s') (d : Nat) :
    InputStep s (.loop (.recv (.data bytes))) s' d := by
  obtain rfl := step_read pc h
  have hin : s.incoming (.loop (.recv (.data bytes))) d = if c = d then bytes else [] := by
    unfold incoming
    rw [pc]
  refine .fed ?_ ?_ rfl
  · rw [hin]
    dsimp only
    by_cases hd : d = c
    · subst hd
      rw [setConn_same, if_pos rfl, Connection.unconsumed,
        List.drop_append_of_le_length (hb d).inPos_le]
      rfl
    · rw [setConn_of_ne hd, if_neg (Ne.symm hd), List.append_nil]
  · refine Nat.le_of_eq (setConn_congr Connection.inflight ?_ d)
    rfl

theorem inputStep_of_step (hc : s.Core config) (h : step config fds s a = some s') (d : Nat) :
    InputStep s a s' d := by
  by_cases hr : ∃ c bytes, s.loop = .read c ∧ a = .loop (.recv (.data bytes))
  · obtain ⟨c, bytes, pc, rfl⟩ := hr
    exact inputStep_read hc.buffers pc h d
  · have none : ∀ d, s.incoming a d = [] := by
      intro d
      unfold incoming
      split
      · exact absurd ⟨_, _, ‹_›, rfl⟩ hr
      · rfl
    cases step_sound h with
    | loop hl =>
      refine inputStep_loop hc none ?_ d hl
      rintro c bytes pc rfl
      exact hr ⟨c, bytes, pc, rfl⟩
    | worker hw hs => exact inputStep_worker hc.accounted hw none d hs
    | requestShutdown => exact .still none rfl rfl

end Server

/-- The server with the streams that its clients have sent so far. -/
structure Fed where
  server : Server
  received : Nat → Bytes := fun _ => []

namespace Fed

variable {config : ServerConfig} {fds : Descriptors} {f f' : Fed} {a : Action} {c : Nat}

def start (config : ServerConfig) (fds : Descriptors) : Fed where
  server := .start config fds

def step (config : ServerConfig) (fds : Descriptors) (f : Fed) (a : Action) : Option Fed :=
  (f.server.step config fds a).map fun s' =>
    ⟨s', fun c => f.received c ++ f.server.incoming a c⟩

theorem step_server (h : f.step config fds a = some f') :
    f.server.step config fds a = some f'.server ∧
      ∀ c, f'.received c = f.received c ++ f.server.incoming a c := by
  rw [step, Option.map_eq_some_iff] at h
  obtain ⟨s', hs, rfl⟩ := h
  exact ⟨hs, fun _ => rfl⟩

theorem reach_server (ok : Server → Action → Prop)
    (h : Reach (step config fds) (fun f a => ok f.server a) (start config fds) f) :
    Reach (Server.step config fds) ok (.start config fds) f.server := by
  induction h with
  | refl => exact .refl
  | tail _ hok hs ih => exact .tail ih hok (step_server hs).1

def Tracked (config : ServerConfig) (f : Fed) : Prop :=
  ∀ c, Tracks (head config.connectionLimits.protocolLimits) (f.received c)
    ((f.server.takenOn c).map Job.request) (f.server.conn c).unconsumed

theorem step_tracked (h : f.Tracked config) (hc : f.server.Core config)
    (hs : f.step config fds a = some f') : f'.Tracked config := by
  intro c
  obtain ⟨hstep, hreceived⟩ := step_server hs
  rw [hreceived]
  cases Server.inputStep_of_step hc hstep c with
  | fed input inflight taken =>
    rw [input, taken]
    exact (h c).feed _
  | took request n pc act hh input taken =>
    rw [(hc.buffers c).limits_eq] at hh
    rw [act, Server.incoming_internal, List.append_nil, input, taken, List.map_append]
    exact (h c).take (head_incremental _) hh

theorem reach_tracked (ok : Server → Action → Prop)
    (h : Reach (step config fds) (fun f a => ok f.server a) (start config fds) f) :
    f.Tracked config := by
  have hp : f.server.Core config ∧ f.Tracked config := by
    refine h.invariant (P := fun f => f.server.Core config ∧ f.Tracked config)
      ⟨Server.core_start config fds, fun _ => tracks_nil⟩ ?_
    intro f a f' hp _ hs
    exact ⟨Server.step_core hp.1 (Server.step_sound (step_server hs).1),
      step_tracked hp.2 hp.1 hs⟩
  exact hp.2

end Fed

end LocalCache
