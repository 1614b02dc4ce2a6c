import LocalCache.ServerBacklog
import LocalCache.ServerStreams

namespace LocalCache

open Protocol Serializer Library Transition RequestStream Framing

def Loop.marks : Loop → Option Nat
  | .immediate c _ | .close c true => some c
  | _ => none

/-- The loop takes no request and has no reply to a malformed frame in its hands. -/
def Loop.quiet : Loop → Bool
  | .process _ | .busy _ | .immediate _ _ | .close _ true => false
  | _ => true

theorem Loop.quiet_spec {l : Loop} (h : l.quiet = true) :
    l.parses = none ∧ l.reply = none ∧ l.marks = none := by
  unfold Loop.quiet at h
  split at h
  case h_5 => cases l <;> simp_all [Loop.parses, Loop.reply, Loop.marks]
  all_goals cases h

namespace Server

def verdict (s : Server) (c : Nat) : ParseStatus :=
  (deserializeRequest (s.conn c).unconsumed (s.conn c).limits.protocolLimits {}).1.status

def MeetsMalformed (s : Server) (c : Nat) : Prop :=
  s.loop = .process c ∧ (s.conn c).inflightLimitReached = false ∧ s.verdict c = .kMalformed

instance (s : Server) (c : Nat) : Decidable (s.MeetsMalformed c) :=
  inferInstanceAs (Decidable (_ ∧ _ ∧ _))

def errorReplies (s : Server) (c : Nat) : Nat :=
  s.ledger.answers.countP (fun a => a.connection = c ∧ a.job = none)

/-- The condition on reads: a connection marked for closing is not read again. -/
def ReadsUnmarked (s : Server) (a : Action) : Prop :=
  ∀ c ∈ s.loop.reading, (s.conn c).closeAfterFlush = true → a.brings = none

instance (s : Server) (a : Action) : Decidable (s.ReadsUnmarked a) :=
  inferInstanceAs (Decidable (∀ c ∈ s.loop.reading, _ → _ = _))

/-- A connection whose malformed frame was met: nobody takes anything off its input, it is
marked for closing or about to be, and its replies stay under `n`. -/
structure Ended (s : Server) (c n : Nat) : Prop where
  idle : s.loop.parses ≠ some c
  marked : (s.conn c).closeAfterFlush = true ∨ s.loop.marks = some c
  replies : s.errorReplies c + (if s.loop.reply.map Prod.fst = some c then 1 else 0) ≤ n

variable {config : ServerConfig} {fds : Descriptors} {s s' : Server} {a : Action} {o : Outcome}
  {w c d n : Nat} {x y : Connection}

@[simp] theorem quiet_of_ne {l : Loop} (process : ∀ c, l ≠ .process c)
    (busy : ∀ job, l ≠ .busy job) (immediate : ∀ c response, l ≠ .immediate c response)
    (close : ∀ c, l ≠ .close c true) : l.quiet = true :=
  Loop.quiet.eq_5 l process busy immediate close

@[simp] theorem quiet_of_turn {l : Loop} (h : l.turn = true) : l.quiet = true := by
  unfold Loop.turn at h
  split at h <;> first | rfl | cases h

theorem errorReplies_append (s : Server) (answer : Answer) (c : Nat) :
    (s.ledger.answers ++ [answer]).countP (fun a => a.connection = c ∧ a.job = none) =
      s.errorReplies c + if answer.connection = c ∧ answer.job = none then 1 else 0 := by
  rw [List.countP_append, List.countP_singleton, errorReplies]
  simp

theorem Ended.frame (h : s.Ended c n) (marks : (s.conn c).Marks (s'.conn c))
    (replies : s'.errorReplies c = s.errorReplies c) (before : s.loop.marks ≠ some c)
    (idle : s'.loop.parses ≠ some c) (reply : s'.loop.reply.map Prod.fst ≠ some c) :
    s'.Ended c n where
  idle := idle
  marked := .inl (marks.flag (h.marked.resolve_right before))
  replies := by
    rw [if_neg reply, replies]
    exact Nat.le_trans (Nat.le_add_right _ _) h.replies

theorem Ended.quiet (h : s.Ended c n) (marks : (s.conn c).Marks (s'.conn c))
    (answers : s'.ledger.answers = s.ledger.answers) (before : s.loop.marks = none)
    (after : s'.loop.quiet = true) : s'.Ended c n := by
  obtain ⟨hparses, hreply, -⟩ := Loop.quiet_spec after
  refine h.frame marks ?_ ?_ ?_ ?_
  · rw [errorReplies, answers]
    rfl
  · simp [before]
  · simp [hparses]
  · simp [hreply]

theorem ended_worker (h : s.Ended c n) (marks : (s.conn c).Marks (s'.conn c))
    (hs : WorkerStep s w s') : s'.Ended c n := by
  have keep : s'.loop = s.loop → s'.errorReplies c = s.errorReplies c → s'.Ended c n := by
    intro loop replies
    refine ⟨loop ▸ h.idle, ?_, ?_⟩
    · rw [loop]
      exact h.marked.imp_left marks.flag
    · rw [loop, replies]
      exact h.replies
  cases hs with
  | stage job response overLimit x pc hx =>
    apply keep rfl
    rw [errorReplies, errorReplies_append]
    simp
  | _ => exact keep rfl rfl

theorem ended_loop (h : s.Ended c n) (marks : (s.conn c).Marks (s'.conn c))
    (unmarked : s.ReadsUnmarked (.loop o)) (hs : LoopStep config fds s o s') :
    s'.Ended c n := by
  have hidle := h.idle
  -- A connection that is being read is not the one that ended.
  have hread : ∀ d, s.loop = .read d → (Action.loop o).brings ≠ none → d ≠ c := by
    rintro d pc hbrings rfl
    have hflag := h.marked.resolve_right (by rw [pc]; simp [Loop.marks])
    exact hbrings (unmarked d (by rw [pc]; rfl) hflag)
  cases hs with
  | readData d bytes pc =>
    refine h.frame marks rfl (by simp [pc, Loop.marks]) ?_ (by simp)
    simpa [Loop.parses] using hread d pc (by simp [Action.brings])
  | readRetry d pc =>
    refine h.frame marks rfl (by simp [pc, Loop.marks]) ?_ (by simp)
    simpa [Loop.parses] using hread d pc (by simp [Action.brings])
  | malformed d out x error m id opcode pc =>
    refine h.frame marks rfl (by simp [pc, Loop.marks]) (by simp [Loop.parses]) ?_
    simpa [pc, Loop.parses] using hidle
  | submit d request x error m pc =>
    exact h.frame marks rfl (by simp [pc, Loop.marks]) hidle (by simp [pc])
  | refuse d request x error m pc =>
    refine h.frame marks rfl (by simp [pc, Loop.marks]) ?_ (by simp)
    simpa [pc, Loop.parses] using hidle
  | busy job ok x pc he =>
    refine h.frame marks ?_ (by simp [pc, Loop.marks]) ?_ ?_
    · simp only [errorReplies, recordAnswer]
      split
      · rfl
      · rw [errorReplies_append]
        simp [errorReplies]
    · cases ok with
      | true => simpa [pc, Loop.parses] using hidle
      | false => simp [Loop.parses]
    · simp [apply_ite Loop.reply]
  | immediate d response ok x pc he =>
    have hle := h.replies
    refine ⟨?_, ?_, ?_⟩
    · cases ok <;> simp [Loop.parses]
    · by_cases hd : d = c
      · subst hd
        cases ok with
        | true =>
          left
          dsimp only
          rw [setConn_same, if_pos rfl]
        | false => exact .inr rfl
      · refine .inl (marks.flag (h.marked.resolve_right ?_))
        simp [pc, Loop.marks, hd]
    · rw [pc] at hle
      simp only [reply_immediate, Option.map_some, Option.some.injEq] at hle
      have hnone : Loop.reply (if ok then .flush d .done else .close d true) = none := by
        simp [apply_ite Loop.reply]
      simp only [errorReplies, hnone]
      split
      · simp [errorReplies] at hle ⊢
        omega
      · rw [errorReplies_append]
        simpa using hle
  | closedBefore d malformed pc | close d malformed pc =>
    refine ⟨?_, ?_, ?_⟩
    · cases malformed <;> simp [Loop.parses]
    · left
      by_cases hm : s.loop.marks = some c
      · rw [pc] at hm
        cases malformed with
        | true =>
          cases hm
          dsimp only
          rw [setConn_same]
          simp
        | false => cases hm
      · exact marks.flag (h.marked.resolve_right hm)
    · have hle := h.replies
      simp only [pc, Loop.reply, Option.map_none, reduceCtorEq, if_false] at hle
      have hnone : Loop.reply (if malformed then .flush d .done else .next) = none := by
        simp [apply_ite Loop.reply]
      dsimp only
      rw [hnone]
      exact hle
  | opened fd pc | finish pc | unidentified d out x error m pc | needMore d out x error m pc
  | ready d rest pc | sent d k m pc | register d epollin pc | flushMore d k x pc
  | flushed d k x pc =>
    refine h.quiet marks rfl (by simp [pc, Loop.marks]) ?_
    simp [openConnection, closeAll, pc, apply_ite Loop.quiet]
  | _ =>
    refine h.quiet marks rfl ?_ ?_
    · simp_all [Loop.marks]
    · simp_all [leave, apply_ite Loop.quiet]

theorem nextRequest_status {out request : Request} {result : ParseResult}
    (h : x.nextRequest out = (result, request, y)) :
    result.status =
      (deserializeRequest x.unconsumed x.limits.protocolLimits out).1.status := by
  simp only [Connection.nextRequest] at h
  rw [Connection.unconsumed]
  split at h <;> (cases h; rfl)

theorem head_of_meetsMalformed (h : s.MeetsMalformed c) :
    ∃ e, head (s.conn c).limits.protocolLimits (s.conn c).unconsumed = .bad e := by
  have hv := h.2.2
  rw [verdict] at hv
  rw [head_of_deserialize _ _ {}, hv]
  exact ⟨_, rfl⟩

theorem ended_onProcess (config : ServerConfig) (h : s.MeetsMalformed c) :
    (s.onProcess config c).Ended c (s.errorReplies c + 1) ∧
      (s.onProcess config c).stats = s.stats.recordProtocolError := by
  obtain ⟨pc, room, hv⟩ := h
  rcases hn : (s.conn c).nextRequest {} with ⟨⟨status, error, n⟩, request, x⟩
  have hstatus : status = .kMalformed := (nextRequest_status hn).trans hv
  subst hstatus
  cases hp : x.peekRequestHeader with
  | none =>
    simp only [onProcess, room, hn, hp, Bool.false_eq_true, if_false, and_true]
    refine ⟨by simp [Loop.parses], .inl ?_, ?_⟩
    · dsimp only
      rw [setConn_same]
    · exact Nat.le_succ _
  | some p =>
    simp only [onProcess, room, hn, hp, Bool.false_eq_true, if_false, and_true]
    refine ⟨by simp [Loop.parses], .inr rfl, ?_⟩
    simp [errorReplies]

theorem step_process (pc : s.loop = .process c) :
    step config fds s (.loop .internal) = some (s.onProcess config c) := by
  simp [step, loopStep, pc]

theorem protocolErrors_record (stats : ServerStats) (tally : Option Tally) :
    (stats.record tally).protocolErrors = stats.protocolErrors := by
  cases tally with
  | none => rfl
  | some tally => cases tally <;> rfl

theorem step_protocolErrors (hs : Step config fds s a s') :
    s'.stats.protocolErrors = s.stats.protocolErrors ∨ ∃ d, s.MeetsMalformed d := by
  cases hs with
  | loop hl =>
    cases hl with
    | malformed d out x error n id opcode pc room next =>
      exact .inr ⟨d, pc, room, (nextRequest_status next).symm⟩
    | unidentified d out x error n pc room next =>
      exact .inr ⟨d, pc, room, (nextRequest_status next).symm⟩
    | finish pc =>
      exact .inl (ServerStats.foldl_connectionClosed (f := ServerStats.protocolErrors)
        (fun _ => rfl) _ _)
    | _ => exact .inl rfl
  | worker _ hs =>
    cases hs with
    | record job response tally => exact .inl (protocolErrors_record _ _)
    | _ => exact .inl rfl
  | requestShutdown => exact .inl rfl

/-- A malformed frame at the head of the input stays there, and no request is taken from
behind it. -/
theorem step_malformed {e : ParseError} (hc : s.Core config) (hs : step config fds s a = some s')
    (bad : head config.connectionLimits.protocolLimits (s.conn c).unconsumed = .bad e) :
    head config.connectionLimits.protocolLimits (s'.conn c).unconsumed = .bad e ∧
      (s'.conn c).inflight ≤ (s.conn c).inflight ∧ s'.takenOn c = s.takenOn c := by
  cases inputStep_of_step hc hs c with
  | fed input inflight taken =>
    refine ⟨?_, inflight, taken⟩
    rw [input]
    exact (head_incremental _).bad_append _ bad
  | took request n pc act hh =>
    rw [(hc.buffers c).limits_eq] at hh
    exact absurd (bad.symm.trans hh) (by simp)

theorem step_ended (h : s.Ended c n) (hc : s.Core config) (unmarked : s.ReadsUnmarked a)
    (hs : Step config fds s a s') : s'.Ended c n := by
  have marks := step_marks hc.tabled hs c
  cases hs with
  | loop hl => exact ended_loop h marks unmarked hl
  | worker _ hs => exact ended_worker h marks hs
  | requestShutdown => exact ⟨h.idle, h.marked, h.replies⟩

/-- Once `process_input` has met a malformed frame on a connection, it takes no request off
that connection any more. If the connection is not read again once it is marked for closing,
the protocol-error counter was raised for it this one time, and at most one reply is staged. -/
theorem malformed_terminal (config : ServerConfig) (fds : Descriptors) {s s' : Server} {c : Nat}
    (h : Reach (step config fds) Free (start config fds) s) (meets : s.MeetsMalformed c)
    (hs : step config fds s (.loop .internal) = some s') :
    s'.stats.protocolErrors = s.stats.protocolErrors + 1 ∧
      (∀ t, Reach (step config fds) Free s' t → t.takenOn c = s.takenOn c) ∧
      ∀ t, Reach (step config fds) ReadsUnmarked s' t →
        ¬ t.MeetsMalformed c ∧ t.errorReplies c ≤ s.errorReplies c + 1 ∧
          ∀ a t', step config fds t a = some t' →
            t'.stats.protocolErrors = t.stats.protocolErrors ∨
              ∃ d, d ≠ c ∧ t.MeetsMalformed d := by
  have hc := reach_core h
  have hc' := step_core hc (step_sound hs)
  obtain ⟨e, hbad⟩ := head_of_meetsMalformed meets
  rw [(hc.buffers c).limits_eq] at hbad
  obtain ⟨hended, hstats⟩ := ended_onProcess config meets
  obtain ⟨hbad', -, htaken⟩ := step_malformed hc hs hbad
  rw [step_process meets.1, Option.some.injEq] at hs
  rw [hs] at hended hstats
  refine ⟨?_, ?_, ?_⟩
  · rw [hstats]
    rfl
  · intro t ht
    have hp : t.Core config ∧
        head config.connectionLimits.protocolLimits (t.conn c).unconsumed = .bad e ∧
        t.takenOn c = s.takenOn c := by
      refine ht.invariant (P := fun t => t.Core config ∧
        head config.connectionLimits.protocolLimits (t.conn c).unconsumed = .bad e ∧
        t.takenOn c = s.takenOn c) ⟨hc', hbad', htaken⟩ ?_
      intro t a t' hp _ hstep
      obtain ⟨hbad, -, htaken⟩ := step_malformed hp.1 hstep hp.2.1
      exact ⟨step_core hp.1 (step_sound hstep), hbad, htaken.trans hp.2.2⟩
    exact hp.2.2
  · intro t ht
    have hp : t.Core config ∧ t.Ended c (s.errorReplies c + 1) := by
      refine ht.invariant (P := fun t => t.Core config ∧ t.Ended c (s.errorReplies c + 1))
        ⟨hc', hended⟩ ?_
      intro t a t' hp unmarked hstep
      have hstep := step_sound hstep
      exact ⟨step_core hp.1 hstep, step_ended hp.2 hp.1 unmarked hstep⟩
    have hno : ¬ t.MeetsMalformed c := by
      intro hm
      exact hp.2.idle (by rw [hm.1]; rfl)
    refine ⟨hno, Nat.le_trans (Nat.le_add_right _ _) hp.2.replies, fun a t' hstep => ?_⟩
    refine (step_protocolErrors (step_sound hstep)).imp id ?_
    rintro ⟨d, hd⟩
    exact ⟨d, fun he => hno (he ▸ hd), hd⟩

def flaggedPing : Bytes := (ping 1).set 6 1

def meetFlagged : List Action :=
  connect 7 ++ [.loop (.batch [(7, { epollin := true })]), .loop .internal,
    .loop (.recv (.data flaggedPing))]

def waitAfterReply : List Action :=
  List.replicate 2 (.loop .internal) ++ [.loop (.send .eagain)] ++
    List.replicate 4 (.loop .internal) ++ [.loop (.control true), .loop .internal]

theorem malformed_terminal_reply :
    ∃ s s' t : Server, s.MeetsMalformed 1 ∧
      step usualConfig usualFds s (.loop .internal) = some s' ∧
      Reach (step usualConfig usualFds) ReadsUnmarked s' t ∧ t.loop = .wait ∧
      t.errorReplies 1 = 1 ∧ ¬ t.MeetsMalformed 1 ∧ t.takenOn 1 = s.takenOn 1 := by
  obtain ⟨s, hr, meets, hrest⟩ := exists_reach (step usualConfig usualFds)
    (start usualConfig usualFds) meetFlagged
    (fun s => s.MeetsMalformed 1 ∧ (step usualConfig usualFds s (.loop .internal)).any
      (fun s' => (exec (guarded (step usualConfig usualFds) ReadsUnmarked) s'
        waitAfterReply).any (fun t => t.loop = .wait ∧ t.errorReplies 1 = 1)) = true)
    (by decide +kernel)
  cases hs : step usualConfig usualFds s (.loop .internal) with
  | none =>
    rw [hs] at hrest
    cases hrest
  | some s' =>
    rw [hs] at hrest
    obtain ⟨t, ht, hwait, hone⟩ := exists_reach
      (guarded (step usualConfig usualFds) ReadsUnmarked) s' waitAfterReply
      (fun t => t.loop = .wait ∧ t.errorReplies 1 = 1) hrest
    obtain ⟨-, htaken, hrun⟩ := malformed_terminal usualConfig usualFds hr meets hs
    exact ⟨s, s', t, meets, hs, ht.of_guarded, hwait, hone, (hrun t ht.of_guarded).1,
      htaken t ht.of_guarded.free⟩

/-- The client sends on and closes its side before the reply is written: the connection is read
again, the same frame is met again, counted again and answered again. -/
theorem malformed_answered_twice :
    usualConfig.validate = none ∧
      ∃ s : Server, Reach (step usualConfig usualFds) Free (start usualConfig usualFds) s ∧
        s.nextConnectionId = 2 ∧ (s.conn 1).closed = false ∧ s.stats.protocolErrors = 2 ∧
        s.errorReplies 1 = 2 := by
  refine ⟨by decide +kernel, exists_reach (step usualConfig usualFds)
    (start usualConfig usualFds) (meetFlagged ++ [.loop .internal] ++ waitAfterReply ++
      [.loop (.batch [(7, { epollrdhup := true })]), .loop .internal,
        .loop (.recv (.data [0])), .loop .internal, .loop .internal]) _ ?_⟩
  decide +kernel

end Server

end LocalCache
