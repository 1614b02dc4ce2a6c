import LocalCache.LoopSteps

namespace LocalCache.Server

open Protocol Serializer Library

variable {config : ServerConfig} {fds : Descriptors} {s s' : Server} {o : Outcome} {c : Nat}

theorem onWait_sound (pc : s.loop = .wait) (h : s.onWait fds o = some s') :
    LoopStep config fds s o s' := by
  cases o with
  | batch events =>
    rw [onWait] at h
    by_cases hv : s.validBatch fds events = true
    · rw [if_pos hv] at h
      obtain rfl := Option.some.inj h
      exact .harvest events pc hv
    · rw [if_neg hv] at h
      cases h
  | waitInterrupted =>
    obtain rfl := Option.some.inj h
    exact .interrupted pc
  | waitFailed =>
    obtain rfl := Option.some.inj h
    exact .waitFailed pc
  | _ => cases h

theorem dispatch_sound {fd : Nat} {events : Events} {owner : Option Nat} {rest : List Item}
    (pc : s.loop = .next) (todo : s.todo = .event fd events owner :: rest) :
    LoopStep config fds s .internal (dispatch fds { s with todo := rest } fd events) := by
  rw [dispatch]
  by_cases hl : s.listenFd = some fd
  · rw [if_pos hl]
    exact .listener fd events owner rest pc todo hl
  rw [if_neg hl]
  by_cases hc : fd = fds.completion
  · rw [if_pos hc]
    exact .completion fd events owner rest pc todo hc
  rw [if_neg hc]
  by_cases hs : fd = fds.shutdown
  · rw [if_pos hs]
    by_cases hd : s.draining = true
    · rw [if_pos hd]
      exact .shutdownAgain fd events owner rest pc todo hs hd
    · rw [if_neg hd]
      exact .shutdownFirst fd events owner rest pc todo hs (Bool.eq_false_iff.mpr hd)
  rw [if_neg hs]
  by_cases hg : fds.signal = some fd
  · rw [if_pos hg]
    exact .signalled fd events owner rest pc todo hg
  rw [if_neg hg]
  cases hf : s.findConnection fd with
  | none =>
    have hf' : findConnection { s with todo := rest } fd = none := hf
    rw [hf']
    exact .stale fd events owner rest pc todo hf
  | some c =>
    have hf' : findConnection { s with todo := rest } fd = some c := hf
    rw [hf']
    exact .event fd events owner rest c pc todo hf

theorem onNext_sound (pc : s.loop = .next) (h : s.onNext fds = some s') :
    LoopStep config fds s .internal s' := by
  rw [onNext] at h
  split at h
  · rename_i htodo
    by_cases hl : s.leaving = true
    · rw [if_pos hl] at h
      obtain rfl := Option.some.inj h
      exact .finish pc htodo hl
    · rw [if_neg hl] at h
      obtain rfl := Option.some.inj h
      exact .endBatch pc htodo (Bool.eq_false_iff.mpr hl)
  · rename_i htodo
    obtain rfl := Option.some.inj h
    exact dispatch_sound pc htodo
  · rename_i htodo
    obtain rfl := Option.some.inj h
    exact .ready _ _ pc htodo
  · rename_i htodo
    obtain rfl := Option.some.inj h
    exact .interest _ _ pc htodo

theorem onAccept_sound (pc : s.loop = .accept) (h : s.onAccept config fds o = some s') :
    LoopStep config fds s o s' := by
  cases o with
  | client fd added =>
    rw [onAccept] at h
    by_cases hfd : s.fdOpen config fds fd = true
    · rw [if_pos hfd] at h
      cases h
    rw [if_neg hfd] at h
    have hfree := Bool.eq_false_iff.mpr hfd
    by_cases hfull : s.connections.length ≥ config.maxConnections.toNat
    · rw [if_pos hfull] at h
      obtain rfl := Option.some.inj h
      exact .reject fd added pc hfree hfull
    rw [if_neg hfull] at h
    cases added with
    | false =>
      obtain rfl := Option.some.inj h
      exact .addFailed fd pc hfree (Nat.not_le.mp hfull)
    | true =>
      obtain rfl := Option.some.inj h
      exact .opened fd pc hfree (Nat.not_le.mp hfull)
  | acceptRetry =>
    obtain rfl := Option.some.inj h
    exact .acceptRetry pc
  | acceptStop =>
    obtain rfl := Option.some.inj h
    exact .acceptStop pc
  | _ => cases h

theorem onFlush_sound {k : Resume} (pc : s.loop = .flush c k) :
    LoopStep config fds s .internal (s.onFlush c k) := by
  rw [onFlush]
  cases hr : (s.conn c).refill with
  | mk more x =>
    cases more with
    | true => exact .flushMore c k x pc hr
    | false => exact .flushed c k x pc hr

theorem onSend_sound {k : Resume} (pc : s.loop = .send c k) (h : s.onSend c k o = some s') :
    LoopStep config fds s o s' := by
  cases o with
  | send r =>
    cases r with
    | sent n =>
      rw [onSend] at h
      by_cases hle : (s.conn c).remaining < n
      · rw [if_pos hle] at h
        cases h
      rw [if_neg hle] at h
      by_cases hn : n = 0
      · rw [if_pos hn] at h
        obtain rfl := Option.some.inj h
        exact .sendFailed c k _ pc
      · rw [if_neg hn] at h
        obtain rfl := Option.some.inj h
        exact .sent c k n pc (Nat.not_lt.mp hle) (Nat.pos_of_ne_zero hn)
    | eintr =>
      obtain rfl := Option.some.inj h
      exact .sendRetry c k pc
    | eagain =>
      obtain rfl := Option.some.inj h
      exact .sendAgain c k pc
    | error =>
      obtain rfl := Option.some.inj h
      exact .sendFailed c k _ pc
  | _ => cases h

theorem setConn_self (s : Server) (c : Nat) : s.setConn c (s.conn c) = s.conn :=
  Function.update_eq_self c s.conn

theorem onRead_sound (pc : s.loop = .read c) (h : s.onRead c o = some s') :
    LoopStep config fds s o s' := by
  cases o with
  | recv r =>
    rw [onRead] at h
    by_cases hv : r.valid = true
    · rw [if_pos hv] at h
      cases r with
      | data bytes =>
        obtain rfl := Option.some.inj h
        exact .readData c bytes pc hv
      | eof =>
        simp only [Connection.readSome, setConn_self, Option.some.injEq] at h
        exact h ▸ .readEnd c _ pc
      | eintr =>
        simp only [Connection.readSome, setConn_self, Option.some.injEq] at h
        exact h ▸ .readRetry c pc
      | eagain =>
        simp only [Connection.readSome, setConn_self, Option.some.injEq] at h
        exact h ▸ .readAgain c pc
      | error =>
        simp only [Connection.readSome, setConn_self, Option.some.injEq] at h
        exact h ▸ .readEnd c _ pc
    · rw [if_neg hv] at h
      cases h
  | _ => cases h

theorem onProcess_sound (pc : s.loop = .process c) :
    LoopStep config fds s .internal (s.onProcess config c) := by
  rw [onProcess]
  by_cases hl : (s.conn c).inflightLimitReached = true
  · rw [if_pos hl]
    exact .limit c pc hl
  rw [if_neg hl]
  have hroom := Bool.eq_false_iff.mpr hl
  obtain ⟨⟨⟨status, error, n⟩, request, x⟩, hn⟩ :
      ∃ p, (s.conn c).nextRequest {} = p := ⟨_, rfl⟩
  rw [hn]
  cases status with
  | kNeedMoreData => exact .needMore c request x error n pc hroom hn
  | kMalformed =>
    cases hp : x.peekRequestHeader with
    | none => simpa only [hp] using .unidentified c request x error n pc hroom hn hp
    | some p => simpa only [hp] using .malformed c request x error n p.1 p.2 pc hroom hn hp
  | kComplete =>
    cases hs : s.canSubmit config with
    | true => exact .submit c request x error n pc hroom hn hs
    | false => exact .refuse c request x error n pc hroom hn hs

theorem onClose_sound {malformed : Bool} (pc : s.loop = .close c malformed) :
    LoopStep config fds s .internal (s.onClose c malformed) := by
  cases hc : (s.conn c).closed with
  | true =>
    have h := @LoopStep.closedBefore config fds s c malformed pc hc
    cases malformed with
    | true => simpa [onClose, closeConnection, hc] using h
    | false =>
      have hs : s.setConn c { s.conn c with
          closeAfterFlush := (s.conn c).closeAfterFlush || false } = s.conn := by
        rw [Bool.or_false]
        exact setConn_self s c
      rw [hs] at h
      simpa [onClose, closeConnection, hc] using h
  | false =>
    have h := @LoopStep.close config fds s c malformed pc hc
    cases malformed with
    | true => simpa [onClose, closeConnection, hc, setConn] using h
    | false => simpa [onClose, closeConnection, hc] using h

theorem onRegister_sound {epollin ok : Bool} (pc : s.loop = .register c epollin) :
    LoopStep config fds s (.control ok) (s.onRegister c epollin ok) := by
  rw [onRegister]
  dsimp only
  split
  · rename_i hsame
    exact .registered c epollin ok pc hsame.symm
  · split
    · rename_i hok
      rw [Bool.and_eq_true] at hok
      rw [hok.1]
      exact .register c epollin pc hok.2
    · exact .registerFailed c epollin ok pc

theorem onStop_sound (pc : s.loop = .stop) :
    LoopStep config fds s .internal (s.onStop config) := by
  rw [onStop]
  split
  · rename_i hb
    exact .stopped pc (by simpa using hb)
  · split
    · rename_i hw
      exact .stopWait pc hw
    · rename_i hw
      exact .stopNow pc hw

theorem onStopWait_sound (pc : s.loop = .stopWait) (h : s.onStopWait o = some s') :
    LoopStep config fds s o s' := by
  cases o with
  | internal =>
    rw [onStopWait] at h
    by_cases he : s.queue = []
    · rw [if_pos he] at h
      obtain rfl := Option.some.inj h
      exact .stopDrained pc he
    · rw [if_neg he] at h
      cases h
  | clock expired =>
    cases expired with
    | true =>
      obtain rfl := Option.some.inj h
      exact .stopExpired pc
    | false => cases h
  | _ => cases h

/-- Every step of the event loop is one of the listed moves. -/
theorem loopStep_sound (h : s.loopStep config fds o = some s') : LoopStep config fds s o s' := by
  unfold loopStep at h
  split at h
  · exact onWait_sound ‹_› h
  · exact onNext_sound ‹_› h
  · exact onAccept_sound ‹_› h
  · obtain rfl := Option.some.inj h
    exact .drainRead ‹_›
  · obtain rfl := Option.some.inj h
    exact .drainSwap ‹_›
  · obtain rfl := Option.some.inj h
    exact onFlush_sound ‹_›
  · exact onSend_sound ‹_› h
  · exact onRead_sound ‹_› h
  · obtain rfl := Option.some.inj h
    exact onProcess_sound ‹_›
  · rw [onBusy, Option.map_eq_some_iff] at h
    obtain ⟨⟨ok, x⟩, he, rfl⟩ := h
    exact .busy _ ok x ‹_› he
  · rw [onImmediate, Option.map_eq_some_iff] at h
    obtain ⟨⟨ok, x⟩, he, rfl⟩ := h
    exact .immediate _ _ ok x ‹_› he
  · obtain rfl := Option.some.inj h
    exact onClose_sound ‹_›
  · obtain rfl := Option.some.inj h
    exact .closeCheck _ ‹_›
  · obtain rfl := Option.some.inj h
    split
    · exact .pausedNow _ ‹_› ‹_›
    · exact .notPaused _ ‹_› (Nat.not_lt.mp ‹_›)
  · obtain rfl := Option.some.inj h
    split
    · exact .limitedNow _ ‹_› ‹_›
    · exact .notLimited _ ‹_› (Bool.eq_false_iff.mpr ‹_›)
  · obtain rfl := Option.some.inj h
    exact .flagged _ ‹_›
  · obtain rfl := Option.some.inj h
    exact onRegister_sound ‹_›
  · obtain rfl := Option.some.inj h
    exact .drainPool ‹_›
  · obtain rfl := Option.some.inj h
    exact .drained ‹_›
  · obtain rfl := Option.some.inj h
    exact .drainInflight _ _ ‹_›
  · obtain rfl := Option.some.inj h
    exact .drainPending _ _ ‹_›
  · obtain rfl := Option.some.inj h
    rename_i expired _
    cases expired with
    | true => exact .expired ‹_›
    | false => exact .notExpired ‹_›
  · obtain rfl := Option.some.inj h
    exact onStop_sound ‹_›
  · exact onStopWait_sound ‹_› h
  · split at h
    · rename_i hall
      obtain rfl := Option.some.inj h
      exact .joined ‹_› (by simpa using hall)
    · cases h
  · cases h

end LocalCache.Server
