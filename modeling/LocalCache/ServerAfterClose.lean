import LocalCache.ServerMalformed
import LocalCache.ServerRegistry

namespace LocalCache

open Protocol Serializer Library Transition

/-- Where the loop may be while connections wait for `update_interest` in front of the other
items. -/
def Loop.updates : Loop → Bool
  | .next | .paused _ | .limited _ | .flagged _ | .register _ _ | .close _ _ => true
  | _ => false

namespace Server

/-- The condition on `send_immediate`: its reply is not over the hard cap. -/
def RepliesUnderCap (s : Server) (a : Action) : Prop :=
  a = .loop .internal → ∀ p ∈ s.loop.reply, (s.conn p.1).WithinCap (serializeResponse p.2)

instance (s : Server) (a : Action) : Decidable (s.RepliesUnderCap a) :=
  inferInstanceAs (Decidable (_ → _))

def Quiet (s : Server) : Prop := ∀ c, Item.interest c ∉ s.todo

/-- The connections that wait for `update_interest` are open, and none of them is the one being
handled. -/
structure Updating (s : Server) (cs : List Nat) (rest : List Item) : Prop where
  todo : s.todo = cs.map .interest ++ rest
  quiet : ∀ c, Item.interest c ∉ rest
  distinct : cs.Nodup
  opened : ∀ c ∈ cs, (s.conn c).closed = false
  apart : ∀ c, s.loop.handles = some c → c ∉ cs
  loop : s.loop.updates = true

structure Alive (s : Server) : Prop where
  handled : ∀ c, s.loop.handles = some c → (s.conn c).closed = false
  replied : ∀ c, s.loop ≠ .close c true
  waiting : s.Quiet ∨ ∃ cs rest, s.Updating cs rest

variable {config : ServerConfig} {fds : Descriptors} {s s' : Server} {a : Action} {o : Outcome}
  {w c : Nat} {cs : List Nat} {rest : List Item}

theorem alive_start (config : ServerConfig) (fds : Descriptors) : (start config fds).Alive where
  handled := by intro c h; cases h
  replied := by intro c h; cases h
  waiting := .inl (fun c h => by cases h)

theorem Alive.frame (h : s.Alive) (closed : ∀ c, (s'.conn c).closed = (s.conn c).closed)
    (loop : s'.loop = s.loop) (todo : s'.todo = s.todo) : s'.Alive := by
  refine ⟨?_, loop ▸ h.replied, ?_⟩
  · intro c hc
    rw [closed]
    exact h.handled c (loop ▸ hc)
  · obtain hq | ⟨cs, rest, hu⟩ := h.waiting
    · exact .inl (fun c hc => hq c (todo ▸ hc))
    · exact .inr ⟨cs, rest, todo.trans hu.todo, hu.quiet, hu.distinct,
        fun c hc => (closed c).trans (hu.opened c hc), loop ▸ hu.apart, loop ▸ hu.loop⟩

theorem alive_worker (h : s.Alive) (hw : w < config.workerThreads.toNat)
    (hs : WorkerStep s w s') : s'.Alive := by
  have closed := (steady_worker hw hs).closed
  cases hs <;> exact h.frame closed rfl rfl

theorem loop_handles (hs : LoopStep config fds s o s') (hc : s'.loop.handles = some c) :
    s.loop.handles = some c ∨ (∃ fd, s.findConnection fd = some c) ∨
      (s.conn c).closed = false ∨ ∃ rest, s.todo = .interest c :: rest := by
  cases hs with
  | event fd events owner rest d pc todo found =>
    rw [handles_connectionEvent] at hc
    cases hc
    exact .inr (.inl ⟨fd, found⟩)
  | ready d rest pc todo =>
    dsimp only at hc
    split at hc
    · cases hc
    · rename_i hopen
      cases hc
      exact .inr (.inr (.inl (Bool.eq_false_iff.mpr hopen)))
  | interest d rest pc todo =>
    rw [handles_updateInterest] at hc
    cases hc
    exact .inr (.inr (.inr ⟨rest, todo⟩))
  | opened | interrupted | reject | addFailed | acceptRetry | shutdownFirst | shutdownAgain
  | signalled | stale | submit =>
    exact .inl hc
  | _ => exact .inl (by simp_all [apply_ite Loop.handles, leave, closeAll])

theorem loop_replied (h : s.Alive) (hs : LoopStep config fds s o s')
    (hok : s.RepliesUnderCap (.loop o)) (c : Nat) : s'.loop ≠ .close c true := by
  cases hs with
  | immediate d response ok x pc he =>
    have hopen := h.handled d (by rw [pc]; rfl)
    have hunder := hok rfl (d, response) (by rw [pc]; rfl)
    obtain ⟨hclosed, -⟩ | ⟨-, z, hz, -⟩ := Connection.enqueueResponse_cases he
    · rw [hopen] at hclosed
      cases hclosed
    · cases ok with
      | true => simp
      | false => exact absurd hunder ((Connection.overLimit_of_stage hz).mp rfl)
  | event fd events owner rest d =>
    exact connectionEvent_where (P := fun l => l ≠ .close c true) s d events (by simp)
      (fun _ => by simp) (by simp)
  | flushed d k | sendAgain d k =>
    exact resume_where (P := fun l => l ≠ .close c true) s d k (by simp) (by simp) (by simp)
  | interest d =>
    exact updateInterest_where (P := fun l => l ≠ .close c true) s d (by simp) (by simp)
  | closeCheck d =>
    dsimp only
    split
    · simp
    · exact updateInterest_where (P := fun l => l ≠ .close c true) s d (by simp) (by simp)
  | opened | interrupted | reject | addFailed | acceptRetry | shutdownFirst | shutdownAgain
  | signalled | stale | submit =>
    exact h.replied c
  | endBatch | ready | busy | closedBefore | close | drainPool | drainInflight | drainPending =>
    dsimp only
    split <;> simp
  | _ => simp [leave, closeAll]

theorem quiet_loop (hq : s.Quiet) (ht : s.Tabled config) (hs : LoopStep config fds s o s') :
    s'.Quiet ∨ ∃ cs rest, s'.Updating cs rest := by
  cases hs with
  | harvest events =>
    refine .inl (fun c hc => ?_)
    obtain ⟨p, -, hp⟩ := List.mem_map.mp hc
    cases hp
  | drainSwap =>
    refine .inl (fun c hc => ?_)
    obtain hc | hc := List.mem_append.mp hc
    · obtain ⟨d, -, hd⟩ := List.mem_map.mp hc
      cases hd
    · exact hq c hc
  | shutdownFirst fd events owner rest pc todo =>
    refine .inr ⟨s.connections.map Prod.snd, rest, ?_, ?_, ?_, ?_, ?_, ?_⟩
    · rw [List.map_map]
      rfl
    · exact fun c hc => hq c (todo ▸ List.mem_cons_of_mem _ hc)
    · exact ht.ids_nodup
    · intro c hc
      obtain ⟨⟨fd, d⟩, hd, rfl⟩ := List.mem_map.mp hc
      exact (ht.entry hd).2.1
    · intro c hc
      rw [pc] at hc
      cases hc
    · dsimp only
      rw [pc]
      rfl
  | listener _ _ _ _ pc todo | completion _ _ _ _ pc todo | shutdownAgain _ _ _ _ pc todo
  | signalled _ _ _ _ pc todo | stale _ _ _ _ pc todo | event _ _ _ _ _ pc todo
  | ready _ _ pc todo | interest _ _ pc todo =>
    exact .inl (fun c hc => hq c (todo ▸ List.mem_cons_of_mem _ hc))
  | _ => exact .inl hq

theorem updating_loop (hu : s.Updating (c :: cs) rest) (hr : ∀ d, s.loop ≠ .close d true)
    (hs : LoopStep config fds s o s') : ∃ cs rest, s'.Updating cs rest := by
  have htodo := hu.todo
  rw [List.map_cons, List.cons_append] at htodo
  have hloop := hu.loop
  cases hs with
  | interest d tail pc todo =>
    rw [htodo] at todo
    obtain ⟨hd, rfl⟩ := List.cons.inj todo
    obtain rfl := Item.interest.inj hd
    refine ⟨cs, rest, rfl, hu.quiet, (List.nodup_cons.mp hu.distinct).2,
      fun d hd => hu.opened d (List.mem_cons_of_mem _ hd), ?_, ?_⟩
    · intro d hd
      rw [handles_updateInterest] at hd
      cases hd
      exact (List.nodup_cons.mp hu.distinct).1
    · exact updateInterest_where (P := fun l => l.updates = true) s c rfl rfl
  | pausedNow d pc | notPaused d pc | limitedNow d pc | notLimited d pc | flagged d pc
  | registered d _ _ pc | registerFailed d _ _ pc =>
    refine ⟨c :: cs, rest, hu.todo, hu.quiet, hu.distinct, hu.opened, ?_, rfl⟩
    intro e he
    first
    | cases he
      exact hu.apart d (by rw [pc]; rfl)
    | cases he
  | register d _ pc =>
    refine ⟨c :: cs, rest, hu.todo, hu.quiet, hu.distinct, ?_, fun e he => ?_, rfl⟩
    · intro e he
      refine (closed_setConn ?_ e).trans (hu.opened e he)
      rfl
    · cases he
  | closedBefore d malformed pc | close d malformed pc =>
    cases malformed with
    | true => exact absurd pc (hr d)
    | false =>
      refine ⟨c :: cs, rest, hu.todo, hu.quiet, hu.distinct, ?_, fun e he => ?_, rfl⟩
      · intro e he
        have hne : e ≠ d := by
          rintro rfl
          exact hu.apart e (by rw [pc]; rfl) he
        dsimp only
        rw [setConn_of_ne hne]
        exact hu.opened e he
      · cases he
  | _ => simp_all [Loop.updates]

theorem Updating.quiet_of_nil (hu : s.Updating [] rest) : s.Quiet := by
  intro c hc
  rw [hu.todo] at hc
  exact hu.quiet c hc

theorem alive_loop (h : s.Alive) (ht : s.Tabled config) (hok : s.RepliesUnderCap (.loop o))
    (hs : LoopStep config fds s o s') : s'.Alive := by
  refine ⟨?_, loop_replied h hs hok, ?_⟩
  · intro c hc
    have hopen : (s.conn c).closed = false := by
      obtain hc | ⟨fd, hfd⟩ | hc | ⟨rest, htodo⟩ := loop_handles hs hc
      · exact h.handled c hc
      · exact (ht.entry (findConnection_mem hfd)).2.1
      · exact hc
      · obtain hq | ⟨cs, rest', hu⟩ := h.waiting
        · exact absurd (htodo ▸ List.mem_cons_self) (hq c)
        · cases cs with
          | nil => exact absurd (htodo ▸ List.mem_cons_self) (hu.quiet_of_nil c)
          | cons d cs =>
            have hd := (List.cons.inj (hu.todo.symm.trans htodo)).1
            exact hu.opened c (Item.interest.inj hd ▸ List.mem_cons_self)
    refine still_open hs (ne_finished_of_handles hc) (fun m pc => ?_) hopen
    rw [loop_of_close hs pc] at hc
    cases m with
    | true => exact h.replied c pc
    | false => cases hc
  · obtain hq | ⟨cs, rest, hu⟩ := h.waiting
    · exact quiet_loop hq ht hs
    · cases cs with
      | nil => exact quiet_loop hu.quiet_of_nil ht hs
      | cons c cs => exact .inr (updating_loop hu h.replied hs)

/-- Where the reply to a malformed frame is never over the hard cap, the loop is never again in
the middle of handling a connection that is closed: it neither receives nor sends on it nor
changes what epoll watches for it, and `process_input` does not come back true from a connection
that was closed inside it. -/
theorem closed_left_alone (config : ServerConfig) (fds : Descriptors) {s : Server}
    (h : Reach (step config fds) RepliesUnderCap (start config fds) s) (c : Nat) :
    ((s.conn c).closed = true → s.loop.handles ≠ some c) ∧ s.loop ≠ .close c true := by
  have halive : s.Alive := by
    refine core_invariant (P := Alive) (alive_start config fds) ?_ h
    intro s a s' hc hok halive hs
    cases hs with
    | loop hl => exact alive_loop halive hc.tabled hok hl
    | worker hw hs => exact alive_worker halive hw hs
    | requestShutdown => exact halive.frame (fun _ => rfl) rfl rfl
  refine ⟨?_, halive.replied c⟩
  intro hclosed hhandles
  rw [halive.handled c hhandles] at hclosed
  cases hclosed

theorem closed_left_alone_reply :
    ∃ s : Server, Reach (step usualConfig usualFds) RepliesUnderCap
      (start usualConfig usualFds) s ∧ (s.conn 1).closed = true ∧
      s.ledger.accepted 1 ≠ [] ∧ s.loop.handles ≠ some 1 := by
  obtain ⟨s, hr, hclosed, hsent⟩ := exists_reach
    (guarded (step usualConfig usualFds) RepliesUnderCap) (start usualConfig usualFds)
    (meetFlagged ++ List.replicate 3 (.loop .internal) ++ [.loop (.send (.sent 24))] ++
      List.replicate 3 (.loop .internal))
    (fun s => (s.conn 1).closed = true ∧ s.ledger.accepted 1 ≠ []) (by decide +kernel)
  exact ⟨s, hr.of_guarded, hclosed, hsent,
    (closed_left_alone usualConfig usualFds hr.of_guarded 1).1 hclosed⟩

/-- The reply to a malformed frame is over the cap: the connection is closed inside
`process_input`, which comes back true, and the reply is sent on the closed connection. -/
theorem closed_connection_sends :
    narrow.validate = none ∧
      ∃ s : Server, Reach (step narrow usualFds) Free (start narrow usualFds) s ∧
        (s.conn 1).closed = true ∧ s.loop = .send 1 .done ∧ (s.conn 1).remaining = 24 := by
  refine ⟨by decide +kernel, exists_reach (step narrow usualFds) (start narrow usualFds)
    (meetFlagged ++ List.replicate 4 (.loop .internal)) _ ?_⟩
  decide +kernel

end Server

end LocalCache
