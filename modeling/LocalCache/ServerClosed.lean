import LocalCache.ServerTable

namespace LocalCache.Server

open Protocol Serializer Library

variable {config : ServerConfig} {fds : Descriptors} {s s' : Server} {a : Action} {o : Outcome}
  {w c : Nat} {x : Connection}

theorem marks_setConn (hx : (s.conn c).Marks x) (d : Nat) :
    (s.conn d).Marks (s.setConn c x d) := by
  rw [setConn_apply]
  split
  · rename_i hd
    exact hd ▸ hx
  · exact .refl _

theorem step_marks (ht : s.Tabled config) (hs : Step config fds s a s') (c : Nat) :
    (s.conn c).Marks (s'.conn c) := by
  cases hs with
  | loop hl =>
    cases hl with
    | opened fd pc =>
      refine marks_setConn ?_ c
      rw [ht.fresh _ (Nat.le_refl _)]
      exact ⟨id, id⟩
    | finish pc =>
      rw [closeAll]
      dsimp only
      split
      · exact ⟨fun _ => rfl, id⟩
      · exact .refl _
    | flushMore d k x pc hr | flushed d k x pc hr => exact marks_setConn (.of_refill hr) c
    | needMore d out x error n pc room hn => exact marks_setConn (.of_nextRequest hn) c
    | malformed d out x error n id opcode pc room hn => exact marks_setConn (.of_nextRequest hn) c
    | unidentified d out x error n pc room hn =>
      refine marks_setConn ⟨?_, fun _ => rfl⟩ c
      exact (Connection.Marks.of_nextRequest hn).closed
    | submit d request x error n pc room hn | refuse d request x error n pc room hn =>
      obtain ⟨hclosed, hflag⟩ := Connection.Marks.of_nextRequest hn
      refine marks_setConn ?_ c
      exact ⟨hclosed, hflag⟩
    | busy job ok x pc he => exact marks_setConn (.of_enqueueResponse he) c
    | immediate d response ok x pc he =>
      obtain ⟨hclosed, hflag⟩ := Connection.Marks.of_enqueueResponse he
      refine marks_setConn ?_ c
      cases ok with
      | true => exact ⟨hclosed, fun _ => rfl⟩
      | false => exact ⟨hclosed, hflag⟩
    | closedBefore d malformed pc =>
      refine marks_setConn ⟨?_, fun hf => ?_⟩ c
      · exact id
      · dsimp only
        rw [hf, Bool.true_or]
    | close d malformed pc =>
      refine marks_setConn ⟨fun _ => rfl, fun hf => ?_⟩ c
      dsimp only
      rw [hf, Bool.true_or]
    | ready d | sent d | readData d | register d =>
      refine marks_setConn ?_ c
      exact ⟨id, id⟩
    | _ => exact .refl _
  | worker hw hs =>
    cases hs with
    | stage job response overLimit x pc hx => exact marks_setConn (.of_stage hx) c
    | unhealthy d =>
      refine marks_setConn ?_ c
      exact ⟨id, fun _ => rfl⟩
    | discard job | decrement d | notify d =>
      refine marks_setConn ?_ c
      exact ⟨id, id⟩
    | _ => exact .refl _
  | requestShutdown => exact .refl _

theorem step_closed (ht : s.Tabled config) (hs : Step config fds s a s')
    (h : (s.conn c).closed = true) : (s'.conn c).closed = true :=
  (step_marks ht hs c).closed h

structure Discards (s : Server) : Prop where
  jobs : ∀ j ∈ s.ledger.discarded, (s.conn j.connection).closed = true
  workers : ∀ w j, s.worker w = .discard j → (s.conn j.connection).closed = true

theorem Discards.frame (h : s.Discards) (closed : ∀ c, (s.conn c).closed = true →
    (s'.conn c).closed = true) (discarded : s'.ledger.discarded = s.ledger.discarded)
    (workers : ∀ w j, s'.worker w = .discard j → s.worker w = .discard j) : s'.Discards where
  jobs := fun j hj => closed _ (h.jobs j (discarded ▸ hj))
  workers := fun w j hj => closed _ (h.workers w j (workers w j hj))

theorem discard_setWorker {pc : Worker} (hpc : ∀ j, pc ≠ .discard j) (v : Nat) (j : Job)
    (h : s.setWorker w pc v = .discard j) : s.worker v = .discard j := by
  rw [setWorker_apply] at h
  split at h
  · exact absurd h (hpc j)
  · exact h

theorem step_discards (h : s.Discards) (ht : s.Tabled config) (hs : Step config fds s a s') :
    s'.Discards := by
  have closed : ∀ c, (s.conn c).closed = true → (s'.conn c).closed = true :=
    fun c hc => step_closed ht hs hc
  cases hs with
  | loop hl =>
    cases hl with
    | busy job ok x pc he =>
      refine ⟨?_, fun w j hj => closed _ (h.workers w j hj)⟩
      intro j hj
      apply closed
      simp only [recordAnswer] at hj
      split at hj
      · rename_i hc
        obtain hj | hj := List.mem_append.mp hj
        · exact h.jobs j hj
        · rw [List.mem_singleton.mp hj]
          exact hc
      · exact h.jobs j hj
    | immediate d response ok x pc he =>
      refine h.frame closed ?_ (fun _ _ hj => hj)
      dsimp only
      split <;> rfl
    | _ => exact h.frame closed rfl (fun _ _ hj => hj)
  | @worker w _ _ hw hs =>
    cases hs with
    | checkClosed job response pc hc =>
      refine ⟨fun j hj => h.jobs j hj, fun v j hj => ?_⟩
      dsimp only at hj
      rw [setWorker_apply] at hj
      split at hj
      · cases hj
        exact hc
      · exact h.workers v j hj
    | discard job pc =>
      refine ⟨?_, fun v j hj => closed _ (h.workers v j
        (discard_setWorker (fun _ hne => by cases hne) v j hj))⟩
      intro j hj
      apply closed
      obtain hj | hj := List.mem_append.mp hj
      · exact h.jobs j hj
      · rw [List.mem_singleton.mp hj]
        exact h.workers w job pc
    | decrement d healthy pc =>
      exact h.frame closed rfl (discard_setWorker (fun _ hne => by cases healthy <;> cases hne))
    | _ => exact h.frame closed rfl (discard_setWorker (fun _ hne => by cases hne))
  | requestShutdown => exact h.frame closed rfl (fun _ _ hj => hj)

end LocalCache.Server
