import LocalCache.ServerBuffers
import LocalCache.ServerTable

namespace LocalCache.Server

open Protocol Serializer Library

def frames (s : Server) (c : Nat) : Bytes :=
  ((s.ledger.answers.filter (fun a => a.connection = c)).map
    (fun a => serializeResponse a.response)).flatten

/-- What the socket took, followed by what is still buffered, are the frames staged. -/
def Streamed (s : Server) : Prop :=
  ∀ c, s.ledger.accepted c ++ (s.conn c).unsent = s.frames c

variable {config : ServerConfig} {fds : Descriptors} {s s' : Server} {a : Action} {o : Outcome}
  {w c : Nat} {x : Connection}

theorem Streamed.frame (h : s.Streamed) (answers : s'.ledger.answers = s.ledger.answers)
    (accepted : s'.ledger.accepted = s.ledger.accepted)
    (unsent : ∀ c, (s'.conn c).unsent = (s.conn c).unsent) : s'.Streamed := by
  intro c
  rw [accepted, unsent, frames, answers]
  exact h c

theorem Streamed.staged {response : Response} {job : Option Job} (h : s.Streamed)
    (conn : s'.conn = s.setConn c x)
    (hx : x.unsent = (s.conn c).unsent ++ serializeResponse response)
    (answers : s'.ledger.answers = s.ledger.answers ++ [⟨c, job, response⟩])
    (accepted : s'.ledger.accepted = s.ledger.accepted) : s'.Streamed := by
  intro d
  have hd := h d
  rw [accepted, frames, answers, conn, setConn_apply, List.filter_append, List.map_append,
    List.flatten_append]
  rw [frames] at hd
  by_cases hc : d = c
  · subst hc
    rw [if_pos rfl, hx, ← List.append_assoc, hd]
    simp
  · rw [if_neg hc, hd]
    simp [Ne.symm hc]

theorem streamed_enqueue (job : Option Job) {response : Response} {completes ok : Bool}
    {y : Connection} (h : s.Streamed) (hb : s.Buffers config)
    (he : (s.conn c).enqueueResponse (serializeResponse response) completes = some (ok, x))
    (conn : s'.conn = s.setConn c y) (hy : y.unsent = x.unsent)
    (answers : s'.ledger.answers =
      if (s.conn c).closed then s.ledger.answers else s.ledger.answers ++ [⟨c, job, response⟩])
    (accepted : s'.ledger.accepted = s.ledger.accepted) : s'.Streamed := by
  obtain ⟨-, hu⟩ := (hb c).counted.enqueueResponse he
  cases hc : (s.conn c).closed with
  | true =>
    rw [hc, if_pos rfl] at hu answers
    refine h.frame answers accepted (fun d => ?_)
    rw [conn]
    exact setConn_congr Connection.unsent (hy.trans hu) d
  | false =>
    rw [hc, if_neg Bool.false_ne_true] at hu answers
    exact h.staged conn (hy.trans hu) answers accepted

theorem streamed_worker (h : s.Streamed) (hs : WorkerStep s w s') : s'.Streamed := by
  cases hs with
  | stage job response overLimit x pc hx =>
    exact h.staged rfl (Connection.unsent_stage hx) rfl rfl
  | discard job | decrement c | unhealthy c | notify c =>
    exact h.frame rfl rfl (setConn_congr Connection.unsent rfl)
  | _ => exact h.frame rfl rfl (fun _ => rfl)

theorem unsent_of_input (y : Connection) {inBuf : Bytes} {inPos : Nat}
    (h : x = { y with inBuf := inBuf, inPos := inPos }) : x.unsent = y.unsent := by
  rw [h]
  rfl

theorem streamed_loop (h : s.Streamed) (hb : s.Buffers config) (ht : s.Tabled config)
    (hs : LoopStep config fds s o s') : s'.Streamed := by
  cases hs with
  | busy job ok x pc he =>
    refine streamed_enqueue (some job) h hb he rfl rfl ?_ ?_
    · simp only [recordAnswer]
      split <;> rfl
    · simp only [recordAnswer]
      split <;> rfl
  | immediate c response ok x pc he =>
    refine streamed_enqueue none h hb he rfl ?_ ?_ ?_
    · cases ok <;> rfl
    · dsimp only
      split <;> rfl
    · dsimp only
      split <;> rfl
  | sent c k n pc hle =>
    intro d
    have hd := h d
    rw [frames] at hd ⊢
    dsimp only
    by_cases hc : d = c
    · subst hc
      rw [Function.update_self, setConn_same, List.append_assoc, Connection.unsent_advance]
      exact hd
    · rw [Function.update_of_ne hc, setConn_of_ne hc]
      exact hd
  | opened fd pc =>
    refine h.frame rfl rfl (setConn_congr Connection.unsent ?_)
    rw [ht.fresh _ (Nat.le_refl _)]
    rfl
  | finish pc =>
    refine h.frame rfl rfl (fun c => ?_)
    rw [closeAll]
    dsimp only
    split <;> rfl
  | flushMore c k x pc hr =>
    have hu := Connection.unsent_refill (hb c).counted
    rw [hr] at hu
    exact h.frame rfl rfl (setConn_congr Connection.unsent hu)
  | flushed c k x pc hr =>
    have hu := Connection.unsent_refill (hb c).counted
    rw [hr] at hu
    exact h.frame rfl rfl (setConn_congr Connection.unsent hu)
  | needMore c out x error n pc room hn =>
    have hu := unsent_of_input _ (Connection.nextRequest_frame hn)
    exact h.frame rfl rfl (setConn_congr Connection.unsent hu)
  | malformed c out x error n id opcode pc room hn =>
    have hu := unsent_of_input _ (Connection.nextRequest_frame hn)
    exact h.frame rfl rfl (setConn_congr Connection.unsent hu)
  | unidentified c out x error n pc room hn =>
    have hu := unsent_of_input _ (Connection.nextRequest_frame hn)
    exact h.frame rfl rfl (setConn_congr Connection.unsent hu)
  | submit c request x error n pc room hn =>
    have hu := unsent_of_input _ (Connection.nextRequest_frame hn)
    exact h.frame rfl rfl (setConn_congr Connection.unsent hu)
  | refuse c request x error n pc room hn =>
    have hu := unsent_of_input _ (Connection.nextRequest_frame hn)
    exact h.frame rfl rfl (setConn_congr Connection.unsent hu)
  | ready c | readData c | closedBefore c | close c | register c =>
    exact h.frame rfl rfl (setConn_congr Connection.unsent rfl)
  | _ => exact h.frame rfl rfl (fun _ => rfl)

theorem step_streamed (h : s.Streamed) (hb : s.Buffers config) (ht : s.Tabled config)
    (hs : Step config fds s a s') : s'.Streamed := by
  cases hs with
  | loop hl => exact streamed_loop h hb ht hl
  | worker _ hs => exact streamed_worker h hs
  | requestShutdown => exact h.frame rfl rfl (fun _ => rfl)

end LocalCache.Server
