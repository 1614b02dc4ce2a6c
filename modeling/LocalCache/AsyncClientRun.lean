import Mathlib.Data.List.Nodup
import LocalCache.AsyncClient
import LocalCache.Library.Threads
import LocalCache.Library.Transition

namespace LocalCache

open Protocol Serializer Library Keyed Threads Transition

namespace Engine

def Phase.handles : Phase → Option Nat
  | .handle i _ _ => some i
  | _ => none

def Phase.failing : Phase → Nat
  | .handle _ .failed _ => 1
  | _ => 0

/-- The first of the connections that the first loop of `run` has not come to yet. -/
def Phase.frontier : Phase → Option Nat
  | .created | .connecting | .unconnected _ | .connected => some 0
  | .begin i => some i
  | .handle i _ .begin => some (i + 1)
  | _ => none

def Phase.Follows (p q : Phase) : Prop := ∀ k ∈ q.frontier, ∃ m ∈ p.frontier, m ≤ k

def Conn.alive (c : Conn) : Nat := if c.live then 1 else 0

/-- The connections are those of `connect_all`, and the handlers run on open ones. -/
structure Fleet (config : EngineConfig) (e : Engine) : Prop where
  fresh : ∀ i, e.conns ≤ i → e.conn i = {}
  watched : ∀ i, (e.conn i).watched.isSome = (e.conn i).live
  opened : ∀ i, (e.conn i).fd.isSome = (e.conn i).live
  handled : ∀ i ∈ e.phase.handles, (e.conn i).live = true
  ahead : ∀ k ∈ e.phase.frontier, ∀ i, k ≤ i → i < e.conns → (e.conn i).live = true
  indices : ∀ i < e.conns, (e.conn i).index = config.firstConnection + i
  alive : e.liveConnections = total e.conns Conn.alive e.conn
  io : e.stats.ioFailures + e.liveConnections = e.conns
  conns_le : e.conns ≤ config.connections
  protocol : e.stats.protocolFailures ≤ e.stats.ioFailures + e.phase.failing

variable {config : EngineConfig} {e e' : Engine} {a : EngineAction} {i j : Nat} {c : Conn}

theorem conn_congr {β : Type} (f : Conn → β) (h : f c = f (e.conn i)) (j : Nat) :
    f (Function.update e.conn i c j) = f (e.conn j) := by
  rw [Function.update_apply]
  split
  · rename_i hj
    rw [h, hj]
  · rfl

theorem drop_of_live (h : (e.conn i).live = true) :
    e.drop i = { e with
      conn := Function.update e.conn i (e.conn i).close
      liveConnections := e.liveConnections - 1
      stats := { e.stats with ioFailures := e.stats.ioFailures + 1 } } := by
  rw [drop, h]
  rfl

namespace Fleet

theorem lt_conns (h : e.Fleet config) (live : (e.conn i).live = true) : i < e.conns := by
  by_contra hi
  rw [h.fresh i (Nat.le_of_not_lt hi)] at live
  cases live

theorem frame (h : e.Fleet config) (conns : e'.conns = e.conns)
    (live : ∀ j, (e'.conn j).live = (e.conn j).live)
    (watched : ∀ j, (e'.conn j).watched.isSome = (e.conn j).watched.isSome)
    (fd : ∀ j, (e'.conn j).fd = (e.conn j).fd) (index : ∀ j, (e'.conn j).index = (e.conn j).index)
    (fresh : ∀ j, e.conns ≤ j → e'.conn j = e.conn j)
    (liveConnections : e'.liveConnections = e.liveConnections)
    (io : e'.stats.ioFailures = e.stats.ioFailures)
    (protocol : e'.stats.protocolFailures + e.phase.failing ≤
      e.stats.protocolFailures + e'.phase.failing)
    (handled : ∀ j ∈ e'.phase.handles, (e.conn j).live = true)
    (follows : e.phase.Follows e'.phase) : e'.Fleet config where
  fresh := by
    intro j hj
    rw [conns] at hj
    rw [fresh j hj]
    exact h.fresh j hj
  watched := by
    intro j
    rw [watched, live]
    exact h.watched j
  opened := by
    intro j
    rw [fd, live]
    exact h.opened j
  handled := by
    intro j hj
    rw [live]
    exact handled j hj
  ahead := by
    intro k hk j hkj hj
    obtain ⟨m, hm, hle⟩ := follows k hk
    rw [live]
    exact h.ahead m hm j (hle.trans hkj) (conns ▸ hj)
  indices := by
    intro j hj
    rw [index]
    exact h.indices j (conns ▸ hj)
  alive := by
    have hsame : total e.conns Conn.alive e'.conn = total e.conns Conn.alive e.conn := by
      unfold total
      refine Finset.sum_congr rfl (fun j _ => ?_)
      rw [Conn.alive, Conn.alive, live]
    rw [liveConnections, conns, hsame]
    exact h.alive
  io := by
    rw [io, liveConnections, conns]
    exact h.io
  conns_le := conns ▸ h.conns_le
  protocol := by
    have hp := h.protocol
    rw [io]
    omega

theorem still (h : e.Fleet config) (conns : e'.conns = e.conns) (conn : e'.conn = e.conn)
    (liveConnections : e'.liveConnections = e.liveConnections)
    (io : e'.stats.ioFailures = e.stats.ioFailures)
    (protocol : e'.stats.protocolFailures + e.phase.failing ≤
      e.stats.protocolFailures + e'.phase.failing)
    (handled : ∀ j ∈ e'.phase.handles, (e.conn j).live = true)
    (follows : e.phase.Follows e'.phase) : e'.Fleet config :=
  h.frame conns (fun _ => by rw [conn]) (fun _ => by rw [conn]) (fun _ => by rw [conn])
    (fun _ => by rw [conn]) (fun _ _ => by rw [conn]) liveConnections io protocol handled follows

theorem change (h : e.Fleet config) (hi : (e.conn i).live = true) (conns : e'.conns = e.conns)
    (conn : e'.conn = Function.update e.conn i c) (live : c.live = (e.conn i).live)
    (watched : c.watched.isSome = (e.conn i).watched.isSome) (fd : c.fd = (e.conn i).fd)
    (index : c.index = (e.conn i).index) (liveConnections : e'.liveConnections = e.liveConnections)
    (io : e'.stats.ioFailures = e.stats.ioFailures)
    (protocol : e'.stats.protocolFailures + e.phase.failing ≤
      e.stats.protocolFailures + e'.phase.failing)
    (handled : ∀ j ∈ e'.phase.handles, (e.conn j).live = true)
    (follows : e.phase.Follows e'.phase) : e'.Fleet config := by
  refine h.frame conns ?_ ?_ ?_ ?_ ?_ liveConnections io protocol handled follows <;> rw [conn]
  · exact conn_congr Conn.live live
  · exact conn_congr (fun c => c.watched.isSome) watched
  · exact conn_congr Conn.fd fd
  · exact conn_congr Conn.index index
  · intro j hj
    apply Function.update_of_ne
    rintro rfl
    exact absurd (h.lt_conns hi) (Nat.not_lt.mpr hj)

theorem alive_update (h : e.Fleet config) (hi : (e.conn i).live = true) (dead : c.live = false) :
    total e.conns Conn.alive (Function.update e.conn i c) + 1 = e.liveConnections := by
  have ht := total_update (h.lt_conns hi) Conn.alive e.conn c
  have hold : (e.conn i).alive = 1 := by rw [Conn.alive, if_pos hi]
  have hnew : c.alive = 0 := by simp [Conn.alive, dead]
  rw [hold, hnew] at ht
  rw [h.alive]
  exact ht

theorem dropped {phase : Phase} (h : e.Fleet config) (hi : (e.conn i).live = true)
    (failing : e.phase.failing ≤ 1) (handled : phase.handles = none)
    (ahead : ∀ k ∈ phase.frontier, k = i + 1 ∧ k ∈ e.phase.frontier) :
    Fleet config { e.drop i with phase := phase } := by
  rw [drop_of_live hi]
  have hlt := h.lt_conns hi
  have halive := h.alive_update (c := (e.conn i).close) hi rfl
  have hio := h.io
  have hp := h.protocol
  refine ⟨?_, ?_, ?_, ?_, ?_, ?_, ?_, ?_, h.conns_le, ?_⟩
  · intro j hj
    dsimp only at hj ⊢
    rw [Function.update_of_ne (Nat.ne_of_gt (Nat.lt_of_lt_of_le hlt hj))]
    exact h.fresh j hj
  · intro j
    dsimp only
    rw [Function.update_apply]
    split
    · rfl
    · exact h.watched j
  · intro j
    dsimp only
    rw [Function.update_apply]
    split
    · rfl
    · exact h.opened j
  · intro j hj
    dsimp only at hj
    rw [handled] at hj
    cases hj
  · intro k hk j hkj hj
    obtain ⟨rfl, hk⟩ := ahead k hk
    dsimp only
    rw [Function.update_of_ne (by omega)]
    exact h.ahead _ hk j hkj hj
  · intro j hj
    exact (conn_congr (e := e) (i := i) (c := (e.conn i).close) Conn.index rfl j).trans
      (h.indices j hj)
  · exact Nat.sub_eq_of_eq_add halive.symm
  · dsimp only
    omega
  · dsimp only
    omega

theorem opening {fd : Nat} (h : e.Fleet config) (pc : e.phase = .connecting)
    (room : e.conns < config.connections) :
    Fleet config { e with
      conn := Function.update e.conn e.conns
        { fd := some fd, index := config.firstConnection + e.conns, live := true,
          watched := some kEngineEvents }
      conns := e.conns + 1
      liveConnections := e.liveConnections + 1 } := by
  refine ⟨?_, ?_, ?_, ?_, ?_, ?_, ?_, ?_, room, ?_⟩
  · intro j hj
    dsimp only at hj ⊢
    rw [Function.update_of_ne (by omega)]
    exact h.fresh j (by omega)
  · intro j
    dsimp only
    rw [Function.update_apply]
    split
    · rfl
    · exact h.watched j
  · intro j
    dsimp only
    rw [Function.update_apply]
    split
    · rfl
    · exact h.opened j
  · intro j hj
    dsimp only at hj
    rw [pc] at hj
    cases hj
  · intro k hk j hkj hj
    dsimp only at hk hj ⊢
    rw [Function.update_apply]
    split
    · rfl
    · exact h.ahead k hk j hkj (by omega)
  · intro j hj
    dsimp only at hj ⊢
    rw [Function.update_apply]
    split
    · rename_i he
      rw [he]
    · exact h.indices j (by omega)
  · dsimp only
    rw [total_succ, total_update_of_le (Nat.le_refl _), Function.update_self, h.alive]
    rfl
  · have hio := h.io
    dsimp only
    omega
  · exact h.protocol

end Fleet

theorem handles_next (caller : Caller) : ∀ j ∈ (caller.next i).handles, j = i := by
  intro j hj
  cases caller with
  | begin | writable rest => cases hj
  | readable flags rest =>
    rw [Caller.next] at hj
    split at hj
    · exact (Option.some.inj hj).symm
    · cases hj

theorem failing_next (caller : Caller) : (caller.next i).failing = 0 := by
  cases caller with
  | begin | writable rest => rfl
  | readable flags rest =>
    rw [Caller.next]
    split <;> rfl

theorem frontier_next (stage : Stage) (caller : Caller) :
    (caller.next i).frontier = (Phase.handle i stage caller).frontier := by
  cases caller with
  | begin | writable rest => rfl
  | readable flags rest =>
    rw [Caller.next]
    split <;> rfl

theorem handles_dropped (caller : Caller) : (caller.dropped i).handles = none := by
  cases caller <;> rfl

theorem frontier_dropped (stage : Stage) (caller : Caller) : ∀ k ∈ (caller.dropped i).frontier,
    k = i + 1 ∧ k ∈ (Phase.handle i stage caller).frontier := by
  intro k hk
  cases caller with
  | begin =>
    obtain rfl := Option.some.inj hk
    exact ⟨rfl, rfl⟩
  | readable flags rest | writable rest => cases hk

theorem failing_le (phase : Phase) : phase.failing ≤ 1 := by
  unfold Phase.failing
  split
  · exact Nat.le_refl _
  · exact Nat.zero_le _

theorem failing_filled (again : Bool) (caller : Caller) :
    (Phase.handle i (filled again) caller).failing = 0 := by
  cases again <;> rfl

namespace Phase.Follows

theorem of_eq {p q : Phase} (h : q.frontier = p.frontier) : p.Follows q := by
  intro k hk
  exact ⟨k, h ▸ hk, Nat.le_refl _⟩

theorem of_none {p q : Phase} (h : q.frontier = none) : p.Follows q := by
  intro k hk
  rw [h] at hk
  cases hk

end Phase.Follows

theorem fleet_start : Fleet config {} where
  fresh := fun _ _ => rfl
  watched := fun _ => rfl
  opened := fun _ => rfl
  handled := fun _ hi => by cases hi
  ahead := fun _ _ _ _ hi => absurd hi (Nat.not_lt_zero _)
  indices := fun _ hi => absurd hi (Nat.not_lt_zero _)
  alive := rfl
  io := rfl
  conns_le := Nat.zero_le _
  protocol := Nat.zero_le _

namespace Fleet

theorem handled_of_phase {stage : Stage} {caller : Caller} (h : e.Fleet config)
    (pc : e.phase = .handle i stage caller) : (e.conn i).live = true :=
  h.handled i (by rw [pc]; rfl)

theorem relocate {phase : Phase} (h : e.Fleet config) (failing : e.phase.failing ≤ phase.failing)
    (handled : ∀ j ∈ phase.handles, (e.conn j).live = true) (follows : e.phase.Follows phase) :
    Fleet config { e with phase := phase } :=
  h.still rfl rfl rfl rfl (Nat.add_le_add_left failing _) handled follows

theorem handles_live {stage stage' : Stage} {caller : Caller} (h : e.Fleet config)
    (pc : e.phase = .handle i stage caller) :
    ∀ j ∈ (Phase.handle i stage' caller).handles, (e.conn j).live = true := by
  intro j hj
  obtain rfl := Option.some.inj hj
  exact h.handled_of_phase pc

theorem follows_handle {stage stage' : Stage} {caller : Caller}
    (pc : e.phase = .handle i stage caller) : e.phase.Follows (.handle i stage' caller) := by
  rw [pc]
  exact .of_eq (by cases caller <;> rfl)

end Fleet

open Fleet in
theorem fleet_moves (h : e.Fleet config) (hm : e.Moves config a e') : e'.Fleet config := by
  cases hm with
  | opened fd errno pc room => exact h.opening pc room
  | dropped i caller pc =>
    refine h.dropped (h.handled_of_phase pc) (failing_le _) (handles_dropped caller) ?_
    rw [pc]
    exact frontier_dropped .failed caller
  | hungUp i flags rest pc live =>
    exact h.dropped live (failing_le _) rfl (fun _ hk => by cases hk)
  | connectFailed r errno error pc =>
    exact h.still rfl rfl rfl rfl (by rw [pc]; exact Nat.le_refl _) (fun _ hj => by cases hj)
      (by rw [pc]; exact .of_eq rfl)
  | issued i again caller spec now pc room =>
    exact h.change (h.handled_of_phase pc) rfl rfl rfl rfl rfl rfl rfl rfl (Nat.le_refl _)
      h.handled (.of_eq rfl)
  | sent i caller n pc pos le =>
    exact h.change (h.handled_of_phase pc) rfl rfl rfl rfl rfl rfl rfl rfl (Nat.le_refl _)
      h.handled (.of_eq rfl)
  | received i caller bytes pc pos =>
    exact h.change (h.handled_of_phase pc) rfl rfl rfl rfl rfl rfl rfl rfl (Nat.le_refl _)
      h.handled (.of_eq rfl)
  | flushed i caller pc all =>
    exact h.change (h.handled_of_phase pc) rfl rfl rfl rfl rfl rfl rfl rfl
      (by rw [pc]; exact Nat.le_refl _) (h.handles_live pc) (follows_handle pc)
  | parsed i consumed caller now pc why =>
    exact h.change (h.handled_of_phase pc) rfl rfl rfl rfl rfl rfl rfl rfl
      (by rw [pc]; exact Nat.le_refl _) (h.handles_live pc) (follows_handle pc)
  | completed i consumed caller now p response rest pc le frame value_le hit opcode =>
    refine h.change (h.handled_of_phase pc) rfl rfl rfl rfl rfl rfl rfl rfl ?_
      (h.handles_live pc) (follows_handle pc)
    rw [pc]
    simp only [complete, Phase.failing, Nat.le_refl]
  | registered i wantWrite caller pc =>
    have live := h.handled_of_phase pc
    refine h.change live rfl rfl rfl ?_ rfl rfl rfl rfl
      (by rw [pc, failing_next]; exact Nat.le_refl _) ?_ ?_
    · rw [h.watched, live]
      rfl
    · intro j hj
      rw [handles_next caller j hj]
      exact live
    · rw [pc]
      exact .of_eq (frontier_next _ caller)
  | malformed i consumed caller now pc | uncorrelated i consumed caller now response rest pc =>
    exact h.still rfl rfl rfl rfl (by rw [pc]; exact Nat.le_refl _) (h.handles_live pc)
      (follows_handle pc)
  | interrupted => exact h
  | begins i pc hi =>
    refine h.relocate (by rw [pc]; exact Nat.le_refl _) ?_ ?_
    · intro j hj
      obtain rfl := Option.some.inj hj
      exact h.ahead i (by rw [pc]; rfl) i (Nat.le_refl _) hi
    · intro k hk
      obtain rfl := Option.some.inj hk
      exact ⟨i, by rw [pc]; rfl, Nat.le_succ i⟩
  | filled i again caller pc | exhausted i again caller now pc =>
    exact h.still rfl rfl rfl rfl (by rw [pc, failing_filled]; exact Nat.le_refl _)
      (h.handles_live pc) (follows_handle pc)
  | blocked i caller pc | drained i caller pc =>
    exact h.relocate (by rw [pc]; exact Nat.le_refl _) (h.handles_live pc) (follows_handle pc)
  | fails a i stage caller pc =>
    exact h.relocate (failing_le _) (h.handles_live pc) (follows_handle pc)
  | readable i flags rest pc live | writable i flags rest pc live =>
    refine h.relocate (by rw [pc]; exact Nat.le_refl _) ?_ (.of_none rfl)
    intro j hj
    obtain rfl := Option.some.inj hj
    exact live
  | rejected _ _ _ pc | created _ _ pc | optionFailed _ _ _ pc | connected pc | started pc =>
    exact h.relocate (by rw [pc]; exact Nat.zero_le _) (fun _ hj => by cases hj)
      (by rw [pc]; exact .of_eq rfl)
  | begun _ pc | done pc | deserted pc | waits pc | batch _ _ pc | gaveUp _ _ _ pc
  | rechecked _ pc | handled pc | skipped _ _ _ pc =>
    exact h.relocate (by rw [pc]; exact Nat.zero_le _) (fun _ hj => by cases hj) (.of_none rfl)

end Engine

end LocalCache
