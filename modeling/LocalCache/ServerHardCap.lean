import Mathlib.Data.Fintype.EquivFin
import LocalCache.ServerBacklog

namespace LocalCache

open Protocol Serializer Library Transition

/-- Twice the output limit, as the machine doubles it, leaves room for the longest response. -/
def ServerConfig.RoomForOne (config : ServerConfig) : Prop :=
  kHeaderSize + Server.valueBound config ≤ Word64.mul config.maxConnOutputBytes.toNat 2

instance (config : ServerConfig) : Decidable config.RoomForOne :=
  inferInstanceAs (Decidable (_ ≤ _))

namespace Connection

variable {limits : ConnectionLimits} {x : Connection} {frame : Bytes}

theorem Counted.staged_nil (h : x.Counted) (idle : x.pendingOutputBytes = 0) : x.staged = [] := by
  have hp := h.pending_eq
  rw [idle, length_unsent] at hp
  exact List.eq_nil_of_length_eq_zero (by omega)

theorem withinCap_lone (hx : x.Sound limits) (idle : x.pendingOutputBytes = 0)
    (hlen : frame.length ≤ kVectorMaxSize) :
    x.WithinCap frame ↔ frame.length ≤ Word64.mul limits.maxOutputBytes.toNat 2 := by
  have hsize : Word64.size = 18446744073709551616 := rfl
  have hmax : kVectorMaxSize = 9223372036854775807 := rfl
  rw [WithinCap, idle, Word64.add_of_lt (by omega), Nat.zero_add, hx.limits_eq]

theorem stage_lone (hx : x.Sound limits) (idle : x.pendingOutputBytes = 0)
    (hlen : frame.length ≤ kVectorMaxSize)
    (hcap : frame.length ≤ Word64.mul limits.maxOutputBytes.toNat 2) :
    ∃ y, x.stage frame = some (false, y) := by
  have hlong : ¬(x.staged.length + frame.length > kVectorMaxSize) := by
    rw [hx.counted.staged_nil idle, List.length_nil]
    omega
  cases hs : x.stage frame with
  | none => simp [stage, if_neg hlong] at hs
  | some p =>
    obtain ⟨overLimit, y⟩ := p
    cases overLimit with
    | false => exact ⟨y, rfl⟩
    | true =>
      exact absurd ((withinCap_lone hx idle hlen).mpr hcap) ((overLimit_of_stage hs).mp rfl)

theorem enqueueResponse_lone (hx : x.Sound limits) (opened : x.closed = false)
    (idle : x.pendingOutputBytes = 0) (hlen : frame.length ≤ kVectorMaxSize)
    (hcap : frame.length ≤ Word64.mul limits.maxOutputBytes.toNat 2) (completes : Bool) :
    ∃ y, x.enqueueResponse frame completes = some (true, y) := by
  obtain ⟨y, hy⟩ := stage_lone hx idle hlen hcap
  rw [enqueueResponse, opened, hy]
  exact ⟨_, rfl⟩

end Connection

namespace Server

variable {config : ServerConfig} {fds : Descriptors} {s : Server}

theorem frameBound_le (hconfig : config.Valid) : frameBound config ≤ kVectorMaxSize := by
  have hv : config.maxValueBytes.toNat ≤ 67108864 := hconfig.value_le
  have hmax : kVectorMaxSize = 9223372036854775807 := rfl
  have hheader : kHeaderSize = 24 := rfl
  rw [frameBound, valueBound]
  omega

def longest (config : ServerConfig) : Response :=
  { value := List.replicate (valueBound config) 0 }

theorem length_longest (config : ServerConfig) :
    (serializeResponse (longest config)).length = frameBound config := by
  rw [ResponseCodec.length_serializeResponse, longest, List.length_replicate, frameBound]

theorem exists_connection (fds : Descriptors) (hroom : 0 < config.maxConnections.toNat) :
    ∃ s fd, Reach (step config fds) Free (start config fds) s ∧ (fd, 1) ∈ s.connections ∧
      (s.conn 1).pendingOutputBytes = 0 := by
  obtain ⟨fd, hfd⟩ := Infinite.exists_notMem_finset
    (0 :: fds.listen :: fds.epoll :: fds.shutdown :: fds.completion ::
      (fds.signal.toList ++ fds.others)).toFinset
  simp only [List.mem_toFinset, List.mem_cons, List.mem_append, Option.mem_toList, not_or] at hfd
  obtain ⟨hzero, hlisten, hepoll, hshutdown, hcompletion, hsignal, hothers⟩ := hfd
  refine ⟨openConnection config { start config fds with loop := .accept } fd, fd,
    reach_of_exec [.loop (.batch [(fds.listen, { epollin := true })]), .loop .internal,
      .loop (.client fd true)] ?_, ?_, ?_⟩
  · have hfree : fdOpen config fds { start config fds with loop := .accept } fd = false := by
      simp [fdOpen, start, hepoll, hshutdown, hcompletion, hsignal, hothers, Ne.symm hlisten,
        Ne.symm hzero]
    have hwait : step config fds (start config fds)
        (.loop (.batch [(fds.listen, { epollin := true })])) = some { start config fds with
          todo := [.event fds.listen { epollin := true } none], loop := .next } := by
      simp [step, loopStep, start, onWait, validBatch, reportable, harvest, findConnection,
        Keyed.find, kMaxEvents]
    have hnext : step config fds { start config fds with
        todo := [.event fds.listen { epollin := true } none], loop := .next } (.loop .internal) =
        some { start config fds with loop := .accept } := by
      simp [step, loopStep, start, onNext, dispatch]
    have haccept : step config fds { start config fds with loop := .accept }
        (.loop (.client fd true)) =
        some (openConnection config { start config fds with loop := .accept } fd) := by
      have hlt : ¬ (start config fds).connections.length ≥ config.maxConnections.toNat :=
        Nat.not_le.mpr hroom
      simp [step, loopStep, onAccept, hfree, hlt]
    simp only [exec, hwait, hnext, haccept, Option.bind_some]
  · exact List.mem_cons_self
  · rfl

/-- A valid configuration leaves room for one response exactly if, in every reachable state, a
response that finds no output pending is not over the hard cap. No worker builds a response that
needs more room. -/
theorem lone_response_accepted (config : ServerConfig) (fds : Descriptors)
    (hconfig : config.validate = none) :
    config.RoomForOne ↔ ∀ s, Reach (step config fds) Free (start config fds) s →
      (∀ w response, (s.worker w).response = some response →
        response.value.length ≤ valueBound config) ∧
      (∀ w job response, s.worker w = .stage job response →
        (s.conn job.connection).pendingOutputBytes = 0 →
        ∃ x, (s.conn job.connection).stage (serializeResponse response) = some (false, x)) ∧
      ∀ fd c response completes, (fd, c) ∈ s.connections →
        (s.conn c).pendingOutputBytes = 0 → response.value.length ≤ valueBound config →
        ∃ x, (s.conn c).enqueueResponse (serializeResponse response) completes =
          some (true, x) := by
  have hvalid := ServerConfig.valid_of_validate hconfig
  have hmax := frameBound_le hvalid
  constructor
  · intro hroom s h
    have hcore := reach_core h
    have hsized := (reach_cached h).sized
    refine ⟨hsized, ?_, ?_⟩
    · intro w job response pc idle
      have hlen := frame_le (hsized w response (by rw [pc]; rfl))
      exact Connection.stage_lone (hcore.buffers _) idle (hlen.trans hmax) (hlen.trans hroom)
    · intro fd c response completes hmem idle hvalue
      have hlen := frame_le hvalue
      exact Connection.enqueueResponse_lone (hcore.buffers c) (hcore.tabled.entry hmem).2.1 idle
        (hlen.trans hmax) (hlen.trans hroom) completes
  · intro h
    obtain ⟨s, fd, hr, hmem, idle⟩ := exists_connection fds hvalid.connections_pos
    obtain ⟨x, hx⟩ := (h s hr).2.2 fd 1 (longest config) false hmem idle
      (Nat.le_of_eq List.length_replicate)
    have hwithin : (s.conn 1).WithinCap (serializeResponse (longest config)) := by
      obtain ⟨-, hfalse, -⟩ | ⟨-, y, hy, -⟩ := Connection.enqueueResponse_cases hx
      · cases hfalse
      · by_contra hover
        cases (Connection.overLimit_of_stage hy).mpr hover
    rw [Connection.withinCap_lone ((reach_core hr).buffers 1) idle
      ((length_longest config).trans_le hmax), length_longest] at hwithin
    exact hwithin

def onlyPing : Job := ⟨1, { requestId := 1 }, 0⟩

theorem lone_response_accepted_ping :
    ∃ s : Server, Reach (step usualConfig usualFds) Free (start usualConfig usualFds) s ∧
      s.worker 0 = .stage onlyPing { requestId := 1 } ∧
      ∃ x, (s.conn onlyPing.connection).stage (serializeResponse { requestId := 1 }) =
        some (false, x) := by
  obtain ⟨s, hr, pc, idle⟩ := exists_reach (step usualConfig usualFds)
    (start usualConfig usualFds)
    (connect 7 ++ [.loop (.batch [(7, { epollin := true })]), .loop .internal,
      .loop (.recv (.data (ping 1))), .loop .internal] ++ List.replicate 4 (.worker 0 0))
    (fun s => s.worker 0 = .stage onlyPing { requestId := 1 } ∧
      (s.conn onlyPing.connection).pendingOutputBytes = 0)
    (by decide +kernel)
  have hroom : usualConfig.RoomForOne := by decide +kernel
  have hvalid : usualConfig.validate = none := by decide +kernel
  exact ⟨s, hr, pc, ((lone_response_accepted usualConfig usualFds hvalid).mp hroom s hr).2.1 0
    _ _ pc idle⟩

def wrapping : ServerConfig := { narrow with maxConnOutputBytes := 0x8000000000000000 }

def PingCloses (config : ServerConfig) : Prop :=
  ∃ s : Server, Reach (step config usualFds) Free (start config usualFds) s ∧
    s.ledger.taken = [onlyPing] ∧ s.ledger.accepted 1 = serializeResponse { requestId := 1 } ∧
    (s.conn 1).closed = true

def pingAndFlush : List Action :=
  connect 7 ++ [.loop (.batch [(7, { epollin := true })]), .loop .internal,
    .loop (.recv (.data (ping 1)))] ++ submitAndAnswer ++ List.replicate 5 (.worker 0 0) ++
    List.replicate 2 (.loop .internal) ++ [.loop (.send (.sent 24))] ++
    List.replicate 3 (.loop .internal)

/-- The reply is over the cap at both ends of what `validate` accepts: it marks the connection,
which is closed once the reply is written. -/
theorem lone_response_closes :
    (narrow.validate = none ∧ PingCloses narrow) ∧
      wrapping.validate = none ∧ PingCloses wrapping := by
  refine ⟨⟨by decide +kernel, ?_⟩, by decide +kernel, ?_⟩
  · exact exists_reach _ _ pingAndFlush _ (by decide +kernel)
  · exact exists_reach _ _ pingAndFlush _ (by decide +kernel)

end Server

end LocalCache
