import LocalCache.AsyncClientPeer
import LocalCache.ServerRequests

namespace LocalCache

open Protocol Serializer RequestCodec Library Keyed Transition Linearization

namespace Engine

def engines (config : ServerConfig) (configs : Nat → EngineConfig) (k : Nat) :
    Peer config.frameLimits Engine EngineAction :=
  peer config.frameLimits (configs k)

instance (config : ServerConfig) (configs : Nat → EngineConfig) (z : Net Engine)
    (a : NetAction EngineAction) : Decidable (Net.Assumed (engines config configs) z a) :=
  match a with
  | .peer _ (.generate (some spec) _) =>
    inferInstanceAs (Decidable (Grammatical (spec.request 0) config.frameLimits))
  | .peer _ (.generate none _) | .peer _ .internal | .peer _ (.create _ _)
  | .peer _ (.connect _ _) | .peer _ .run | .peer _ (.send _) | .peer _ (.control _)
  | .peer _ (.recv _) | .peer _ (.parse _) | .peer _ (.wait _ _) | .server _ | .accept _ _ _ =>
    isTrue trivial

theorem numbered_engines (config : ServerConfig) (configs : Nat → EngineConfig) (k : Nat) :
    (engines config configs k).Numbered :=
  numbered_peer config.frameLimits (configs k)

variable {config : ServerConfig} {configs : Nat → EngineConfig} {z : Net Engine} {k : Nat}

theorem request_of_completed (h : z.Inv (engines config configs)) {p : Nat × Completion}
    (hp : p ∈ (z.peer k).trace.completed) :
    ∃ c j, z.link c = some (k, p.1) ∧
      ⟨c, some j, p.2.response⟩ ∈ z.fed.server.ledger.answers ∧
      j.request = p.2.request.request p.2.response.requestId := by
  have haccepted : (z.peer k).Accepted config.frameLimits (configs k) := h.peers k
  have htold : (p.1, p.2.response) ∈ (z.peer k).told :=
    List.mem_map_of_mem (f := fun p : Nat × Completion => (p.1, p.2.response)) hp
  obtain ⟨c, j, hlink, hanswer, htaken, hanswers⟩ := h.answer_of_told (k := k) htold
  have hissued := haccepted.sound.books.shared.issued_of_completed hp
  have hasked : j.request ∈ listedOn p.1 (z.peer k).asked :=
    (h.requests hlink).subset (List.mem_map_of_mem htaken)
  -- The engine has used the number once.
  have heq := List.inj_on_of_nodup_map (numbered_engines config configs k _ (h.peers k))
    (mem_listedOn.mp hasked)
    (List.mem_map_of_mem (f := fun t : Ticket => (t.connection, t.request)) hissued)
    hanswers.2.symm
  exact ⟨c, j, hlink, hanswer, (Prod.mk.inj heq).2⟩

/-- Let the generators ask only for requests within the server's limits. Whatever the order in
which the engines, the event loop and the workers move and however the sockets cut the streams, no
engine ever counts a protocol failure. It completes the requests of a connection with the server's
answers in their order, each with the answer to that very request. -/
theorem engines_served (config : ServerConfig) (fds : Descriptors)
    (configs : Nat → EngineConfig) (valid : config.validate = none) {z : Net Engine}
    (h : Reach (Net.step fds (engines config configs)) (Net.Assumed (engines config configs))
      (Net.start config fds (engines config configs)) z) :
    (∀ k, (z.peer k).stats.protocolFailures = 0) ∧
      (∀ c k i, z.link c = some (k, i) →
        ((z.peer k).completedOn i).map Completion.response <+:
          (z.fed.server.answersOn c).map Answer.response) ∧
      ∀ k, ∀ p ∈ (z.peer k).trace.completed, ∃ c j, z.link c = some (k, p.1) ∧
        ⟨c, some j, p.2.response⟩ ∈ z.fed.server.ledger.answers ∧
        j.request = p.2.request.request p.2.response.requestId := by
  have hz := Net.reach_inv (ServerConfig.valid_of_validate valid) h
  refine ⟨fun k => (hz.peers k).no_failure, ?_, fun k p hp => request_of_completed hz hp⟩
  intro c k i hc
  rw [← listedOn_told]
  exact hz.responses hc

def putGetConfig (_ : Nat) : EngineConfig :=
  { socketPath := "s", connections := 1, pipelineDepth := 2, requests := 2 }

def sendPutGet : List EngineAction :=
  [.create true "", .connect (.opened 5) "", .internal, .run, .internal,
    .generate (some { opcode := .kPut, key := [1], value := [2] }) 10,
    .generate (some { opcode := .kGet, key := [1] }) 20, .internal, .internal,
    .send (.sent 51), .internal, .control true, .internal, .internal]

def serveOvertaken : List Action :=
  [.loop (.batch [(7, { epollin := true })]), .loop .internal,
    .loop (.recv (.data Server.putGet))] ++ List.replicate 8 (.loop .internal) ++
    [.loop (.control true), .loop .internal, .worker 0 0] ++ List.replicate 10 (.worker 1 0) ++
    List.replicate 7 (.worker 0 0) ++ [.loop (.batch [(6, { epollin := true })])] ++
    List.replicate 5 (.loop .internal) ++ [.loop (.send (.sent 48))]

def overtaking : List (NetAction EngineAction) :=
  sendPutGet.map (.peer 0) ++
    [.server (.loop (.batch [(3, { epollin := true })])), .server (.loop .internal),
      .accept 7 0 0, .server (.loop .acceptStop), .server (.loop .internal)] ++
    serveOvertaken.map .server ++
    (readPair (serializeResponse ⟨.kGet, .kNotFound, 2, []⟩ ++
      serializeResponse ⟨.kPut, .kOk, 1, []⟩) 2).map (.peer 0)

theorem engines_served_overtaken :
    ∃ z : Net Engine, (z.peer 0).trace.completed.map (fun p => (p.2.request.opcode,
        p.2.response.status)) = [(.kGet, .kNotFound), (.kPut, .kOk)] ∧
      z.link 1 = some (0, 0) ∧ (z.peer 0).stats.protocolFailures = 0 ∧
      ((z.peer 0).completedOn 0).map Completion.response <+:
        (z.fed.server.answersOn 1).map Answer.response := by
  obtain ⟨z, hr, hcompleted, hlink⟩ := exists_reach
    (guarded (Net.step Server.usualFds (engines Server.usualConfig putGetConfig))
      (Net.Assumed (engines Server.usualConfig putGetConfig)))
    (Net.start Server.usualConfig Server.usualFds (engines Server.usualConfig putGetConfig))
    overtaking
    (fun z => (z.peer 0).trace.completed.map (fun p => (p.2.request.opcode,
      p.2.response.status)) = [(.kGet, .kNotFound), (.kPut, .kOk)] ∧ z.link 1 = some (0, 0))
    (by decide +kernel)
  obtain ⟨hfailures, horder, -⟩ := engines_served Server.usualConfig Server.usualFds putGetConfig
    (by decide +kernel) hr.of_guarded
  exact ⟨z, hcompleted, hlink, hfailures 0, horder 1 0 0 hlink⟩

/-- If no sum of the cache can overflow and the generators ask only for requests within the server's
limits, the requests of all engines are linearizable, from the moment an engine issues one to the
moment it completes it: the responses are those of one server without concurrency. -/
theorem engines_linearizable (config : ServerConfig) (fds : Descriptors)
    (configs : Nat → EngineConfig) (valid : config.validate = none)
    (room : Server.Roomy config)
    {t : Traced (Net Engine)
      (Event Job Request Response ⊕ Event (Nat × UInt64) Request Response)}
    (h : Reach (traced (Net.step fds (engines config configs))
        (Net.emits fds (engines config configs)))
      (fun t => Net.Assumed (engines config configs) t.state)
      ⟨Net.start config fds (engines config configs), []⟩ t) :
    ∃ L, Linearizes (LruServer.object config.cacheLimits) [] (outside t.trace) L :=
  (Net.reach_histories (ServerConfig.valid_of_validate valid) room
    (numbered_engines config configs) h).linearizes

theorem engines_linearizable_overtaken :
    ∃ t : Traced (Net Engine)
        (Event Job Request Response ⊕ Event (Nat × UInt64) Request Response),
      outside t.trace = [.call (0, 1) ⟨.kPut, 1, [1], [2]⟩, .call (0, 2) ⟨.kGet, 2, [1], []⟩,
        .ret (0, 2) ⟨.kGet, .kNotFound, 2, []⟩, .ret (0, 1) ⟨.kPut, .kOk, 1, []⟩] ∧
      ∃ L, Linearizes (LruServer.object Server.usualConfig.cacheLimits) [] (outside t.trace) L := by
  obtain ⟨t, hr, htrace⟩ := exists_reach
    (guarded (traced (Net.step Server.usualFds (engines Server.usualConfig putGetConfig))
        (Net.emits Server.usualFds (engines Server.usualConfig putGetConfig)))
      (fun t => Net.Assumed (engines Server.usualConfig putGetConfig) t.state))
    ⟨Net.start Server.usualConfig Server.usualFds (engines Server.usualConfig putGetConfig), []⟩
    overtaking
    (fun t => outside t.trace = [.call (0, 1) ⟨.kPut, 1, [1], [2]⟩,
      .call (0, 2) ⟨.kGet, 2, [1], []⟩, .ret (0, 2) ⟨.kGet, .kNotFound, 2, []⟩,
      .ret (0, 1) ⟨.kPut, .kOk, 1, []⟩])
    (by decide +kernel)
  exact ⟨t, htrace, engines_linearizable Server.usualConfig Server.usualFds putGetConfig
    (by decide +kernel) (by rw [Server.Roomy]; decide) hr.of_guarded⟩

end Engine

end LocalCache
