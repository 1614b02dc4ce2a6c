import LocalCache.System

namespace LocalCache

open Protocol Serializer Library

namespace System

/-- What holds of the streams between the server and its clients: requests are answered in the
order in which they were taken. -/
structure Streams (config : ServerConfig) (keys : Nat → Bytes → Prop) (paths : Nat → String)
    (z : Net CacheClient) : Prop where
  net : z.Inv (sessions config keys paths)
  ordered : ∀ c, (z.fed.server.answersOn c).map Answer.job <+:
    (z.fed.server.takenOn c).map some

variable {config : ServerConfig} {fds : Descriptors} {keys : Nat → Bytes → Prop}
  {paths : Nat → String} {z z' : Net CacheClient} {a : Action} {c i n : Nat} {j : Job} {q : Issue}
  {fed : Fed}

theorem concat_of_map {α β : Type} {f : α → β} {l : List α} {front : List β} {last : β}
    (h : l.map f = front ++ [last]) : ∃ xs x, l = xs ++ [x] ∧ xs.map f = front ∧ f x = last := by
  obtain ⟨xs, rest, hl, hfront, hrest⟩ := List.map_eq_append_iff.mp h
  obtain ⟨x, rfl, hx⟩ := List.map_eq_singleton_iff.mp hrest
  exact ⟨xs, x, hl, hfront, hx⟩

theorem Streams.client (h : Streams config keys paths z) (i : Nat) :
    (z.peer i).Session config.frameLimits (Permitted config (keys i)) :=
  h.net.peers i

theorem Streams.requests (h : Streams config keys paths z) (hlink : z.link c = some (i, n)) :
    (z.fed.server.takenOn c).map Job.request <+: ((z.peer i).issuedOn n).map Issue.request := by
  rw [← CacheClient.listedOn_asked]
  exact h.net.requests hlink

theorem Streams.responses (h : Streams config keys paths z) (hlink : z.link c = some (i, n)) :
    ((z.peer i).trace.used n).map Reply.response <+:
      (z.fed.server.answersOn c).map Answer.response := by
  rw [← CacheClient.listedOn_told]
  exact h.net.responses hlink

/-- Of all that a client has asked on a connection, the server has taken, answered and the client
has seen less and less, but at most the last request is missing. -/
theorem Streams.lengths (h : Streams config keys paths z) (hlink : z.link c = some (i, n)) :
    ((z.peer i).trace.used n).length ≤ (z.fed.server.answersOn c).length ∧
      (z.fed.server.answersOn c).length ≤ (z.fed.server.takenOn c).length ∧
      (z.fed.server.takenOn c).length ≤ ((z.peer i).issuedOn n).length ∧
      ((z.peer i).issuedOn n).length = ((z.peer i).trace.used n).length +
        if (z.peer i).phase.issue.map (·.connection) = some n then 1 else 0 := by
  have hresponses := (h.responses hlink).length_le
  have hordered := (h.ordered c).length_le
  have hrequests := (h.requests hlink).length_le
  simp only [List.length_map] at hresponses hordered hrequests
  exact ⟨hresponses, hordered, hrequests, (h.client i).whole.count (h.client i).inv n⟩

theorem Streams.last_request {front : List Job} (h : Streams config keys paths z)
    (hlink : z.link c = some (i, q.connection)) (current : (z.peer i).phase.issue = some q)
    (htaken : z.fed.server.takenOn c = front ++ [j])
    (hcount : (z.fed.server.takenOn c).length = ((z.peer i).issuedOn q.connection).length) :
    j.request = q.request := by
  obtain ⟨issues, hissues⟩ := CacheClient.issuedOn_current (h.client i).inv current
  have hrequests := (h.requests hlink).eq_of_length (by simp only [List.length_map, hcount])
  rw [htaken, hissues, List.map_append, List.map_append] at hrequests
  exact List.singleton_inj.mp (List.append_inj' hrequests rfl).2

structure Serves (z : Net CacheClient) (j : Job) (i : Nat) (q : Issue) : Prop where
  link : z.link j.connection = some (i, q.connection)
  current : (z.peer i).phase.issue = some q
  request : j.request = q.request
  last : ∃ front, z.fed.server.takenOn j.connection = front ++ [j] ∧
    (z.fed.server.answersOn j.connection).map Answer.job = front.map some
  count : (z.fed.server.takenOn j.connection).length =
    ((z.peer i).issuedOn q.connection).length

theorem Serves.unique (h : Streams config keys paths z) {j' : Job} {q' : Issue}
    (hj : Serves z j i q) (hj' : Serves z j' i q') : j = j' := by
  obtain rfl : q = q' := Option.some.inj (hj.current.symm.trans hj'.current)
  have hconn := h.net.wired.injective _ _ _ hj.link hj'.link
  obtain ⟨front, htaken, -⟩ := hj.last
  obtain ⟨front', htaken', -⟩ := hj'.last
  rw [hconn, htaken'] at htaken
  exact (List.append_inj' htaken rfl).2 |> List.singleton_inj.mp |> Eq.symm

theorem Streams.serves (h : Streams config keys paths z)
    (hj : j ∈ z.fed.server.ledger.taken) (hun : z.fed.server.answered j = 0) :
    ∃ i q, Serves z j i q := by
  have hmem := Server.mem_takenOn hj
  cases hlink : z.link j.connection with
  | none =>
    rw [h.net.takenOn_unlinked hlink] at hmem
    cases hmem
  | some p =>
    obtain ⟨i, n⟩ := p
    have hnot : some j ∉ (z.fed.server.answersOn j.connection).map Answer.job := by
      intro ha
      obtain ⟨a, ha, haj⟩ := List.mem_map.mp ha
      exact List.countP_eq_zero.mp hun a (List.mem_filter.mp ha).1 (decide_eq_true haj)
    obtain ⟨rest, hrest⟩ := h.ordered j.connection
    have hin : some j ∈ rest := by
      have hj' : some j ∈ (z.fed.server.takenOn j.connection).map some :=
        List.mem_map_of_mem hmem
      rw [← hrest] at hj'
      exact (List.mem_append.mp hj').resolve_left hnot
    obtain ⟨hua, -, hti, hcount⟩ := h.lengths hlink
    have hlen := congrArg List.length hrest
    simp only [List.length_append, List.length_map] at hlen
    have hpos := List.length_pos_of_mem hin
    have hissue : (z.peer i).phase.issue.map (·.connection) = some n := by
      by_contra hne
      rw [if_neg hne] at hcount
      omega
    rw [if_pos hissue] at hcount
    obtain ⟨q, hq, rfl⟩ := Option.map_eq_some_iff.mp hissue
    obtain ⟨x, hx⟩ := List.length_eq_one_iff.mp (show rest.length = 1 by omega)
    rw [hx, List.mem_singleton] at hin
    rw [hx, ← hin] at hrest
    obtain ⟨front, job, htaken, hfront, hjob⟩ := concat_of_map hrest.symm
    obtain rfl := Option.some.inj hjob
    have hall : (z.fed.server.takenOn job.connection).length =
        ((z.peer i).issuedOn q.connection).length := by omega
    exact ⟨i, q, hlink, hq, h.last_request hlink hq htaken hall, ⟨front, htaken, hfront.symm⟩,
      hall⟩

theorem streams_start (config : ServerConfig) (fds : Descriptors) (keys : Nat → Bytes → Prop)
    (paths : Nat → String) :
    Streams config keys paths (Net.start config fds (sessions config keys paths)) where
  net := Net.inv_start config fds (sessions config keys paths)
  ordered := fun _ => List.nil_prefix

theorem jobStep_fed (hs : z.fed.step config fds a = some fed) :
    Server.JobStep config z.fed.server a fed.server :=
  Server.jobStep_of_step (Server.step_sound (Fed.step_server hs).1)

/-- Answers keep the order in which the requests were taken, as every client waits. -/
theorem ordered_fed (h : Streams config keys paths z)
    (hs : Server.JobStep config z.fed.server a fed.server) (c : Nat) :
    (fed.server.answersOn c).map Answer.job <+: (fed.server.takenOn c).map some := by
  cases hs with
  | kept runs cache taken answers jobs =>
    rw [Server.takenOn_congr taken, Server.answersOn_congr answers]
    exact h.ordered c
  | took job runs cache taken answers waiting carrying =>
    rw [Server.takenOn_took taken, Server.answersOn_congr answers, List.map_append]
    exact (h.ordered c).trans (List.prefix_append _ _)
  | ran job uptimeMs response tally runs waits result taken answers waiting carries carrying =>
    rw [Server.takenOn_congr taken, Server.answersOn_congr answers]
    exact h.ordered c
  | answered job response runs cache ready taken answers jobs =>
    rw [Server.takenOn_congr taken, Server.answersOn_answered answers]
    dsimp only
    by_cases hc : job.connection = c
    · subst hc
      obtain ⟨hmem, hun⟩ := h.net.core.unanswered_of_ready ready
      obtain ⟨i, q, hserves⟩ := h.serves hmem hun
      obtain ⟨front, htaken, hanswers⟩ := hserves.last
      rw [if_pos rfl, List.map_append, hanswers, htaken, List.map_append]
      exact List.prefix_refl _
    · rw [if_neg hc, List.append_nil]
      exact h.ordered c
  | replied p reply =>
    rw [h.net.reply] at reply
    cases reply

theorem streams_moves (hconfig : config.Valid) (h : Streams config keys paths z)
    {a : NetAction ClientAction} (ok : Net.Assumed (sessions config keys paths) z a)
    (hm : Net.Moves fds (sessions config keys paths) z a z') : Streams config keys paths z' := by
  refine ⟨Net.inv_moves hconfig h.net ok hm, ?_⟩
  cases hm with
  | served a fed arrives hs => exact ordered_fed h (jobStep_fed hs)
  | accepted fd i n fed awaits hs more => exact ordered_fed h (jobStep_fed hs)
  | rejected fd i n fed hs => exact ordered_fed h (jobStep_fed hs)
  | moved i a c delivers hs => exact h.ordered

end System

end LocalCache
