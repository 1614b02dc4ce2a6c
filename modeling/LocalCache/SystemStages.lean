import LocalCache.SystemStreams
import LocalCache.Library.Sessions

namespace LocalCache

open Protocol Serializer Library Sessions

namespace System

abbrev Progress := Slot Operation (Status × Bytes)

def Refused (slot : Progress) (r : Response) : Prop :=
  r.status = .kServerBusy ∧ r.value = [] ∧ ∃ op, slot = .pending op

def Served (slot : Progress) (r : Response) : Prop :=
  r.status ≠ .kServerBusy ∧ ∃ op, slot = .served op (r.status, r.value)

/-- How far the operation of client `i` has come in the system, seen from the places where its
request or its response can be. -/
structure Stage (config : ServerConfig) (z : Net CacheClient) (i : Nat) (slot : Progress) :
    Prop where
  idle : (z.peer i).phase.issue = none → slot = .idle
  busy : ∀ q, (z.peer i).phase.issue = some q →
    slot = .pending q.op ∨ ∃ answer, slot = .served q.op answer
  untaken : ∀ q, (z.peer i).phase.issue = some q →
    (∀ c, z.link c = some (i, q.connection) →
      (z.fed.server.takenOn c).length < ((z.peer i).issuedOn q.connection).length) →
    slot = .pending q.op
  waiting : ∀ j n, z.fed.server.Waiting config j → z.link j.connection = some (i, n) →
    ∃ op, slot = .pending op
  carrying : ∀ j r n, z.fed.server.Carrying config j r → z.link j.connection = some (i, n) →
    Served slot r
  answered : ∀ q c x, (z.peer i).phase.issue = some q → z.link c = some (i, q.connection) →
    (z.fed.server.answersOn c).length = ((z.peer i).issuedOn q.connection).length →
    (z.fed.server.answersOn c).getLast? = some x →
    Refused slot x.response ∨ Served slot x.response

variable {config : ServerConfig} {keys : Nat → Bytes → Prop} {paths : Nat → String}
  {z z' : Net CacheClient} {c i n : Nat} {j : Job} {q : Issue} {slot : Progress}

theorem Streams.serves_client (h : Streams config keys paths z)
    (hj : j ∈ z.fed.server.ledger.taken ∧ z.fed.server.answered j = 0)
    (hlink : z.link j.connection = some (i, n)) : ∃ q, Serves z j i q := by
  obtain ⟨k, q, hserves⟩ := h.serves hj.1 hj.2
  obtain ⟨rfl, -⟩ := Prod.mk.inj (Option.some.inj (hserves.link.symm.trans hlink))
  exact ⟨q, hserves⟩

theorem Stage.op_eq {op : Operation} (h : Stage config z i slot)
    (current : (z.peer i).phase.issue = some q)
    (hslot : slot = .pending op ∨ ∃ answer, slot = .served op answer) : op = q.op := by
  obtain hq | ⟨_, hq⟩ := h.busy q current <;> obtain hop | ⟨_, hop⟩ := hslot <;>
    cases hq.symm.trans hop
  · rfl
  · rfl

theorem Stage.frame (h : Stage config z i slot)
    (issue : (z'.peer i).phase.issue = (z.peer i).phase.issue)
    (issued : (z'.peer i).trace.issued = (z.peer i).trace.issued) (link : z'.link = z.link)
    (taken : ∀ c n, z.link c = some (i, n) →
      z'.fed.server.takenOn c = z.fed.server.takenOn c)
    (answers : ∀ c n, z.link c = some (i, n) →
      z'.fed.server.answersOn c = z.fed.server.answersOn c)
    (waiting : ∀ j n, z.link j.connection = some (i, n) → z'.fed.server.Waiting config j →
      z.fed.server.Waiting config j)
    (carrying : ∀ j r n, z.link j.connection = some (i, n) → z'.fed.server.Carrying config j r →
      z.fed.server.Carrying config j r) : Stage config z' i slot := by
  have hissued : ∀ n, (z'.peer i).issuedOn n = (z.peer i).issuedOn n := by
    intro n
    rw [CacheClient.issuedOn, issued, CacheClient.issuedOn]
  refine ⟨?_, ?_, ?_, ?_, ?_, ?_⟩ <;> simp only [issue, link, hissued]
  · exact h.idle
  · exact h.busy
  · intro q hq hc
    apply h.untaken q hq
    intro c hlink
    rw [← taken c _ hlink]
    exact hc c hlink
  · intro j n hj hlink
    exact h.waiting j n (waiting j n hlink hj) hlink
  · intro j r n hj hlink
    exact h.carrying j r n (carrying j r n hlink hj) hlink
  · intro q c x hq hlink
    rw [answers c _ hlink]
    exact h.answered q c x hq hlink

theorem Stage.took {job : Job} (h : Stage config z i slot)
    (hz' : Streams config keys paths z') (peer : z'.peer = z.peer) (link : z'.link = z.link)
    (taken : z'.fed.server.ledger.taken = z.fed.server.ledger.taken ++ [job])
    (answers : z'.fed.server.ledger.answers = z.fed.server.ledger.answers)
    (waiting : ∀ j, z'.fed.server.Waiting config j → z.fed.server.Waiting config j ∨ j = job)
    (carrying : ∀ j r, z'.fed.server.Carrying config j r → z.fed.server.Carrying config j r) :
    Stage config z' i slot := by
  have htaken : ∀ c, (z.fed.server.takenOn c).length ≤ (z'.fed.server.takenOn c).length := by
    intro c
    rw [Server.takenOn_took taken, List.length_append]
    exact Nat.le_add_right _ _
  refine ⟨?_, ?_, ?_, ?_, ?_, ?_⟩
  · rw [peer]
    exact h.idle
  · rw [peer]
    exact h.busy
  · rw [peer, link]
    intro q hq hc
    apply h.untaken q hq
    intro c hlink
    exact Nat.lt_of_le_of_lt (htaken c) (hc c hlink)
  · intro j n hj hlink
    obtain hold | rfl := waiting j hj
    · exact h.waiting j n hold (link ▸ hlink)
    obtain ⟨q, hserves⟩ :=
      hz'.serves_client (hz'.net.core.unanswered_of_waiting hj) hlink
    have hcount := hserves.count
    have hcurrent := hserves.current
    rw [Server.takenOn_took taken, if_pos rfl, peer, List.length_append] at hcount
    rw [peer] at hcurrent
    refine ⟨q.op, h.untaken q hcurrent ?_⟩
    intro c hc
    obtain rfl := hz'.net.wired.injective c _ _ (by rw [link]; exact hc) hserves.link
    rw [List.length_singleton] at hcount
    omega
  · intro j r n hj hlink
    exact h.carrying j r n (carrying j r hj) (link ▸ hlink)
  · rw [peer, link]
    intro q c x
    rw [Server.answersOn_congr answers]
    exact h.answered q c x

theorem Stage.staged {job : Job} {r : Response} (h : Stage config z i slot)
    (peer : z'.peer = z.peer) (link : z'.link = z.link)
    (ready : z.fed.server.Carrying config job r ∨
      (z.fed.server.Waiting config job ∧ r = Server.busyResponse job))
    (taken : z'.fed.server.ledger.taken = z.fed.server.ledger.taken)
    (answers : z'.fed.server.ledger.answers =
      z.fed.server.ledger.answers ++ [⟨job.connection, some job, r⟩])
    (jobs : Server.JobsKept config z.fed.server z'.fed.server) : Stage config z' i slot := by
  refine ⟨?_, ?_, ?_, ?_, ?_, ?_⟩
  · rw [peer]
    exact h.idle
  · rw [peer]
    exact h.busy
  · rw [peer, link]
    intro q hq hc
    apply h.untaken q hq
    intro c hlink
    rw [← Server.takenOn_congr taken]
    exact hc c hlink
  · rw [link]
    intro j n hj
    exact h.waiting j n (jobs.waiting j hj)
  · rw [link]
    intro j r n hj
    exact h.carrying j r n (jobs.carrying j r hj)
  · rw [peer, link]
    intro q c x hq hlink hlen hlast
    rw [Server.answersOn_answered answers] at hlen hlast
    by_cases hc : job.connection = c
    · subst hc
      rw [if_pos rfl, List.getLast?_concat] at hlast
      cases hlast
      obtain hcarrying | ⟨hwaiting, rfl⟩ := ready
      · exact .inr (h.carrying job r _ hcarrying hlink)
      · exact .inl ⟨rfl, rfl, h.waiting job _ hwaiting hlink⟩
    · rw [if_neg hc, List.append_nil] at hlen hlast
      exact h.answered q c x hq hlink hlen hlast

theorem Stage.ran {job : Job} {r : Response} (hz : Streams config keys paths z)
    (hz' : Streams config keys paths z') (peer : z'.peer = z.peer) (link : z'.link = z.link)
    (serves : Serves z job i q)
    (waits : z.fed.server.Waiting config job)
    (taken : z'.fed.server.ledger.taken = z.fed.server.ledger.taken)
    (answers : z'.fed.server.ledger.answers = z.fed.server.ledger.answers)
    (waiting : ∀ j, z'.fed.server.Waiting config j → z.fed.server.Waiting config j)
    (carries : z'.fed.server.Carrying config job r)
    (carrying : ∀ j r', z'.fed.server.Carrying config j r' →
      z.fed.server.Carrying config j r' ∨ (j = job ∧ r' = r))
    (status : r.status ≠ .kServerBusy) :
    Stage config z' i (.served q.op (r.status, r.value)) := by
  have hcurrent := serves.current
  -- The job executed is the only one that client `i` has.
  have only : ∀ j n, z.link j.connection = some (i, n) →
      j ∈ z.fed.server.ledger.taken ∧ z.fed.server.answered j = 0 → j = job := by
    intro j n hlink hj
    obtain ⟨q', hserves⟩ := hz.serves_client hj hlink
    exact hserves.unique hz serves
  refine ⟨?_, ?_, ?_, ?_, ?_, ?_⟩
  · rw [peer, hcurrent]
    intro hidle
    cases hidle
  · rw [peer, hcurrent]
    rintro q' ⟨⟩
    exact .inr ⟨_, rfl⟩
  · rw [peer, hcurrent, link]
    rintro q' ⟨⟩ hc
    have hlt := hc _ serves.link
    rw [Server.takenOn_congr taken, serves.count] at hlt
    exact absurd hlt (Nat.lt_irrefl _)
  · rw [link]
    intro j n hj hlink
    obtain rfl := only j n hlink (hz.net.core.unanswered_of_waiting (waiting j hj))
    exact absurd carries (hz'.net.core.not_carrying_of_waiting hj)
  · rw [link]
    intro j r' n hj hlink
    obtain hold | ⟨-, rfl⟩ := carrying j r' hj
    · obtain rfl := only j n hlink (hz.net.core.unanswered_of_carrying hold)
      exact absurd hold (hz.net.core.not_carrying_of_waiting waits)
    · exact ⟨status, q.op, rfl⟩
  · rw [peer, hcurrent, link]
    rintro q' c x ⟨⟩ hlink hlen -
    obtain rfl := hz.net.wired.injective c _ _ hlink serves.link
    obtain ⟨front, htaken, hanswers⟩ := serves.last
    have hcount := serves.count
    have hfront := congrArg List.length hanswers
    simp only [List.length_map] at hfront
    rw [Server.answersOn_congr answers, hfront, ← hcount, htaken, List.length_append] at hlen
    simp at hlen

theorem Stage.accept {id k m : Nat} (h : Stage config z i slot) (hz : Streams config keys paths z)
    (hnone : z.link id = none) :
    Stage config { z with link := Function.update z.link id (some (k, m)) } i slot := by
  have htaken := hz.net.takenOn_unlinked hnone
  have hanswers : z.fed.server.answersOn id = [] := by
    have hordered := hz.ordered id
    rw [htaken, List.map_nil, List.prefix_nil, List.map_eq_nil_iff] at hordered
    exact hordered
  have hother : ∀ {c p}, c ≠ id → Function.update z.link id (some (k, m)) c = some p →
      z.link c = some p := by
    intro c p hc hlink
    rwa [Function.update_of_ne hc] at hlink
  have hjob : ∀ j, j ∈ z.fed.server.ledger.taken → j.connection ≠ id := by
    rintro j hj rfl
    have hmem := Server.mem_takenOn hj
    rw [htaken] at hmem
    cases hmem
  refine ⟨h.idle, h.busy, ?_, ?_, ?_, ?_⟩
  · intro q hq hc
    apply h.untaken q hq
    intro c hlink
    refine hc c ?_
    dsimp only
    rw [Function.update_of_ne, hlink]
    rintro rfl
    cases hnone.symm.trans hlink
  · intro j n hj hlink
    exact h.waiting j n hj (hother (hjob j (hz.net.core.unanswered_of_waiting hj).1) hlink)
  · intro j r n hj hlink
    exact h.carrying j r n hj
      (hother (hjob j (hz.net.core.unanswered_of_carrying hj).1) hlink)
  · intro q c x hq hlink hlen hlast
    by_cases hc : c = id
    · subst hc
      rw [show z.fed.server.answersOn c = [] from hanswers] at hlast
      cases hlast
    · exact h.answered q c x hq (hother hc hlink) hlen hlast

theorem Streams.no_job (h : Streams config keys paths z)
    (idle : (z.peer i).phase.issue = none) (hlink : z.link j.connection = some (i, n)) :
    ¬(j ∈ z.fed.server.ledger.taken ∧ z.fed.server.answered j = 0) := by
  intro hj
  obtain ⟨q, hserves⟩ := h.serves_client hj hlink
  rw [hserves.current] at idle
  cases idle

theorem Stage.begun {op : Operation} {m : Nat} {id : UInt64}
    (hz : Streams config keys paths z) (fed : z'.fed = z.fed) (link : z'.link = z.link)
    (idle : (z.peer i).phase.issue = none)
    (issue : (z'.peer i).phase.issue = some ⟨m, op, id⟩)
    (issued : (z'.peer i).trace.issued = (z.peer i).trace.issued ++ [⟨m, op, id⟩]) :
    Stage config z' i (.pending op) := by
  refine ⟨?_, ?_, ?_, ?_, ?_, ?_⟩
  · rw [issue]
    intro hidle
    cases hidle
  · rw [issue]
    rintro q ⟨⟩
    exact .inl rfl
  · rw [issue]
    rintro q ⟨⟩ -
    rfl
  · intro j n hj hlink
    exact ⟨op, rfl⟩
  · rw [fed, link]
    intro j r n hj hlink
    exact absurd (hz.net.core.unanswered_of_carrying hj) (hz.no_job idle hlink)
  · rw [issue, fed, link]
    rintro q c x ⟨⟩ hlink hlen -
    obtain ⟨-, hanswers, htaken, -⟩ := hz.lengths hlink
    dsimp only at htaken
    have hmore : (z'.peer i).issuedOn m = (z.peer i).issuedOn m ++ [⟨m, op, id⟩] := by
      rw [CacheClient.issuedOn, issued, List.filter_append, CacheClient.issuedOn]
      simp
    rw [hmore, List.length_append, List.length_singleton] at hlen
    omega

theorem Stage.ended (hz : Streams config keys paths z)
    (idle : (z.peer i).phase.issue = none) : Stage config z i .idle := by
  refine ⟨fun _ => rfl, ?_, ?_, ?_, ?_, ?_⟩
  · rw [idle]
    intro q hq
    cases hq
  · rw [idle]
    intro q hq
    cases hq
  · intro j n hj hlink
    exact absurd (hz.net.core.unanswered_of_waiting hj) (hz.no_job idle hlink)
  · intro j r n hj hlink
    exact absurd (hz.net.core.unanswered_of_carrying hj) (hz.no_job idle hlink)
  · rw [idle]
    intro q c x hq
    cases hq

theorem Streams.last_answer {x : Answer} (hz : Streams config keys paths z)
    (hc : z.link c = some (i, q.connection)) (current : (z.peer i).phase.issue = some q)
    (hlen : (z.fed.server.answersOn c).length = ((z.peer i).issuedOn q.connection).length)
    (hlast : (z.fed.server.answersOn c).getLast? = some x) :
    x.response.requestId = q.id ∧ x.response.opcode = q.op.opcode := by
  obtain ⟨front, hsplit⟩ := List.getLast?_eq_some_iff.mp hlast
  obtain ⟨-, hanswers, htaken, -⟩ := hz.lengths hc
  have hjobs := (hz.ordered c).eq_of_length (by simp only [List.length_map]; omega)
  rw [hsplit, List.map_append, List.map_singleton] at hjobs
  obtain ⟨jobs, j, htakenOn, -, hxj⟩ := concat_of_map hjobs.symm
  have hrequest := hz.last_request hc current htakenOn (by omega)
  have hx : x ∈ z.fed.server.answersOn c := by
    rw [hsplit]
    exact List.mem_append_right _ (List.mem_singleton.mpr rfl)
  obtain ⟨-, hopcode, hid⟩ :=
    hz.net.core.accounted.answers x (List.mem_filter.mp hx).1 j hxj.symm
  rw [hrequest] at hopcode hid
  exact ⟨hid, hopcode⟩

theorem Streams.linked_of_used {p : Reply} (hz : Streams config keys paths z)
    (hp : p ∈ (z.peer i).trace.used n) : ∃ c, z.link c = some (i, n) := by
  have htold : (n, p.response) ∈ (z.peer i).told := by
    rw [← mem_listedOn, CacheClient.listedOn_told]
    exact List.mem_map_of_mem hp
  obtain ⟨c, j, hc, -⟩ := hz.net.answer_of_told (k := i) htold
  exact ⟨c, hc⟩

/-- The response that ends an operation is the last one of its connection, and it answers the
request of the operation. -/
theorem reply_matches {out : Response} {offset handed : Nat} (hz : Streams config keys paths z)
    (hz' : Streams config keys paths z') (fed : z'.fed = z.fed)
    (link : z'.link = z.link) (current : (z.peer i).phase.issue = some q)
    (returned : (z'.peer i).trace.returned = (z.peer i).trace.returned ++
      [⟨q.op, some q, handed, some ⟨offset, out⟩, CacheClient.resultOf q out⟩]) :
    ∃ c x, z.link c = some (i, q.connection) ∧
      (z.fed.server.answersOn c).length = ((z.peer i).issuedOn q.connection).length ∧
      (z.fed.server.answersOn c).getLast? = some x ∧ x.response = out ∧
      out.requestId = q.id ∧ out.opcode = q.op.opcode := by
  have hused : (z'.peer i).trace.used q.connection =
      (z.peer i).trace.used q.connection ++ [⟨offset, out⟩] := by
    rw [ClientTrace.used, returned, List.filterMap_append, ClientTrace.used]
    simp [Returned.usedOn]
  obtain ⟨c, hc⟩ : ∃ c, z'.link c = some (i, q.connection) := by
    apply hz'.linked_of_used (p := ⟨offset, out⟩)
    rw [hused]
    exact List.mem_append_right _ (List.mem_singleton.mpr rfl)
  have hresponses := hz'.responses hc
  rw [link] at hc
  -- All earlier responses were used up before: this one is the last that was written.
  obtain ⟨-, hanswers, htaken, hcount⟩ := hz.lengths hc
  rw [current, Option.map_some, if_pos rfl] at hcount
  rw [hused, fed, List.map_append, List.map_singleton] at hresponses
  have hle := hresponses.length_le
  simp only [List.length_append, List.length_map, List.length_singleton] at hle
  have hall := hresponses.eq_of_length (by
    simp only [List.length_append, List.length_map, List.length_singleton]
    omega)
  obtain ⟨front, x, hsplit, -, rfl⟩ := concat_of_map hall.symm
  have hlen : (z.fed.server.answersOn c).length =
      ((z.peer i).issuedOn q.connection).length := by omega
  have hx : (z.fed.server.answersOn c).getLast? = some x := by
    rw [hsplit, List.getLast?_concat]
  obtain ⟨hid, hopcode⟩ := hz.last_answer hc current hlen hx
  exact ⟨c, x, hc, hlen, hx, rfl, hid, hopcode⟩

end System

end LocalCache
