import LocalCache.Library.Sockets
import LocalCache.Peer
import LocalCache.ServerCache
import LocalCache.ServerFlushed

namespace LocalCache

open Protocol Serializer RequestCodec RequestStream Library Transition Framing Sockets

namespace Net

variable {σ α : Type} {config : ServerConfig} {fds : Descriptors}
  {P : Nat → Peer config.frameLimits σ α} {z z' : Net σ} {a : Action} {c k n : Nat} {j : Job}
  {fed : Fed}

def sent (P : Nat → Peer config.frameLimits σ α) (z : Net σ) (p : Nat × Nat) : Bytes :=
  (P p.1).sent (z.peer p.1) p.2

def read (P : Nat → Peer config.frameLimits σ α) (z : Net σ) (p : Nat × Nat) : Bytes :=
  (P p.1).read (z.peer p.1) p.2

def askedOn (P : Nat → Peer config.frameLimits σ α) (z : Net σ) (p : Nat × Nat) : List Request :=
  listedOn p.2 ((P p.1).asked (z.peer p.1))

def toldOn (P : Nat → Peer config.frameLimits σ α) (z : Net σ) (p : Nat × Nat) : List Response :=
  listedOn p.2 ((P p.1).told (z.peer p.1))

structure Inv (P : Nat → Peer config.frameLimits σ α) (z : Net σ) : Prop where
  core : z.fed.server.Core config
  tracked : z.fed.Tracked config
  cached : z.fed.server.Cached config
  peers : ∀ k, (P k).Inv (z.peer k)
  wired : Wired z.link z.fed.server.nextConnectionId z.fed.received z.fed.server.ledger.accepted
    (z.sent P) (z.read P)
  sized : ∀ x ∈ z.fed.server.ledger.answers, x.response.value.length ≤ kMaxValueBytes.toNat
  jobs : ∀ x ∈ z.fed.server.ledger.answers, x.job ≠ none
  reply : z.fed.server.loop.reply = none

namespace Inv

theorem received (h : z.Inv P) (hc : z.link c = some (k, n)) :
    z.fed.received c <+: (z.askedOn P (k, n)).flatMap serializeRequest :=
  (h.wired.arrived c _ hc).trans ((P k).framed (h.peers k) n)

theorem head_asked (h : z.Inv P) {p : Nat × Nat} : ∀ q ∈ z.askedOn P p, ∀ y,
    head config.frameLimits (serializeRequest q ++ y) =
      .item (id q) (serializeRequest q).length := by
  intro q hq y
  exact head_grammatical ((P p.1).grammatical (h.peers p.1) _ (mem_listedOn.mp hq)) y

theorem requests (h : z.Inv P) (hc : z.link c = some (k, n)) :
    (z.fed.server.takenOn c).map Job.request <+: z.askedOn P (k, n) := by
  have hparse := parse_frames (head_incremental config.frameLimits)
    (fun q hq y => .inl (h.head_asked q hq y)) (h.received hc)
  rw [(h.tracked c).parse_eq, List.map_id] at hparse
  exact (List.prefix_append _ _).trans hparse

theorem takenOn_unlinked (h : z.Inv P) (hc : z.link c = none) : z.fed.server.takenOn c = [] := by
  have hparse := (h.tracked c).parse_eq
  rw [h.wired.unlinked c hc, parse_more (head_nil _)] at hparse
  have hnil := (List.append_eq_nil_iff.mp (congrArg Prod.fst hparse).symm).1
  exact List.map_eq_nil_iff.mp hnil

theorem clean (h : z.Inv P) (c : Nat) (e : ParseError) :
    head config.frameLimits (z.fed.server.conn c).unconsumed ≠ .bad e := by
  intro hbad
  have hclean : (parse (head config.frameLimits) (z.fed.received c)).2 = none := by
    cases hc : z.link c with
    | none => rw [h.wired.unlinked c hc, parse_more (head_nil _)]
    | some p =>
      exact parse_clean (head_incremental _) (head_nil _) h.head_asked
        (h.received hc)
  rw [(h.tracked c).parse_eq, parse_bad hbad] at hclean
  cases hclean

theorem asked_of_taken (h : z.Inv P) (hj : j ∈ z.fed.server.ledger.taken) :
    ∃ k n, z.link j.connection = some (k, n) ∧ j.request ∈ z.askedOn P (k, n) := by
  have hmem := Server.mem_takenOn hj
  cases hc : z.link j.connection with
  | none =>
    rw [h.takenOn_unlinked hc] at hmem
    cases hmem
  | some p => exact ⟨p.1, p.2, rfl, (h.requests hc).subset (List.mem_map_of_mem hmem)⟩

theorem job_inj (h : z.Inv P) (hc : z.link c = some (k, n))
    (numbered : ((z.askedOn P (k, n)).map Request.requestId).Nodup) {j' : Job}
    (hj : j ∈ z.fed.server.takenOn c) (hj' : j' ∈ z.fed.server.takenOn c)
    (same : j.request.requestId = j'.request.requestId) : j = j' := by
  have hnodup := ((h.requests hc).sublist.map Request.requestId).nodup numbered
  rw [List.map_map] at hnodup
  exact List.inj_on_of_nodup_map hnodup hj hj' same

theorem job_of_answer (h : z.Inv P) {x : Answer} (hx : x ∈ z.fed.server.answersOn c) :
    ∃ j, x.job = some j ∧ j ∈ z.fed.server.takenOn c ∧ AnswersTo x.response j.request := by
  obtain ⟨hmem, hc⟩ := List.mem_filter.mp hx
  obtain ⟨j, hj⟩ := Option.ne_none_iff_exists'.mp (h.jobs x hmem)
  obtain ⟨hconn, hanswers⟩ := h.core.accounted.answers x hmem j hj
  have hpos : 0 < z.fed.server.answered j :=
    List.countP_pos_iff.mpr ⟨x, hmem, decide_eq_true hj⟩
  have hplaces := h.core.accounted.places j
  have htaken : j ∈ z.fed.server.ledger.taken := List.count_pos_iff.mp (by omega)
  refine ⟨j, hj, List.mem_filter.mpr ⟨htaken, ?_⟩, hanswers⟩
  rw [← hconn]
  exact hc

theorem jobs_nodup (h : z.Inv P) (c : Nat) :
    ((z.fed.server.answersOn c).map Answer.job).Nodup := by
  rw [List.nodup_iff_count_le_one]
  intro o
  cases o with
  | none =>
    rw [List.count_eq_zero_of_not_mem]
    · exact Nat.zero_le _
    · intro hmem
      obtain ⟨x, hx, hnone⟩ := List.mem_map.mp hmem
      exact h.jobs x (List.mem_filter.mp hx).1 hnone
  | some j =>
    have hplaces := h.core.accounted.places j
    have htaken := List.nodup_iff_count_le_one.mp h.core.taken_nodup j
    have hle : ((z.fed.server.answersOn c).map Answer.job).count (some j) ≤
        z.fed.server.answered j := by
      rw [List.count, List.countP_map, Server.answered]
      refine (List.filter_sublist.countP_le (p := _)).trans (Nat.le_of_eq ?_)
      congr 1
      funext x
      exact beq_eq_decide ..
    omega

theorem answers_distinct (h : z.Inv P) (hc : z.link c = some (k, n))
    (numbered : ((z.askedOn P (k, n)).map Request.requestId).Nodup) :
    ((z.fed.server.answersOn c).map fun x => x.response.requestId).Nodup := by
  have hjobs := h.jobs_nodup c
  refine List.Nodup.map_on ?_ (List.Nodup.of_map Answer.job hjobs)
  intro x hx y hy same
  obtain ⟨j, hj, htaken, hanswers⟩ := h.job_of_answer hx
  obtain ⟨j', hj', htaken', hanswers'⟩ := h.job_of_answer hy
  have hsame : j.request.requestId = j'.request.requestId := by
    rw [← hanswers.2, ← hanswers'.2]
    exact same
  obtain rfl := h.job_inj hc numbered htaken htaken' hsame
  exact List.inj_on_of_nodup_map hjobs hx hy (hj.trans hj'.symm)

theorem accepted (h : z.Inv P) (c : Nat) : z.fed.server.ledger.accepted c <+:
    ((z.fed.server.answersOn c).map Answer.response).flatMap serializeResponse := by
  rw [← Server.frames_eq]
  exact ⟨_, h.core.streamed c⟩

theorem sizedOn (h : z.Inv P) (c : Nat) :
    ∀ r ∈ (z.fed.server.answersOn c).map Answer.response,
      r.value.length ≤ kMaxValueBytes.toNat := by
  intro r hr
  obtain ⟨x, hx, rfl⟩ := List.mem_map.mp hr
  exact h.sized x (List.mem_filter.mp hx).1

theorem served_of_link (h : z.Inv P) (hc : z.link c = some (k, n)) :
    Served (z.askedOn P (k, n)) (z.read P (k, n))
      ((z.fed.server.answersOn c).map Answer.response) where
  stream := (h.wired.delivers hc).trans (h.accepted c)
  sized := h.sizedOn c
  answers := by
    intro r hr
    obtain ⟨x, hx, rfl⟩ := List.mem_map.mp hr
    obtain ⟨j, -, htaken, hanswers⟩ := h.job_of_answer hx
    exact ⟨j.request, (h.requests hc).subset (List.mem_map_of_mem htaken), hanswers⟩
  distinct := by
    intro numbered
    rw [List.map_map]
    exact h.answers_distinct hc numbered

theorem served (h : z.Inv P) (k n : Nat) :
    ∃ rs, Served (z.askedOn P (k, n)) (z.read P (k, n)) rs := by
  obtain hnil | ⟨c, hc, -⟩ := h.wired.delivered (k, n)
  · refine ⟨[], ?_, (fun _ hr => by cases hr), (fun _ hr => by cases hr),
      fun _ => List.nodup_nil⟩
    rw [hnil]
    exact List.nil_prefix
  · exact ⟨_, h.served_of_link hc⟩

theorem responses (h : z.Inv P) (hc : z.link c = some (k, n)) :
    z.toldOn P (k, n) <+: (z.fed.server.answersOn c).map Answer.response := by
  refine responses_prefix ?_ (h.sizedOn c)
    (((P k).used (h.peers k) n).trans (h.served_of_link hc).stream)
  intro r hr
  exact (P k).sized (h.peers k) _ (mem_listedOn.mp hr)

theorem answer_of_told (h : z.Inv P) {r : Response} (hr : (n, r) ∈ (P k).told (z.peer k)) :
    ∃ c j, z.link c = some (k, n) ∧ ⟨c, some j, r⟩ ∈ z.fed.server.ledger.answers ∧
      j ∈ z.fed.server.takenOn c ∧ AnswersTo r j.request := by
  have hmem : r ∈ z.toldOn P (k, n) := mem_listedOn.mpr hr
  obtain hnil | ⟨c, hc, -⟩ := h.wired.delivered (k, n)
  · -- A response has a frame, so something was read.
    have hused := (P k).used (h.peers k) n
    rw [show (P k).read (z.peer k) n = [] from hnil, List.prefix_nil,
      List.flatMap_eq_nil_iff] at hused
    have hlen := ResponseCodec.length_serializeResponse r
    rw [hused r hmem, List.length_nil, kHeaderSize] at hlen
    omega
  · obtain ⟨x, hx, rfl⟩ := List.mem_map.mp ((h.responses hc).subset hmem)
    obtain ⟨j, hj, htaken, hanswers⟩ := h.job_of_answer hx
    obtain ⟨hxmem, hxc⟩ := List.mem_filter.mp hx
    refine ⟨c, j, hc, ?_, htaken, hanswers⟩
    rw [← of_decide_eq_true hxc, ← hj]
    exact hxmem

end Inv

theorem inv_start (config : ServerConfig) (fds : Descriptors)
    (P : Nat → Peer config.frameLimits σ α) : (start config fds P).Inv P where
  core := Server.core_start config fds
  tracked := fun _ => tracks_nil
  cached := Server.cached_start config fds
  peers := fun k => (P k).inv_start
  wired := by
    have hread : (start config fds P).read P = fun _ => [] := by
      funext p
      exact (P p.1).silent_start.1 p.2
    rw [hread]
    exact Wired.start
  sized := fun _ hx => by cases hx
  jobs := fun _ hx => by cases hx
  reply := rfl

theorem answers_fed (hconfig : config.Valid) (h : z.Inv P)
    (hs : Server.JobStep config z.fed.server a fed.server) :
    ∀ x ∈ fed.server.ledger.answers,
      x.response.value.length ≤ kMaxValueBytes.toNat ∧ x.job ≠ none := by
  cases hs with
  | kept runs cache taken answers | took job runs cache taken answers
  | ran job uptimeMs response tally runs waits result taken answers =>
    rw [answers]
    exact fun x hx => ⟨h.sized x hx, h.jobs x hx⟩
  | answered job response runs cache ready taken answers jobs =>
    intro x hx
    rw [answers, List.mem_append, List.mem_singleton] at hx
    obtain hx | rfl := hx
    · exact ⟨h.sized x hx, h.jobs x hx⟩
    · exact ⟨h.cached.ready_sized hconfig ready, by simp⟩
  | replied p reply =>
    rw [h.reply] at reply
    cases reply

theorem reply_fed (h : z.Inv P) (hs : Server.Step config fds z.fed.server a fed.server) :
    fed.server.loop.reply = none := by
  cases hr : fed.server.loop.reply with
  | none => rfl
  | some p =>
    obtain hold | ⟨-, meets⟩ := Server.step_reply hs hr
    · rw [h.reply] at hold
      cases hold
    · obtain ⟨e, hbad⟩ := Server.head_of_meetsMalformed meets
      rw [(h.core.buffers p.1).limits_eq] at hbad
      exact absurd hbad (h.clean p.1 e)

theorem incoming_of_arrives (ha : z.arrives P a = true) (c : Nat) :
    z.fed.server.incoming a c = [] ∨ ∃ p, z.link c = some p ∧
      z.fed.received c ++ z.fed.server.incoming a c <+: z.sent P p := by
  unfold Server.incoming
  unfold arrives at ha
  split
  · rename_i d bytes pc
    rw [pc] at ha
    dsimp only at ha
    by_cases hd : d = c
    · subst hd
      rw [if_pos rfl]
      obtain ⟨p, hp, hpre⟩ := (Option.any_eq_true _ _).mp ha
      exact .inr ⟨p, hp, of_decide_eq_true hpre⟩
    · exact .inl (if_neg hd)
  · exact .inl rfl

theorem inv_fed (hconfig : config.Valid) (h : z.Inv P) (ha : z.arrives P a = true)
    (hs : z.fed.step config fds a = some fed) : Inv P { z with fed := fed } := by
  obtain ⟨hserver, hreceived⟩ := Fed.step_server hs
  have hstep := Server.step_sound hserver
  have hanswers := answers_fed hconfig h (Server.jobStep_of_step hstep)
  refine ⟨Server.step_core h.core hstep, Fed.step_tracked h.tracked h.core hs,
    Server.step_cached h.cached hstep, h.peers, ?_, fun x hx => (hanswers x hx).1,
    fun x hx => (hanswers x hx).2, reply_fed h hstep⟩
  refine h.wired.advance (Server.step_nextConnectionId hstep) ?_ (Server.step_accepted hstep)
    (fun _ => List.prefix_refl _) (fun _ => .inl rfl)
  intro c
  dsimp only
  rw [hreceived]
  obtain hnil | hpre := incoming_of_arrives ha c
  · exact .inl (by rw [hnil, List.append_nil])
  · exact .inr hpre

theorem inv_accepted (h : z.Inv P) (hc : c < z.fed.server.nextConnectionId)
    (new : z.link c = none) (free : ∀ d, z.link d ≠ some (k, n)) :
    Inv P { z with link := Function.update z.link c (some (k, n)) } where
  core := h.core
  tracked := h.tracked
  cached := h.cached
  peers := h.peers
  wired := h.wired.accept hc new free
  sized := h.sized
  jobs := h.jobs
  reply := h.reply

theorem forall_update {Q : Nat → σ → Prop} {s : σ} (h : ∀ i, Q i (z.peer i)) (hs : Q k s)
    (i : Nat) : Q i (Function.update z.peer k s i) :=
  (Function.forall_update_iff z.peer Q).mpr ⟨hs, fun i _ => h i⟩ i

theorem inv_peer (h : z.Inv P) {a : α} {s : σ} (ok : (P k).ok (z.peer k) a)
    (delivers : z.delivers P k a = true) (hs : (P k).step (z.peer k) a = some s) :
    Inv P { z with peer := Function.update z.peer k s } := by
  have hk := h.peers k
  refine ⟨h.core, h.tracked, h.cached, forall_update h.peers ((P k).inv_step hk (h.served k) ok hs),
    ?_, h.sized, h.jobs, h.reply⟩
  refine h.wired.advance (Nat.le_refl _) (fun _ => .inl rfl) (fun _ => List.prefix_refl _) ?_ ?_
  · rintro ⟨i, n⟩
    apply forall_update (Q := fun i s => z.sent P (i, n) <+: (P i).sent s n)
    · exact fun i => List.prefix_refl _
    · exact (P k).sent_step hk hs n
  · rintro ⟨i, n⟩
    apply forall_update (Q := fun i s => (P i).read s n = z.read P (i, n) ∨
      ∃ c, z.link c = some (i, n) ∧ (P i).read s n <+: z.fed.server.ledger.accepted c)
    · exact fun i => .inl rfl
    · obtain hsame | ⟨bytes, hbrings, hread⟩ := (P k).read_step hk hs n
      · exact .inl hsame
      · right
        unfold Net.delivers at delivers
        rw [hbrings, Option.all_some] at delivers
        obtain ⟨c, -, hc⟩ := List.any_eq_true.mp delivers
        rw [hread]
        exact ⟨c, of_decide_eq_true hc⟩

theorem free_of_awaits (h : z.Inv P) (ha : z.awaits P k n = true) (c : Nat) :
    z.link c ≠ some (k, n) := by
  intro hc
  rw [awaits, Bool.and_eq_true] at ha
  have hall := List.all_eq_true.mp ha.2 c (List.mem_range.mpr (h.wired.known c _ hc))
  exact of_decide_eq_true hall hc

theorem link_next (h : z.Inv P) : z.link z.fed.server.nextConnectionId = none := by
  cases hc : z.link z.fed.server.nextConnectionId with
  | none => rfl
  | some p => exact absurd (h.wired.known _ p hc) (Nat.lt_irrefl _)

theorem inv_moves (hconfig : config.Valid) (h : z.Inv P) {a : NetAction α}
    (ok : Assumed P z a) (hm : Moves fds P z a z') : z'.Inv P := by
  cases hm with
  | served a fed arrives hs => exact inv_fed hconfig h arrives hs
  | accepted fd k n fed awaits hs more =>
    have hfed := inv_fed hconfig h (by simp [arrives]) hs
    exact inv_accepted hfed more (link_next (z := z) h) (free_of_awaits (z := z) h awaits)
  | rejected fd k n fed hs => exact inv_fed hconfig h (by simp [arrives]) hs
  | moved k a s delivers hs => exact inv_peer h ok delivers hs

theorem reach_inv (hconfig : config.Valid)
    (h : Reach (step fds P) (Assumed P) (start config fds P) z) : z.Inv P :=
  h.invariant (inv_start config fds P)
    (fun _ _ _ hi ok hs => inv_moves hconfig hi ok (moves_of_step hs))

theorem reach_peer {ok : Net σ → NetAction α → Prop}
    (h : Reach (step fds P) ok (start config fds P) z) :
    ∀ k, Reach (P k).step Free (P k).start (z.peer k) := by
  induction h with
  | refl => exact fun k => .refl
  | tail _ _ hs ih =>
    cases moves_of_step hs with
    | served | accepted | rejected => exact ih
    | moved i a s delivers hstep =>
      exact forall_update (Q := fun k s => Reach (P k).step Free (P k).start s) ih
        (.tail (ih i) trivial hstep)

end Net

end LocalCache
