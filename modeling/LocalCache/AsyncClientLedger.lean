import LocalCache.AsyncClientRun
import LocalCache.Library.Word64

namespace LocalCache

open Protocol Serializer Library Keyed Threads Transition

namespace Engine

abbrev Entry := UInt64 × RequestSpec

def Ticket.entry (t : Ticket) : Entry := (t.id, t.spec)

def Pending.entry (p : UInt64 × Pending) : Entry := (p.1, p.2.spec)

def completionEntry (x : Completion) : Entry := (x.response.requestId, x.request)

def issuedOn (e : Engine) (i : Nat) : List Ticket :=
  e.trace.issued.filter (fun t => t.connection = i)

def completedOn (e : Engine) (i : Nat) : List Completion :=
  (e.trace.completed.filter (fun p => p.1 = i)).map Prod.snd

structure Numbered (config : EngineConfig) (e : Engine) : Prop where
  ids : e.trace.issued.map Ticket.id = (List.range e.issued).map (fun k => UInt64.ofNat (k + 1))
  next : e.nextRequestId = UInt64.ofNat (e.issued + 1)
  issued_le : e.issued ≤ config.requests.toNat
  sent : e.stats.sent = e.issued

/-- Every request issued on a connection is pending or completed there, and not both. -/
structure Shared (config : EngineConfig) (e : Engine) : Prop where
  shares : ∀ i, ((e.issuedOn i).map Ticket.entry).Perm
    ((e.conn i).pending.map Pending.entry ++ (e.completedOn i).map completionEntry)
  depth : ∀ i, (e.conn i).pending.length ≤ config.pipelineDepth
  matched : ∀ p ∈ e.trace.completed, p.1 < e.conns ∧
    p.2.connectionIndex = config.firstConnection + p.1 ∧
    p.2.response.opcode = p.2.request.opcode
  received : e.stats.received = e.trace.completed.length
  balance : e.issued = e.stats.received + total e.conns (fun c => c.pending.length) e.conn

variable {config : EngineConfig} {e e' : Engine} {a : EngineAction} {i j : Nat} {c : Conn}

theorem numbered_start : Numbered config {} :=
  ⟨rfl, rfl, Nat.zero_le _, rfl⟩

theorem wantsMore_iff : e.wantsMore config i = true ↔
    e.generatorExhausted = false ∧ (e.conn i).pending.length < config.pipelineDepth ∧
      e.issued < config.requests.toNat := by
  simp [wantsMore, and_assoc]

theorem Numbered.frame (h : e.Numbered config) (issued : e'.issued = e.issued)
    (next : e'.nextRequestId = e.nextRequestId) (sent : e'.stats.sent = e.stats.sent)
    (trace : e'.trace.issued = e.trace.issued) : e'.Numbered config where
  ids := by
    rw [trace, issued]
    exact h.ids
  next := by
    rw [next, issued]
    exact h.next
  issued_le := issued ▸ h.issued_le
  sent := by
    rw [sent, issued]
    exact h.sent

theorem Numbered.issue {spec : RequestSpec} {now : Nat} (h : e.Numbered config)
    (room : e.wantsMore config i = true) : (e.issue i spec now).Numbered config where
  ids := by
    simp only [Engine.issue, List.map_append, h.ids, List.range_succ, List.map_cons, List.map_nil]
    rw [h.next]
  next := by
    simp only [Engine.issue, h.next, UInt64.ofNat_add]
    rfl
  issued_le := (wantsMore_iff.mp room).2.2
  sent := congrArg (· + 1) h.sent

@[simp] theorem drop_trace (i : Nat) (e : Engine) : (e.drop i).trace = e.trace := by
  unfold drop
  split <;> rfl

@[simp] theorem drop_issued (i : Nat) (e : Engine) : (e.drop i).issued = e.issued := by
  unfold drop
  split <;> rfl

@[simp] theorem drop_nextRequestId (i : Nat) (e : Engine) :
    (e.drop i).nextRequestId = e.nextRequestId := by
  unfold drop
  split <;> rfl

@[simp] theorem drop_sent (i : Nat) (e : Engine) : (e.drop i).stats.sent = e.stats.sent := by
  unfold drop
  split <;> rfl

@[simp] theorem drop_received (i : Nat) (e : Engine) :
    (e.drop i).stats.received = e.stats.received := by
  unfold drop
  split <;> rfl

@[simp] theorem drop_conns (i : Nat) (e : Engine) : (e.drop i).conns = e.conns := by
  unfold drop
  split <;> rfl

theorem drop_conn {β : Type} (f : Conn → β) (hf : ∀ c : Conn, f c.close = f c) (i j : Nat)
    (e : Engine) : f ((e.drop i).conn j) = f (e.conn j) := by
  unfold drop
  split
  · rfl
  · exact conn_congr f (hf _) j

theorem numbered_moves (h : e.Numbered config) (hm : e.Moves config a e') :
    e'.Numbered config := by
  cases hm with
  | issued i again caller spec now pc room => exact h.issue room
  | dropped i caller pc | hungUp i flags rest pc live =>
    exact h.frame (drop_issued _ _) (drop_nextRequestId _ _) (drop_sent _ _)
      (congrArg Trace.issued (drop_trace _ _))
  | _ => exact h.frame rfl rfl rfl rfl

theorem Numbered.id_lt (h : e.Numbered config) : e.issued < UInt64.size :=
  Nat.lt_of_le_of_lt h.issued_le config.requests.toNat_lt

theorem Numbered.ids_nodup (h : e.Numbered config) : (e.trace.issued.map Ticket.id).Nodup := by
  rw [h.ids]
  apply List.Nodup.map_on _ List.nodup_range
  intro k hk m hm heq
  have hlt := h.id_lt
  rw [List.mem_range] at hk hm
  have := Word64.ofNat_inj_of_lt (by omega) (by omega) heq
  omega

theorem Numbered.next_fresh (h : e.Numbered config) (room : e.issued < config.requests.toNat) :
    e.nextRequestId ∉ e.trace.issued.map Ticket.id := by
  rw [h.ids, h.next]
  intro hmem
  obtain ⟨k, hk, heq⟩ := List.mem_map.mp hmem
  have hlt : config.requests.toNat < UInt64.size := config.requests.toNat_lt
  rw [List.mem_range] at hk
  have := Word64.ofNat_inj_of_lt (by omega) (by omega) heq
  omega

theorem Numbered.nodupOn (h : e.Numbered config) (i : Nat) :
    ((e.issuedOn i).map Ticket.id).Nodup :=
  (List.Sublist.map _ List.filter_sublist).nodup h.ids_nodup

theorem issuedOn_append (l : List Ticket) (t : Ticket) (i : Nat) :
    (l ++ [t]).filter (fun t => t.connection = i) =
      l.filter (fun t => t.connection = i) ++ if t.connection = i then [t] else [] := by
  rw [List.filter_append]
  by_cases ht : t.connection = i <;> simp [ht]

theorem completedOn_append (l : List (Nat × Completion)) (p : Nat × Completion) (i : Nat) :
    ((l ++ [p]).filter (fun p => p.1 = i)).map Prod.snd =
      (l.filter (fun p => p.1 = i)).map Prod.snd ++ if p.1 = i then [p.2] else [] := by
  rw [List.filter_append, List.map_append]
  by_cases hp : p.1 = i <;> simp [hp]

theorem perm_issue {α : Type} {x : α} {l p q : List α} (h : l.Perm (p ++ q)) :
    (l ++ [x]).Perm (p ++ [x] ++ q) := by
  rw [List.append_assoc]
  exact (List.perm_append_singleton x l).trans ((h.cons x).trans List.perm_middle.symm)

theorem perm_complete {α : Type} {x : α} {l p p' q : List α} (h : l.Perm (p ++ q))
    (hp : p.Perm (x :: p')) : l.Perm (p' ++ (q ++ [x])) := by
  rw [← List.append_assoc]
  exact h.trans ((hp.append_right q).trans (List.perm_append_singleton x _).symm)

theorem map_fst_entry (l : List (UInt64 × Pending)) :
    (l.map Pending.entry).map Prod.fst = l.map Prod.fst := by
  rw [List.map_map]
  rfl

theorem map_fst_ticket (l : List Ticket) : (l.map Ticket.entry).map Prod.fst = l.map Ticket.id := by
  rw [List.map_map]
  rfl

namespace Shared

theorem ids_nodup (h : e.Shared config) (hn : e.Numbered config) (i : Nat) :
    ((e.conn i).pending.map Prod.fst ++
      (e.completedOn i).map (fun x => x.response.requestId)).Nodup := by
  have hperm := (h.shares i).map Prod.fst
  rw [map_fst_ticket, List.map_append, map_fst_entry, List.map_map] at hperm
  exact hperm.nodup_iff.mp (hn.nodupOn i)

theorem pending_nodup (h : e.Shared config) (hn : e.Numbered config) (i : Nat) :
    ((e.conn i).pending.map Prod.fst).Nodup :=
  (List.nodup_append.mp (h.ids_nodup hn i)).1

theorem issued_of_pending (h : e.Shared config) {p : UInt64 × Pending}
    (hp : p ∈ (e.conn i).pending) : ⟨i, p.1, p.2.spec⟩ ∈ e.trace.issued := by
  have hmem : Pending.entry p ∈ (e.issuedOn i).map Ticket.entry :=
    (h.shares i).mem_iff.mpr (List.mem_append_left _ (List.mem_map_of_mem hp))
  obtain ⟨⟨k, id, spec⟩, ht, heq⟩ := List.mem_map.mp hmem
  obtain ⟨hissued, hi⟩ := List.mem_filter.mp ht
  obtain rfl : k = i := of_decide_eq_true hi
  obtain ⟨rfl, rfl⟩ := Prod.mk.inj heq
  exact hissued

theorem frame (h : e.Shared config) (trace : e'.trace.issued = e.trace.issued)
    (completed : e'.trace.completed = e.trace.completed)
    (pending : ∀ i, (e'.conn i).pending = (e.conn i).pending) (conns : e'.conns = e.conns)
    (issued : e'.issued = e.issued) (received : e'.stats.received = e.stats.received) :
    e'.Shared config where
  shares := by
    intro i
    rw [issuedOn, completedOn, trace, completed, pending]
    exact h.shares i
  depth := by
    intro i
    rw [pending]
    exact h.depth i
  matched := by
    rw [completed, conns]
    exact h.matched
  received := by
    rw [received, completed]
    exact h.received
  balance := by
    have hsame : total e.conns (fun c => c.pending.length) e'.conn =
        total e.conns (fun c => c.pending.length) e.conn :=
      Finset.sum_congr rfl (fun i _ => by simp only [pending])
    rw [issued, received, conns, hsame]
    exact h.balance

theorem opened (h : e.Shared config) (hf : e.Fleet config) (fresh : c.pending = []) :
    Shared config { e with
      conn := Function.update e.conn e.conns c
      conns := e.conns + 1
      liveConnections := e.liveConnections + 1 } := by
  have hold : (e.conn e.conns).pending = [] := by rw [hf.fresh _ (Nat.le_refl _)]
  have hpending : ∀ i, (Function.update e.conn e.conns c i).pending = (e.conn i).pending :=
    conn_congr Conn.pending (fresh.trans hold.symm)
  refine ⟨?_, ?_, ?_, h.received, ?_⟩
  · intro i
    dsimp only
    rw [hpending]
    exact h.shares i
  · intro i
    dsimp only
    rw [hpending]
    exact h.depth i
  · intro p hp
    obtain ⟨hlt, hrest⟩ := h.matched p hp
    exact ⟨Nat.lt_succ_of_lt hlt, hrest⟩
  · dsimp only
    rw [total_succ, total_update_of_le (Nat.le_refl _), Function.update_self, fresh]
    exact h.balance

theorem emplace_next (h : e.Shared config) (hn : e.Numbered config)
    (room : e.wantsMore config i = true) (p : Pending) :
    emplace e.nextRequestId p (e.conn i).pending =
      (e.conn i).pending ++ [(e.nextRequestId, p)] := by
  have hfresh : find Prod.fst e.nextRequestId (e.conn i).pending = none := by
    rw [find_eq_none_iff]
    intro hmem
    obtain ⟨q, hq, heq⟩ := List.mem_map.mp hmem
    have hissued := List.mem_map_of_mem (f := Ticket.id) (h.issued_of_pending hq)
    exact hn.next_fresh (wantsMore_iff.mp room).2.2 (heq ▸ hissued)
  rw [emplace, hfresh]
  rfl

theorem issue {spec : RequestSpec} {now : Nat} (h : e.Shared config) (hn : e.Numbered config)
    (hf : e.Fleet config) (live : (e.conn i).live = true)
    (room : e.wantsMore config i = true) : (e.issue i spec now).Shared config := by
  have hemplace := h.emplace_next hn room ⟨spec, now⟩
  obtain ⟨-, hdepth, -⟩ := wantsMore_iff.mp room
  refine ⟨?_, ?_, h.matched, h.received, ?_⟩
  · intro j
    have hs := h.shares j
    simp only [Engine.issue, issuedOn, issuedOn_append, hemplace]
    by_cases hj : j = i
    · subst hj
      rw [Function.update_self, if_pos rfl, List.map_append, List.map_append]
      exact perm_issue hs
    · rw [Function.update_of_ne hj, if_neg (Ne.symm hj), List.append_nil]
      exact hs
  · intro j
    simp only [Engine.issue, hemplace]
    rw [Function.update_apply]
    split
    · rw [List.length_append]
      exact hdepth
    · exact h.depth j
  · have hb := h.balance
    have ht := total_update (hf.lt_conns live) (fun c : Conn => c.pending.length) e.conn
      { e.conn i with
        output := serializeRequestInto (spec.request e.nextRequestId) (e.conn i).output
        pending := (e.conn i).pending ++ [(e.nextRequestId, ⟨spec, now⟩)] }
    simp only [List.length_append, List.length_singleton] at ht
    simp only [Engine.issue, hemplace]
    omega

theorem complete {p : Pending} {response : Response} {now : Nat} (h : e.Shared config)
    (hn : e.Numbered config) (hf : e.Fleet config) (live : (e.conn i).live = true)
    (hit : find Prod.fst response.requestId (e.conn i).pending = some (response.requestId, p))
    (opcode : response.opcode = p.spec.opcode) (phase : Phase) :
    Shared config { e.complete i p response now with phase := phase } := by
  have hperm := perm_cons_without (h.pending_nodup hn i) (mem_of_find hit).1
  dsimp only at hperm
  refine ⟨?_, ?_, ?_, ?_, ?_⟩
  · intro j
    have hs := h.shares j
    simp only [Engine.complete, completedOn, completedOn_append]
    by_cases hj : j = i
    · subst hj
      rw [Function.update_self, if_pos rfl, List.map_append]
      exact perm_complete hs (hperm.map Pending.entry)
    · rw [Function.update_of_ne hj, if_neg (Ne.symm hj), List.append_nil]
      exact hs
  · intro j
    simp only [Engine.complete]
    rw [Function.update_apply]
    split
    · rename_i hj
      exact ((without_sublist _ _).length_le).trans (h.depth i)
    · exact h.depth j
  · intro q hq
    simp only [Engine.complete, List.mem_append, List.mem_singleton] at hq
    obtain hq | rfl := hq
    · exact h.matched q hq
    · have hlt := hf.lt_conns live
      exact ⟨hlt, hf.indices i hlt, opcode⟩
  · simp only [Engine.complete, List.length_append, List.length_singleton, h.received]
  · have hb := h.balance
    have hlen := hperm.length_eq
    have ht := total_update (hf.lt_conns live) (fun c : Conn => c.pending.length) e.conn
      { e.conn i with pending := without Prod.fst response.requestId (e.conn i).pending }
    rw [List.length_cons] at hlen
    simp only at ht
    simp only [Engine.complete]
    omega

end Shared

theorem shared_start : Shared config {} where
  shares := fun _ => .refl _
  depth := fun _ => Nat.zero_le _
  matched := fun _ hp => by cases hp
  received := rfl
  balance := rfl

theorem shared_moves (h : e.Shared config) (hn : e.Numbered config) (hf : e.Fleet config)
    (hm : e.Moves config a e') : e'.Shared config := by
  cases hm with
  | opened fd errno pc room => exact h.opened hf rfl
  | issued i again caller spec now pc room => exact h.issue hn hf (hf.handled_of_phase pc) room
  | completed i consumed caller now p response rest pc le frame value_le hit opcode =>
    exact h.complete hn hf (hf.handled_of_phase pc) hit opcode _
  | dropped i caller pc | hungUp i flags rest pc live =>
    exact h.frame (congrArg Trace.issued (drop_trace _ _))
      (congrArg Trace.completed (drop_trace _ _))
      (fun j => drop_conn Conn.pending (fun _ => rfl) _ j e) (drop_conns _ _) (drop_issued _ _)
      (drop_received _ _)
  | sent | flushed | registered | received | parsed =>
    exact h.frame rfl rfl (conn_congr Conn.pending rfl) rfl rfl rfl
  | _ => exact h.frame rfl rfl (fun _ => rfl) rfl rfl rfl

/-- What holds in every state of every run, whatever the generator and the server do. -/
structure Books (config : EngineConfig) (e : Engine) : Prop where
  fleet : e.Fleet config
  numbered : e.Numbered config
  shared : e.Shared config

theorem books_start : Books config {} := ⟨fleet_start, numbered_start, shared_start⟩

theorem books_moves (h : e.Books config) (hm : e.Moves config a e') : e'.Books config :=
  ⟨fleet_moves h.fleet hm, numbered_moves h.numbered hm,
    shared_moves h.shared h.numbered h.fleet hm⟩

theorem reach_books {ok : Engine → EngineAction → Prop} (h : Reach (step config) ok {} e) :
    e.Books config :=
  h.invariant books_start (fun _ _ _ hp _ hs => books_moves hp (moves_of_step hs))

theorem Shared.issued_of_completed (h : e.Shared config) {p : Nat × Completion}
    (hp : p ∈ e.trace.completed) :
    ⟨p.1, p.2.response.requestId, p.2.request⟩ ∈ e.trace.issued := by
  have hon : p.2 ∈ e.completedOn p.1 :=
    List.mem_map_of_mem (List.mem_filter.mpr ⟨hp, decide_eq_true rfl⟩)
  have hmem : completionEntry p.2 ∈ (e.issuedOn p.1).map Ticket.entry :=
    (h.shares p.1).mem_iff.mpr (List.mem_append_right _ (List.mem_map_of_mem hon))
  obtain ⟨⟨k, id, spec⟩, ht, heq⟩ := List.mem_map.mp hmem
  obtain ⟨hissued, hi⟩ := List.mem_filter.mp ht
  obtain rfl : k = p.1 := of_decide_eq_true hi
  obtain ⟨rfl, rfl⟩ := Prod.mk.inj heq
  exact hissued

theorem nodup_of_classes {α β : Type} {f : Nat × α → β} {l : List (Nat × α)}
    (within : ∀ i, ((l.filter (fun p => p.1 = i)).map f).Nodup)
    (across : ∀ p ∈ l, ∀ q ∈ l, f p = f q → p.1 = q.1) : (l.map f).Nodup := by
  induction l with
  | nil => exact List.nodup_nil
  | cons p l ih =>
    rw [List.map_cons, List.nodup_cons]
    refine ⟨?_, ih ?_ ?_⟩
    · intro hmem
      obtain ⟨q, hq, heq⟩ := List.mem_map.mp hmem
      have hclass := across q (List.mem_cons_of_mem _ hq) p (List.mem_cons_self ..) heq
      have hn := within p.1
      rw [List.filter_cons, if_pos (decide_eq_true rfl), List.map_cons, List.nodup_cons] at hn
      refine hn.1 (heq ▸ List.mem_map_of_mem ?_)
      exact List.mem_filter.mpr ⟨hq, decide_eq_true hclass⟩
    · intro i
      exact ((List.Sublist.filter _ (List.sublist_cons_self p l)).map f).nodup (within i)
    · intro q hq r hr
      exact across q (List.mem_cons_of_mem _ hq) r (List.mem_cons_of_mem _ hr)

theorem Books.completed_nodup (h : e.Books config) :
    (e.trace.completed.map (fun p => p.2.response.requestId)).Nodup := by
  apply nodup_of_classes
  · intro i
    have hn := (List.nodup_append.mp (h.shared.ids_nodup h.numbered i)).2.1
    rw [completedOn, List.map_map] at hn
    exact hn
  · intro p hp q hq heq
    have hinj := List.inj_on_of_nodup_map h.numbered.ids_nodup
      (h.shared.issued_of_completed hp) (h.shared.issued_of_completed hq) heq
    exact congrArg Ticket.connection hinj

/-- Whatever the generator returns and the server answers, in every state of a run the requests
issued are numbered from one, those of a connection are either pending or completed there, and
never more than the pipeline depth is pending. Every completion is called once, for a request
issued on the same connection, with a response that carries its id and opcode. -/
theorem requests_accounted (config : EngineConfig) {e : Engine}
    (h : Reach (step config) Free {} e) :
    e.trace.issued.map Ticket.id = (List.range e.issued).map (fun k => UInt64.ofNat (k + 1)) ∧
      (e.trace.issued.map Ticket.id).Nodup ∧
      e.stats.sent = e.issued ∧ e.issued ≤ config.requests.toNat ∧
      e.stats.received = e.trace.completed.length ∧
      e.issued = e.stats.received + total e.conns (fun c => c.pending.length) e.conn ∧
      (∀ i, (e.conn i).pending.length ≤ config.pipelineDepth ∧
        ((e.issuedOn i).map Ticket.entry).Perm
          ((e.conn i).pending.map Pending.entry ++ (e.completedOn i).map completionEntry)) ∧
      (e.trace.completed.map (fun p => p.2.response.requestId)).Nodup ∧
      ∀ p ∈ e.trace.completed,
        ⟨p.1, p.2.response.requestId, p.2.request⟩ ∈ e.trace.issued ∧
          p.2.response.opcode = p.2.request.opcode ∧
          p.2.connectionIndex = config.firstConnection + p.1 := by
  have hb := reach_books h
  refine ⟨hb.numbered.ids, hb.numbered.ids_nodup, hb.numbered.sent, hb.numbered.issued_le,
    hb.shared.received, hb.shared.balance, fun i => ⟨hb.shared.depth i, hb.shared.shares i⟩,
    hb.completed_nodup, ?_⟩
  intro p hp
  obtain ⟨-, hindex, hopcode⟩ := hb.shared.matched p hp
  exact ⟨hb.shared.issued_of_completed hp, hopcode, hindex⟩

def pairConfig : EngineConfig :=
  { socketPath := "s", connections := 1, pipelineDepth := 2, requests := 3 }

def openPair : List EngineAction :=
  [.create true "", .connect (.opened 5) "", .internal, .run, .internal,
    .generate (some {}) 10, .generate (some {}) 20, .internal, .internal, .send (.sent 48),
    .internal, .control true, .internal, .internal]

def readPair (bytes : Bytes) (responses : Nat) : List EngineAction :=
  [.wait (.batch [(0, { epollin := true })]) "", .internal, .recv (.data bytes), .recv .eagain] ++
    List.replicate responses (.parse 50)

def pong (id : UInt64) : Bytes := serializeResponse { requestId := id, opcode := .kPing }

theorem requests_accounted_reversed :
    ∃ e : Engine, Reach (step pairConfig) Free {} e ∧
      e.trace.completed.map (fun p => p.2.response.requestId) = [2, 1] ∧
      e.stats.received = 2 ∧ e.issued = 2 ∧
      (e.trace.completed.map (fun p => p.2.response.requestId)).Nodup := by
  obtain ⟨e, hr, hids, hreceived, hissued⟩ := exists_reach (step pairConfig) {}
    (openPair ++ readPair (pong 2 ++ pong 1) 2)
    (fun e => e.trace.completed.map (fun p => p.2.response.requestId) = [2, 1] ∧
      e.stats.received = 2 ∧ e.issued = 2)
    (by decide +kernel)
  exact ⟨e, hr, hids, hreceived, hissued,
    (requests_accounted pairConfig hr).2.2.2.2.2.2.2.1⟩

end Engine

end LocalCache
