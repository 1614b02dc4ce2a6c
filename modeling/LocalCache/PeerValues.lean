import LocalCache.PeerLinear

namespace LocalCache

open Protocol Serializer Library Transition RecencyList Linearization

namespace LruServer

variable {limits : CacheLimits} {l : List Entry} {q : Request} {r : Response} {e : Entry}
  {ops : List (Request × Response)}

theorem mem_of_find {k : Bytes} (h : find k l = some e) : e ∈ l ∧ e.1 = k := Keyed.mem_of_find h

theorem mem_of_others {k : Bytes} (h : e ∈ others k l) : e ∈ l := (Keyed.mem_without.mp h).1

theorem mem_next (h : e ∈ next limits l q r) :
    e ∈ l ∨ q.opcode = .kPut ∧ e = (q.key, q.value) := by
  rw [next] at h
  split at h
  · exact .inl h
  · cases hop : q.opcode with
    | kGet =>
      simp only [Request.cacheOp, hop, Option.map_some, Option.getD_some, apply] at h
      split at h
      · exact .inl h
      · rename_i e' hfind
        obtain rfl | h := List.mem_cons.mp h
        · exact .inl (mem_of_find hfind).1
        · exact .inl (mem_of_others h)
    | kPut =>
      simp only [Request.cacheOp, hop, Option.map_some, Option.getD_some, apply] at h
      split at h
      · exact .inl h
      · split at h
        · exact .inl h
        · obtain rfl | h := List.mem_cons.mp h
          · exact .inr ⟨rfl, rfl⟩
          · exact .inl (mem_of_others ((Recency.trim_sublist _ _).subset h))
    | kDelete =>
      simp only [Request.cacheOp, hop, Option.map_some, Option.getD_some, apply] at h
      split at h
      · exact .inl h
      · exact .inl (mem_of_others h)
    | kClear =>
      simp only [Request.cacheOp, hop, Option.map_some, Option.getD_some, apply] at h
      cases h
    | kPing | kStats =>
      simp only [Request.cacheOp, hop, Option.map_none, Option.getD_none] at h
      exact .inl h

theorem mem_run (h : e ∈ (object limits).run [] ops) :
    ∃ p ∈ ops, p.1.opcode = .kPut ∧ e = (p.1.key, p.1.value) := by
  induction ops using List.reverseRecOn with
  | nil => cases h
  | append_singleton ops p ih =>
    rw [Object.run, List.foldl_append] at h
    obtain h | hput := mem_next h
    · obtain ⟨p', hp', hrest⟩ := ih h
      exact ⟨p', List.mem_append_left _ hp', hrest⟩
    · exact ⟨p, List.mem_append_right _ (List.mem_singleton_self _), hput⟩

theorem mem_of_get (h : Allows limits l q r) (get : q.opcode = .kGet) (ok : r.status = .kOk) :
    (q.key, r.value) ∈ l := by
  obtain ⟨-, hbusy | hallows⟩ := h
  · rw [ok] at hbusy
    cases hbusy
  · simp only [Request.cacheOp, get, apply] at hallows
    cases hfind : find q.key l with
    | none =>
      rw [hfind, ok] at hallows
      cases hallows
    | some e =>
      obtain ⟨hmem, hkey⟩ := mem_of_find hfind
      rw [hfind, ok] at hallows
      rw [show r.value = e.2 from congrArg Prod.snd hallows, ← hkey]
      exact hmem

theorem put_of_get {before after : List (Request × Response)}
    (legal : (object limits).Legal [] (before ++ (q, r) :: after)) (get : q.opcode = .kGet)
    (ok : r.status = .kOk) :
    ∃ p ∈ before, p.1.opcode = .kPut ∧ p.1.key = q.key ∧ p.1.value = r.value := by
  have hallows := (((object limits).legal_append [] before _).mp legal).2.1
  obtain ⟨p, hp, hput, heq⟩ := mem_run (mem_of_get hallows get ok)
  obtain ⟨hkey, hvalue⟩ := Prod.mk.inj heq
  exact ⟨p, hp, hput, hkey.symm, hvalue.symm⟩

end LruServer

namespace Net

variable {σ α : Type} {config : ServerConfig} {P : Nat → Peer config.frameLimits σ α} {z : Net σ}
  {M : Layers} {k n : Nat} {q : Request} {r : Response}

theorem Histories.place (h : Histories P z M)
    {L : List ((Nat × UInt64) × Request × Response)}
    (hL : Linearizes (LruServer.object config.cacheLimits) [] (outside M) L)
    (told : (n, r) ∈ (P k).told (z.peer k)) (asked : (n, q) ∈ (P k).asked (z.peer k))
    (same : r.requestId = q.requestId) : ((k, r.requestId), q, r) ∈ L := by
  obtain ⟨q', hmem⟩ := hL.returned _ r (mem_outside.mpr (h.rets k _ told))
  obtain ⟨n', hn', hid⟩ := (h.calls k _ q').mp (mem_outside.mp (hL.called _ hmem))
  have heq := List.inj_on_of_nodup_map (h.numbered k _ (h.inv.peers k)) asked hn'
    (same.symm.trans hid)
  rw [(Prod.mk.inj heq).2]
  exact hmem

theorem Histories.allowed (h : Histories P z M) (told : (n, r) ∈ (P k).told (z.peer k))
    (asked : (n, q) ∈ (P k).asked (z.peer k)) (same : r.requestId = q.requestId) :
    ∃ l, LruServer.Allows config.cacheLimits l q r := by
  obtain ⟨L, hL⟩ := h.linearizes
  obtain ⟨before, after, hsplit⟩ := List.append_of_mem (h.place hL told asked same)
  have hlegal := hL.legal
  rw [hsplit, List.map_append, List.map_cons] at hlegal
  exact ⟨_, ((Object.legal_append _ _ _).mp hlegal).2.1⟩

/-- No value comes out of thin air: what a peer is told for a GET, some peer has put there. -/
theorem Histories.put_of_get (h : Histories P z M) (told : (n, r) ∈ (P k).told (z.peer k))
    (asked : (n, q) ∈ (P k).asked (z.peer k)) (same : r.requestId = q.requestId)
    (get : q.opcode = .kGet) (ok : r.status = .kOk) :
    ∃ i m p, (m, p) ∈ (P i).asked (z.peer i) ∧ p.opcode = .kPut ∧ p.key = q.key ∧
      p.value = r.value := by
  obtain ⟨L, hL⟩ := h.linearizes
  obtain ⟨before, after, hsplit⟩ := List.append_of_mem (h.place hL told asked same)
  have hlegal := hL.legal
  rw [hsplit, List.map_append, List.map_cons] at hlegal
  obtain ⟨⟨p, r'⟩, hp, hput, hkey, hvalue⟩ := LruServer.put_of_get hlegal get ok
  obtain ⟨⟨⟨i, id⟩, x⟩, hx, hxp⟩ := List.mem_map.mp hp
  dsimp only at hxp
  subst hxp
  have hcalled := hL.called _ (by rw [hsplit]; exact List.mem_append_left _ hx)
  obtain ⟨m, hm, -⟩ := (h.calls i id p).mp (mem_outside.mp hcalled)
  exact ⟨i, m, p, hm, hput, hkey, hvalue⟩

end Net

end LocalCache
