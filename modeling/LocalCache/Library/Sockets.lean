import Mathlib.Data.List.Infix
import Mathlib.Logic.Function.Basic

namespace LocalCache.Library.Sockets

variable {κ β : Type} {link : Nat → Option κ} {bound bound' : Nat}
  {got put got' put' : Nat → List β} {sent read sent' read' : κ → List β} {c : Nat} {p : κ}

/-- Stream sockets between a server and its peers. `link` tells which end of a peer a connection of
the server was accepted from. The server has read `got` and written `put`, and the peers have
written `sent` and read `read`. Every connection has at most one other end, and carries in both
directions the beginning of what was written. -/
structure Wired (link : Nat → Option κ) (bound : Nat) (got put : Nat → List β)
    (sent read : κ → List β) : Prop where
  known : ∀ c p, link c = some p → c < bound
  injective : ∀ c d p, link c = some p → link d = some p → c = d
  arrived : ∀ c p, link c = some p → got c <+: sent p
  unlinked : ∀ c, link c = none → got c = []
  delivered : ∀ p, read p = [] ∨ ∃ c, link c = some p ∧ read p <+: put c

namespace Wired

theorem start : Wired (κ := κ) (β := β) (fun _ => none) bound (fun _ => []) put sent
    (fun _ => []) where
  known := fun _ _ h => by cases h
  injective := fun _ _ _ h => by cases h
  arrived := fun _ _ h => by cases h
  unlinked := fun _ _ => rfl
  delivered := fun _ => .inl rfl

theorem delivers (h : Wired link bound got put sent read) (hc : link c = some p) :
    read p <+: put c := by
  obtain hnil | ⟨d, hd, hpre⟩ := h.delivered p
  · rw [hnil]
    exact List.nil_prefix
  · exact h.injective d c p hd hc ▸ hpre

theorem advance (h : Wired link bound got put sent read) (bound_le : bound ≤ bound')
    (hgot : ∀ c, got' c = got c ∨ ∃ p, link c = some p ∧ got' c <+: sent' p)
    (hput : ∀ c, put c <+: put' c) (hsent : ∀ p, sent p <+: sent' p)
    (hread : ∀ p, read' p = read p ∨ ∃ c, link c = some p ∧ read' p <+: put' c) :
    Wired link bound' got' put' sent' read' where
  known := fun c p hc => Nat.lt_of_lt_of_le (h.known c p hc) bound_le
  injective := h.injective
  arrived := by
    intro c p hc
    obtain hsame | ⟨q, hq, hpre⟩ := hgot c
    · rw [hsame]
      exact (h.arrived c p hc).trans (hsent p)
    · obtain rfl := Option.some.inj (hq.symm.trans hc)
      exact hpre
  unlinked := by
    intro c hc
    obtain hsame | ⟨q, hq, -⟩ := hgot c
    · rw [hsame]
      exact h.unlinked c hc
    · cases hq.symm.trans hc
  delivered := by
    intro p
    obtain hsame | hpre := hread p
    · rw [hsame]
      obtain hnil | ⟨c, hc, hpre⟩ := h.delivered p
      · exact .inl hnil
      · exact .inr ⟨c, hc, hpre.trans (hput c)⟩
    · exact .inr hpre

theorem accept (h : Wired link bound got put sent read) (hc : c < bound) (new : link c = none)
    (free : ∀ d, link d ≠ some p) :
    Wired (Function.update link c (some p)) bound got put sent read := by
  have hcases : ∀ {d q}, Function.update link c (some p) d = some q →
      (d = c ∧ q = p) ∨ link d = some q := by
    intro d q hd
    rw [Function.update_apply] at hd
    split at hd
    · cases hd
      exact .inl ⟨‹_›, rfl⟩
    · exact .inr hd
  refine ⟨?_, ?_, ?_, ?_, ?_⟩
  · intro d q hd
    obtain ⟨rfl, -⟩ | hd := hcases hd
    · exact hc
    · exact h.known d q hd
  · intro d e q hd he
    obtain ⟨rfl, rfl⟩ | hd' := hcases hd
    · obtain ⟨rfl, -⟩ | he' := hcases he
      · rfl
      · exact absurd he' (free e)
    · obtain ⟨rfl, rfl⟩ | he' := hcases he
      · exact absurd hd' (free d)
      · exact h.injective d e q hd' he'
  · intro d q hd
    obtain ⟨rfl, -⟩ | hd := hcases hd
    · rw [h.unlinked d new]
      exact List.nil_prefix
    · exact h.arrived d q hd
  · intro d hd
    rw [Function.update_apply] at hd
    split at hd
    · cases hd
    · exact h.unlinked d hd
  · intro q
    obtain hnil | ⟨d, hd, hpre⟩ := h.delivered q
    · exact .inl hnil
    · refine .inr ⟨d, ?_, hpre⟩
      rw [Function.update_of_ne, hd]
      rintro rfl
      cases new.symm.trans hd

end Wired

end LocalCache.Library.Sockets
