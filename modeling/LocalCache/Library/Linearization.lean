import Mathlib.Data.List.Induction
import Mathlib.Data.List.Nodup

namespace LocalCache.Library.Linearization

/-- A sequential object: what an operation may return in a state, and the state after it. -/
structure Object (σ Op Ret : Type) where
  allows : σ → Op → Ret → Prop
  next : σ → Op → Ret → σ

/-- The calls and the returns of operations, each with the identity of its operation. -/
inductive Event (ι Op Ret : Type)
  | call (i : ι) (op : Op)
  | ret (i : ι) (r : Ret)
  deriving DecidableEq, Repr

variable {σ ι Op Ret : Type} {O : Object σ Op Ret} {s₀ s : σ} {i : ι} {op : Op} {r : Ret}
  {H : List (Event ι Op Ret)} {L : List (ι × Op × Ret)}

def Object.Legal (O : Object σ Op Ret) : σ → List (Op × Ret) → Prop
  | _, [] => True
  | s, (op, r) :: l => O.allows s op r ∧ O.Legal (O.next s op r) l

def Object.run (O : Object σ Op Ret) (s : σ) (l : List (Op × Ret)) : σ :=
  l.foldl (fun s p => O.next s p.1 p.2) s

theorem Object.legal_append (s : σ) (l l' : List (Op × Ret)) :
    O.Legal s (l ++ l') ↔ O.Legal s l ∧ O.Legal (O.run s l) l' := by
  induction l generalizing s with
  | nil => simp [Legal, run]
  | cons p l ih =>
    obtain ⟨op, r⟩ := p
    simp only [List.cons_append, Legal, ih, and_assoc]
    rfl

/-- `L` is a sequential order of operations called in the history, among them all that returned.
Wherever the history is cut, what returned before the cut comes in `L` before what is called
after it. -/
structure Linearizes (O : Object σ Op Ret) (s₀ : σ) (H : List (Event ι Op Ret))
    (L : List (ι × Op × Ret)) : Prop where
  legal : O.Legal s₀ (L.map Prod.snd)
  nodup : (L.map Prod.fst).Nodup
  called : ∀ x ∈ L, .call x.1 x.2.1 ∈ H
  returned : ∀ i r, .ret i r ∈ H → ∃ op, (i, op, r) ∈ L
  order : ∀ H₁ H₂, H = H₁ ++ H₂ → ∃ L₁ L₂, L = L₁ ++ L₂ ∧
    (∀ i r, .ret i r ∈ H₁ → i ∈ L₁.map Prod.fst) ∧
    ∀ i op, .call i op ∈ H₂ → i ∉ L₁.map Prod.fst

/-- Histories of operations that take effect at one point between their call and their return.
The operations are listed in the order of these points. -/
inductive Pointed (O : Object σ Op Ret) (s₀ : σ) :
    List (Event ι Op Ret) → List (ι × Op × Ret) → σ → Prop
  | nil : Pointed O s₀ [] [] s₀
  | call {H : List (Event ι Op Ret)} {L : List (ι × Op × Ret)} {s : σ} {i : ι} {op : Op}
      (h : Pointed O s₀ H L s) (fresh : ∀ op', .call i op' ∉ H) :
      Pointed O s₀ (H ++ [.call i op]) L s
  | point {H : List (Event ι Op Ret)} {L : List (ι × Op × Ret)} {s : σ} {i : ι} {op : Op} {r : Ret}
      (h : Pointed O s₀ H L s) (called : .call i op ∈ H) (fresh : i ∉ L.map Prod.fst)
      (allows : O.allows s op r) : Pointed O s₀ H (L ++ [(i, op, r)]) (O.next s op r)
  | ret {H : List (Event ι Op Ret)} {L : List (ι × Op × Ret)} {s : σ} {i : ι} {op : Op} {r : Ret}
      (h : Pointed O s₀ H L s) (done : (i, op, r) ∈ L) : Pointed O s₀ (H ++ [.ret i r]) L s

theorem Pointed.run_eq (h : Pointed O s₀ H L s) : O.run s₀ (L.map Prod.snd) = s := by
  induction h with
  | nil => rfl
  | call _ _ ih | ret _ _ ih => exact ih
  | point _ _ _ _ ih =>
    rw [List.map_append, Object.run, List.foldl_append]
    rw [Object.run] at ih
    rw [ih]
    rfl

theorem cut_concat {e : Event ι Op Ret} {H₁ H₂ : List (Event ι Op Ret)}
    (h : H ++ [e] = H₁ ++ H₂) :
    (H₁ = H ++ [e] ∧ H₂ = []) ∨ ∃ H₃, H₂ = H₃ ++ [e] ∧ H = H₁ ++ H₃ := by
  obtain rfl | ⟨H₃, x, rfl⟩ := List.eq_nil_or_concat H₂
  · exact .inl ⟨by rw [h, List.append_nil], rfl⟩
  · rw [List.concat_eq_append, ← List.append_assoc] at h
    obtain ⟨rfl, he⟩ := List.append_inj' h rfl
    exact .inr ⟨H₃, by rw [List.concat_eq_append, he], rfl⟩

namespace Linearizes

theorem nil : Linearizes O s₀ ([] : List (Event ι Op Ret)) [] where
  legal := trivial
  nodup := List.nodup_nil
  called := fun _ hx => by cases hx
  returned := fun _ _ hr => by cases hr
  order := by
    intro H₁ H₂ h
    obtain ⟨rfl, rfl⟩ := List.append_eq_nil_iff.mp h.symm
    exact ⟨[], [], rfl, (fun _ _ hr => by cases hr), (fun _ _ hc => by cases hc)⟩

theorem call (h : Linearizes O s₀ H L) (fresh : ∀ op', .call i op' ∉ H) :
    Linearizes O s₀ (H ++ [.call i op]) L := by
  have hreturned : ∀ j r, Event.ret j r ∈ H ++ [.call i op] → ∃ op, (j, op, r) ∈ L := by
    intro j r hr
    obtain hr | hr := List.mem_append.mp hr
    · exact h.returned j r hr
    · cases List.mem_singleton.mp hr
  refine ⟨h.legal, h.nodup, fun x hx => List.mem_append_left _ (h.called x hx), hreturned, ?_⟩
  intro H₁ H₂ hcut
  obtain ⟨rfl, rfl⟩ | ⟨H₃, rfl, rfl⟩ := cut_concat hcut
  · refine ⟨L, [], (List.append_nil L).symm, ?_, (fun _ _ hc => by cases hc)⟩
    intro j r hr
    obtain ⟨op', hmem⟩ := hreturned j r hr
    exact List.mem_map_of_mem (f := Prod.fst) hmem
  · obtain ⟨L₁, L₂, rfl, hbefore, hafter⟩ := h.order H₁ H₃ rfl
    refine ⟨L₁, L₂, rfl, hbefore, ?_⟩
    intro j op' hc hmem
    obtain hc | hc := List.mem_append.mp hc
    · exact hafter j op' hc hmem
    · -- Only what was called before has a place.
      cases List.mem_singleton.mp hc
      obtain ⟨x, hx, rfl⟩ := List.mem_map.mp hmem
      exact fresh _ (h.called x (List.mem_append_left _ hx))

theorem point (h : Linearizes O s₀ H L) (called : .call i op ∈ H) (fresh : i ∉ L.map Prod.fst)
    (allows : O.allows (O.run s₀ (L.map Prod.snd)) op r) :
    Linearizes O s₀ H (L ++ [(i, op, r)]) where
  legal := by
    rw [List.map_append]
    exact (O.legal_append s₀ _ _).mpr ⟨h.legal, allows, trivial⟩
  nodup := by
    rw [List.map_append]
    refine List.Nodup.append h.nodup (List.nodup_singleton _) ?_
    intro j hj hi
    obtain rfl : j = i := List.mem_singleton.mp hi
    exact fresh hj
  called := by
    intro x hx
    obtain hx | hx := List.mem_append.mp hx
    · exact h.called x hx
    · rw [List.mem_singleton.mp hx]
      exact called
  returned := by
    intro j r' hr
    obtain ⟨op', hmem⟩ := h.returned j r' hr
    exact ⟨op', List.mem_append_left _ hmem⟩
  order := by
    intro H₁ H₂ hcut
    obtain ⟨L₁, L₂, rfl, hbefore, hafter⟩ := h.order H₁ H₂ hcut
    exact ⟨L₁, L₂ ++ [(i, op, r)], List.append_assoc _ _ _, hbefore, hafter⟩

theorem ret (h : Linearizes O s₀ H L) (done : (i, op, r) ∈ L) :
    Linearizes O s₀ (H ++ [.ret i r]) L := by
  have hreturned : ∀ j r', Event.ret j r' ∈ H ++ [.ret i r] → ∃ op, (j, op, r') ∈ L := by
    intro j r' hr
    obtain hr | hr := List.mem_append.mp hr
    · exact h.returned j r' hr
    · cases List.mem_singleton.mp hr
      exact ⟨op, done⟩
  refine ⟨h.legal, h.nodup, fun x hx => List.mem_append_left _ (h.called x hx), hreturned, ?_⟩
  intro H₁ H₂ hcut
  obtain ⟨rfl, rfl⟩ | ⟨H₃, rfl, rfl⟩ := cut_concat hcut
  · refine ⟨L, [], (List.append_nil L).symm, ?_, (fun _ _ hc => by cases hc)⟩
    intro j r' hr
    obtain ⟨op', hmem⟩ := hreturned j r' hr
    exact List.mem_map_of_mem (f := Prod.fst) hmem
  · obtain ⟨L₁, L₂, rfl, hbefore, hafter⟩ := h.order H₁ H₃ rfl
    refine ⟨L₁, L₂, rfl, hbefore, ?_⟩
    intro j op' hc
    obtain hc | hc := List.mem_append.mp hc
    · exact hafter j op' hc
    · cases List.mem_singleton.mp hc

end Linearizes

/-- Operations that take effect at a point between call and return are linearizable, in the order
of their points. -/
theorem Pointed.linearizes (h : Pointed O s₀ H L s) : Linearizes O s₀ H L := by
  induction h with
  | nil => exact .nil
  | call _ fresh ih => exact ih.call fresh
  | point h called fresh allows ih => exact ih.point called fresh (h.run_eq.symm ▸ allows)
  | ret _ done ih => exact ih.ret done

section Layers

variable {κ : Type} {R R' : ι → κ → Prop} {f : ι → κ} {k : κ}
  {M : List (Event ι Op Ret ⊕ Event κ Op Ret)}

def inside (M : List (Event ι Op Ret ⊕ Event κ Op Ret)) : List (Event ι Op Ret) :=
  M.filterMap Sum.getLeft?

def outside (M : List (Event ι Op Ret ⊕ Event κ Op Ret)) : List (Event κ Op Ret) :=
  M.filterMap Sum.getRight?

@[simp] theorem mem_inside {e : Event ι Op Ret} : e ∈ inside M ↔ .inl e ∈ M := by
  simp [inside, Sum.getLeft?_eq_some_iff]

@[simp] theorem mem_outside {e : Event κ Op Ret} : e ∈ outside M ↔ .inr e ∈ M := by
  simp [outside, Sum.getRight?_eq_some_iff]

/-- Every operation on the object is called on behalf of one called before by a caller, and a
caller's operation returns only after one on the object with the same return. -/
inductive Contains (R : ι → κ → Prop) : List (Event ι Op Ret ⊕ Event κ Op Ret) → Prop
  | nil : Contains R []
  | innerCall {M : List (Event ι Op Ret ⊕ Event κ Op Ret)} {i : ι} {k : κ} {op : Op}
      (h : Contains R M) (related : R i k) (called : .inr (.call k op) ∈ M) :
      Contains R (M ++ [.inl (.call i op)])
  | innerRet {M : List (Event ι Op Ret ⊕ Event κ Op Ret)} {i : ι} {r : Ret}
      (h : Contains R M) : Contains R (M ++ [.inl (.ret i r)])
  | outerCall {M : List (Event ι Op Ret ⊕ Event κ Op Ret)} {k : κ} {op : Op}
      (h : Contains R M) (fresh : ∀ op', .inr (.call k op') ∉ M) :
      Contains R (M ++ [.inr (.call k op)])
  | outerRet {M : List (Event ι Op Ret ⊕ Event κ Op Ret)} {i : ι} {k : κ} {r : Ret}
      (h : Contains R M) (related : R i k) (returned : .inl (.ret i r) ∈ M) :
      Contains R (M ++ [.inr (.ret k r)])

namespace Contains

theorem mono (h : Contains R M) (le : ∀ i k, R i k → R' i k) : Contains R' M := by
  induction h with
  | nil => exact .nil
  | innerCall _ related called ih => exact ih.innerCall (le _ _ related) called
  | innerRet _ ih => exact ih.innerRet
  | outerCall _ fresh ih => exact ih.outerCall fresh
  | outerRet _ related returned ih => exact ih.outerRet (le _ _ related) returned

theorem of_concat {e : Event ι Op Ret ⊕ Event κ Op Ret} (h : Contains R (M ++ [e])) :
    Contains R M := by
  generalize hM : M ++ [e] = M' at h
  cases h with
  | nil => exact absurd hM (by simp)
  | innerCall h | innerRet h | outerCall h | outerRet h =>
    obtain ⟨rfl, -⟩ := List.append_inj' hM rfl
    exact h

theorem fresh {op : Op} (h : Contains R (M ++ [.inr (.call k op)])) (op' : Op) :
    .inr (.call k op') ∉ M := by
  generalize hM : M ++ [.inr (.call k op)] = M' at h
  cases h with
  | nil => exact absurd hM (by simp)
  | outerCall h fresh =>
    obtain ⟨rfl, he⟩ := List.append_inj' hM rfl
    cases he
    exact fresh op'
  | innerCall | innerRet | outerRet =>
    cases (List.append_inj' hM rfl).2

theorem called (h : Contains R M) (hi : .inl (.call i op) ∈ M) :
    ∃ k, R i k ∧ .inr (.call k op) ∈ M := by
  induction h with
  | nil => cases hi
  | innerCall _ related before ih =>
    obtain hi | hi := List.mem_append.mp hi
    · obtain ⟨k, hk, hmem⟩ := ih hi
      exact ⟨k, hk, List.mem_append_left _ hmem⟩
    · cases List.mem_singleton.mp hi
      exact ⟨_, related, List.mem_append_left _ before⟩
  | innerRet _ ih | outerCall _ _ ih | outerRet _ _ _ ih =>
    obtain hi | hi := List.mem_append.mp hi
    · obtain ⟨k, hk, hmem⟩ := ih hi
      exact ⟨k, hk, List.mem_append_left _ hmem⟩
    · cases List.mem_singleton.mp hi

theorem returned (h : Contains R M) (hk : .inr (.ret k r) ∈ M) :
    ∃ i, R i k ∧ .inl (.ret i r) ∈ M := by
  induction h with
  | nil => cases hk
  | outerRet _ related before ih =>
    obtain hk | hk := List.mem_append.mp hk
    · obtain ⟨i, hi, hmem⟩ := ih hk
      exact ⟨i, hi, List.mem_append_left _ hmem⟩
    · cases List.mem_singleton.mp hk
      exact ⟨_, related, List.mem_append_left _ before⟩
  | innerCall _ _ _ ih | innerRet _ ih | outerCall _ _ ih =>
    obtain hk | hk := List.mem_append.mp hk
    · obtain ⟨i, hi, hmem⟩ := ih hk
      exact ⟨i, hi, List.mem_append_left _ hmem⟩
    · cases List.mem_singleton.mp hk

variable {M₁ M₂ : List (Event ι Op Ret ⊕ Event κ Op Ret)}

theorem left (h : Contains R (M₁ ++ M₂)) : Contains R M₁ := by
  induction M₂ using List.reverseRecOn with
  | nil =>
    rw [List.append_nil] at h
    exact h
  | append_singleton M₂ e ih =>
    rw [← List.append_assoc] at h
    exact ih h.of_concat

theorem once (h : Contains R (M₁ ++ M₂)) {op' : Op} (hk : .inr (.call k op) ∈ M₁) :
    .inr (.call k op') ∉ M₂ := by
  induction M₂ using List.reverseRecOn with
  | nil => simp
  | append_singleton M₂ e ih =>
    rw [← List.append_assoc] at h
    intro hmem
    obtain hmem | hmem := List.mem_append.mp hmem
    · exact ih h.of_concat hmem
    · cases List.mem_singleton.mp hmem
      exact h.fresh op (List.mem_append_left _ hk)

end Contains

/-- An object that is linearizable remains so for callers that take longer: the order of their
operations is that of the operations on the object. -/
theorem Linearizes.widen (h : Linearizes O s₀ (inside M) L) (hc : Contains R M)
    (hf : ∀ i k, R i k → f i = k)
    (injective : ∀ i i' op op', .inl (.call i op) ∈ M → .inl (.call i' op') ∈ M →
      f i = f i' → i = i') :
    Linearizes O s₀ (outside M) (L.map fun x => (f x.1, x.2)) where
  legal := by
    rw [List.map_map]
    exact h.legal
  nodup := by
    rw [List.map_map]
    refine List.Nodup.map_on ?_ (List.Nodup.of_map Prod.fst h.nodup)
    intro x hx y hy hxy
    have hid := injective x.1 y.1 x.2.1 y.2.1 (mem_inside.mp (h.called x hx))
      (mem_inside.mp (h.called y hy)) hxy
    exact List.inj_on_of_nodup_map h.nodup hx hy hid
  called := by
    intro x hx
    obtain ⟨y, hy, rfl⟩ := List.mem_map.mp hx
    obtain ⟨k, hk, hmem⟩ := hc.called (mem_inside.mp (h.called y hy))
    rw [mem_outside, hf _ _ hk]
    exact hmem
  returned := by
    intro k r hk
    obtain ⟨i, hi, hmem⟩ := hc.returned (mem_outside.mp hk)
    obtain ⟨op, hL⟩ := h.returned i r (mem_inside.mpr hmem)
    exact ⟨op, List.mem_map.mpr ⟨_, hL, by rw [hf i k hi]⟩⟩
  order := by
    intro H₁ H₂ hcut
    -- A cut of the callers' history is one of both histories.
    obtain ⟨M₁, M₂, rfl, rfl, rfl⟩ := List.filterMap_eq_append_iff.mp hcut
    obtain ⟨L₁, L₂, rfl, hbefore, hafter⟩ := h.order (inside M₁) (inside M₂)
      (List.filterMap_append ..)
    refine ⟨L₁.map _, L₂.map _, List.map_append .., ?_, ?_⟩
    · intro k r hk
      obtain ⟨i, hi, hmem⟩ := hc.left.returned (mem_outside.mp hk)
      obtain ⟨x, hx, rfl⟩ := List.mem_map.mp (hbefore i r (mem_inside.mpr hmem))
      rw [List.map_map]
      exact List.mem_map.mpr ⟨x, hx, hf _ _ hi⟩
    · intro k op hk hmem
      rw [List.map_map] at hmem
      obtain ⟨x, hx, rfl⟩ := List.mem_map.mp hmem
      have hcalled := mem_inside.mp (h.called x (List.mem_append_left _ hx))
      obtain hfirst | hsecond := List.mem_append.mp hcalled
      · obtain ⟨k, hk', hbefore'⟩ := hc.left.called hfirst
        obtain rfl := hf _ _ hk'
        exact hc.once hbefore' (mem_outside.mp hk)
      · exact hafter x.1 x.2.1 (mem_inside.mpr hsecond) (List.mem_map_of_mem hx)

end Layers

end LocalCache.Library.Linearization
