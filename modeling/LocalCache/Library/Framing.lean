import Mathlib.Data.List.Basic

namespace LocalCache.Library.Framing

/-- What a parser says about the first frame of a stream. -/
inductive Verdict (ρ ε : Type)
  | item (r : ρ) (size : Nat)
  | more
  | bad (e : ε)

variable {α ρ ε : Type}

/-- A parser for the head of a stream is incremental when more input never
changes a verdict it has already given. -/
structure Incremental (head : List α → Verdict ρ ε) : Prop where
  item_pos : ∀ {x r n}, head x = .item r n → 0 < n
  item_le : ∀ {x r n}, head x = .item r n → n ≤ x.length
  item_append : ∀ {x r n} y, head x = .item r n → head (x ++ y) = .item r n
  bad_append : ∀ {x e} y, head x = .bad e → head (x ++ y) = .bad e

/-- Apply the head parser until it stops returning items. The second component
is the error it stopped with, if it did not stop for lack of input. -/
def parseFuel (head : List α → Verdict ρ ε) : Nat → List α → List ρ × Option ε
  | 0, _ => ([], none)
  | fuel + 1, x => match head x with
    | .item r n =>
      let p := parseFuel head fuel (x.drop n)
      (r :: p.1, p.2)
    | .more => ([], none)
    | .bad e => ([], some e)

def parse (head : List α → Verdict ρ ε) (x : List α) : List ρ × Option ε :=
  parseFuel head (x.length + 1) x

def after (rs : List ρ) (p : List ρ × Option ε) : List ρ × Option ε := (rs ++ p.1, p.2)

variable {head : List α → Verdict ρ ε}

/-- Every item consumes something, so fuel beyond the length is never used. -/
theorem parseFuel_congr (hi : Incremental head) {f g : Nat} {x : List α}
    (hf : x.length < f) (hg : x.length < g) : parseFuel head f x = parseFuel head g x := by
  induction f generalizing g x with
  | zero => omega
  | succ f ih =>
    cases g with
    | zero => omega
    | succ g =>
      simp only [parseFuel]
      cases hx : head x with
      | more => rfl
      | bad e => rfl
      | item r n =>
        have hpos := hi.item_pos hx
        have hle := hi.item_le hx
        have hlen : (x.drop n).length < x.length := by
          rw [List.length_drop]
          omega
        have h := ih (g := g) (x := x.drop n) (by omega) (by omega)
        simp only [h]

theorem parse_item (hi : Incremental head) {x : List α} {r : ρ} {n : Nat}
    (h : head x = .item r n) : parse head x = after [r] (parse head (x.drop n)) := by
  have hpos := hi.item_pos h
  have hle := hi.item_le h
  have hlen : (x.drop n).length < x.length := by
    rw [List.length_drop]
    omega
  have hc := parseFuel_congr hi (f := x.length) (g := (x.drop n).length + 1) (x := x.drop n)
    hlen (by omega)
  simp only [parse, after] at hc ⊢
  rw [parseFuel, h]
  simp only [hc, List.singleton_append]

theorem parse_more {x : List α} (h : head x = .more) : parse head x = ([], none) := by
  rw [parse, parseFuel, h]

theorem parse_bad {x : List α} {e : ε} (h : head x = .bad e) : parse head x = ([], some e) := by
  rw [parse, parseFuel, h]

theorem Incremental.more_of_lt (hi : Incremental head) {x y : List α} {r : ρ} {n : Nat}
    (h : head (x ++ y) = .item r n) (hlt : x.length < n) : head x = .more := by
  cases hx : head x with
  | more => rfl
  | item r' n' =>
    have hle := hi.item_le hx
    rw [hi.item_append y hx] at h
    cases h
    omega
  | bad e =>
    rw [hi.bad_append y hx] at h
    cases h

section Frames

variable {β : Type} {frame : β → List α} {val : β → ρ}

theorem parse_strict (hi : Incremental head) {b : β} {x : List α}
    (hb : head (frame b) = .item (val b) (frame b).length ∨ ∃ e, head (frame b) = .bad e)
    (hx : x <+: frame b) (hlt : x.length < (frame b).length) : (parse head x).1 = [] := by
  obtain ⟨y, hy⟩ := hx
  cases hh : head x with
  | more => rw [parse_more hh]
  | bad e => rw [parse_bad hh]
  | item r n =>
    have hle := hi.item_le hh
    have happ := hi.item_append y hh
    rw [hy] at happ
    obtain hb | ⟨e, hb⟩ := hb
    · rw [hb] at happ
      cases happ
      omega
    · rw [hb] at happ
      cases happ

theorem prefix_flatMap_cons {b : β} {bs : List β} {x : List α}
    (h : x <+: (b :: bs).flatMap frame) :
    (x <+: frame b ∧ x.length < (frame b).length) ∨
      ∃ y, x = frame b ++ y ∧ y <+: bs.flatMap frame := by
  rw [List.flatMap_cons] at h
  by_cases hlt : x.length < (frame b).length
  · exact .inl ⟨List.prefix_of_prefix_length_le h (List.prefix_append _ _) (Nat.le_of_lt hlt), hlt⟩
  · obtain ⟨y, rfl⟩ : frame b <+: x :=
      List.prefix_of_prefix_length_le (List.prefix_append _ _) h (Nat.le_of_not_lt hlt)
    rw [List.prefix_append_right_inj] at h
    exact .inr ⟨y, rfl, h⟩

/-- From the beginning of a stream of frames a parser that may refuse a frame, but never
mistakes it, takes the values of these frames in their order. -/
theorem parse_frames (hi : Incremental head) {bs : List β} {x : List α}
    (hb : ∀ b ∈ bs, ∀ y, head (frame b ++ y) = .item (val b) (frame b).length ∨
      ∃ e, head (frame b ++ y) = .bad e)
    (hx : x <+: bs.flatMap frame) : (parse head x).1 <+: bs.map val := by
  induction bs generalizing x with
  | nil =>
    rw [List.flatMap_nil, List.prefix_nil] at hx
    subst hx
    cases hh : head [] with
    | more => rw [parse_more hh]; exact List.nil_prefix
    | bad e => rw [parse_bad hh]; exact List.nil_prefix
    | item r n =>
      have hpos := hi.item_pos hh
      have hle := hi.item_le hh
      rw [List.length_nil] at hle
      omega
  | cons b bs ih =>
    obtain ⟨hpre, hlt⟩ | ⟨y, rfl, hy⟩ := prefix_flatMap_cons hx
    · have hself := hb b (List.mem_cons_self ..) []
      rw [List.append_nil] at hself
      rw [parse_strict hi hself hpre hlt]
      exact List.nil_prefix
    · obtain hh | ⟨e, hh⟩ := hb b (List.mem_cons_self ..) y
      · rw [parse_item hi hh, List.drop_left, List.map_cons]
        exact List.prefix_cons_inj _ |>.mpr
          (ih (fun b' hb' => hb b' (List.mem_cons_of_mem _ hb')) hy)
      · rw [parse_bad hh]
        exact List.nil_prefix

theorem parse_clean (hi : Incremental head) (hnil : head [] = .more) {bs : List β} {x : List α}
    (hb : ∀ b ∈ bs, ∀ y, head (frame b ++ y) = .item (val b) (frame b).length)
    (hx : x <+: bs.flatMap frame) : (parse head x).2 = none := by
  induction bs generalizing x with
  | nil =>
    rw [List.flatMap_nil, List.prefix_nil] at hx
    rw [hx, parse_more hnil]
  | cons b bs ih =>
    obtain ⟨⟨y, hy⟩, hlt⟩ | ⟨y, rfl, hy⟩ := prefix_flatMap_cons hx
    · have hself := hb b (List.mem_cons_self ..) []
      rw [List.append_nil, ← hy] at hself
      cases hh : head x with
      | more => rw [parse_more hh]
      | bad e =>
        rw [hi.bad_append y hh] at hself
        cases hself
      | item r n =>
        have hle := hi.item_le hh
        rw [hi.item_append y hh, hy] at hself
        cases hself
        omega
    · rw [parse_item hi (hb b (List.mem_cons_self ..) y), List.drop_left]
      exact ih (fun b' hb' => hb b' (List.mem_cons_of_mem _ hb')) hy

theorem parse_flatMap (hi : Incremental head) (hnil : head [] = .more) {bs : List β}
    (hb : ∀ b ∈ bs, ∀ y, head (frame b ++ y) = .item (val b) (frame b).length) :
    parse head (bs.flatMap frame) = (bs.map val, none) := by
  induction bs with
  | nil => rw [List.flatMap_nil, parse_more hnil, List.map_nil]
  | cons b bs ih =>
    rw [List.flatMap_cons, parse_item hi (hb b (List.mem_cons_self ..) _), List.drop_left,
      ih (fun b' hb' => hb b' (List.mem_cons_of_mem _ hb'))]
    rfl

/-- Frames that can be told apart by their beginning can be read off a stream in one way
only. -/
theorem prefix_of_flatMap_prefix {bs cs : List β} (hpos : ∀ b, frame b ≠ [])
    (hinj : ∀ b ∈ bs, ∀ c ∈ cs, ∀ y z, frame b ++ y = frame c ++ z → b = c)
    (h : bs.flatMap frame <+: cs.flatMap frame) : bs <+: cs := by
  induction bs generalizing cs with
  | nil => exact List.nil_prefix
  | cons b bs ih =>
    obtain ⟨z, hz⟩ := h
    rw [List.flatMap_cons, List.append_assoc] at hz
    cases cs with
    | nil => exact absurd (List.append_eq_nil_iff.mp hz).1 (hpos b)
    | cons c cs =>
      rw [List.flatMap_cons] at hz
      obtain rfl := hinj b (List.mem_cons_self ..) c (List.mem_cons_self ..) _ _ hz
      rw [List.prefix_cons_inj]
      refine ih ?_ ⟨z, List.append_cancel_left hz⟩
      intro b' hb' c' hc'
      exact hinj b' (List.mem_cons_of_mem _ hb') c' (List.mem_cons_of_mem _ hc')

end Frames

/-- The items `rs` have been taken off a stream and `u` is what remains of it:
whatever arrives later, parsing the whole stream is parsing the rest. -/
def Tracks (head : List α → Verdict ρ ε) (stream : List α) (rs : List ρ) (u : List α) : Prop :=
  ∀ y, parse head (stream ++ y) = after rs (parse head (u ++ y))

theorem tracks_nil : Tracks head [] [] [] := fun _ => rfl

theorem Tracks.feed {stream u : List α} {rs : List ρ} (h : Tracks head stream rs u)
    (b : List α) : Tracks head (stream ++ b) rs (u ++ b) := by
  intro y
  rw [List.append_assoc, List.append_assoc]
  exact h (b ++ y)

theorem Tracks.take (hi : Incremental head) {stream u : List α} {rs : List ρ} {r : ρ} {n : Nat}
    (h : Tracks head stream rs u) (hu : head u = .item r n) :
    Tracks head stream (rs ++ [r]) (u.drop n) := by
  intro y
  rw [h y, parse_item hi (hi.item_append y hu),
    List.drop_append_of_le_length (hi.item_le hu)]
  simp only [after, List.append_assoc]

theorem Tracks.parse_eq {stream u : List α} {rs : List ρ} (h : Tracks head stream rs u) :
    parse head stream = after rs (parse head u) := by
  simpa only [List.append_nil] using h []

end LocalCache.Library.Framing
