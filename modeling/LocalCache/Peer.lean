import LocalCache.ServerJobs
import LocalCache.ServerStreams

namespace LocalCache

open Protocol Serializer RequestCodec Library Transition

instance (r : Request) (limits : Limits) : Decidable (Grammatical r limits) :=
  decidable_of_iff (isValidOpcode r.opcode.raw = true ∧
      r.key.length ≤ min limits.maxKeyBytes.toNat (64 * 1024) ∧
      r.value.length ≤ min limits.maxValueBytes.toNat (64 * 1024 * 1024) ∧
      (r.opcode = .kGet ∨ r.opcode = .kPut ∨ r.opcode = .kDelete → r.key ≠ []) ∧
      (r.opcode = .kPing ∨ r.opcode = .kStats ∨ r.opcode = .kClear → r.key = []) ∧
      (r.opcode ≠ .kPut → r.value = []))
    ⟨fun ⟨h₁, h₂, h₃, h₄, h₅, h₆⟩ => ⟨h₁, h₂, h₃, h₄, h₅, h₆⟩,
      fun h => ⟨h.opcode, h.key_le, h.value_le, h.key_present, h.key_absent, h.value_absent⟩⟩

def listedOn {γ : Type} (n : Nat) (l : List (Nat × γ)) : List γ :=
  (l.filter (fun p => p.1 = n)).map Prod.snd

theorem mem_listedOn {γ : Type} {n : Nat} {l : List (Nat × γ)} {x : γ} :
    x ∈ listedOn n l ↔ (n, x) ∈ l := by
  simp [listedOn]

theorem nodup_listedOn {γ δ : Type} {l : List (Nat × γ)} {f : γ → δ}
    (h : (l.map fun p => f p.2).Nodup) (n : Nat) : ((listedOn n l).map f).Nodup := by
  rw [listedOn, List.map_map]
  exact (List.filter_sublist.map _).nodup h

theorem responses_prefix {rs rs' : List Response}
    (sized : ∀ r ∈ rs, r.value.length ≤ kMaxValueBytes.toNat)
    (sized' : ∀ r ∈ rs', r.value.length ≤ kMaxValueBytes.toNat)
    (h : rs.flatMap serializeResponse <+: rs'.flatMap serializeResponse) : rs <+: rs' := by
  refine Framing.prefix_of_flatMap_prefix ?_ ?_ h
  · intro r hr
    have hlen := ResponseCodec.length_serializeResponse r
    rw [hr, List.length_nil, kHeaderSize] at hlen
    omega
  · intro r hr r' hr' y y' he
    exact ResponseCodec.serializeResponse_inj (sized r hr) (sized' r' hr') he

/-- What a peer can rely on: it reads the beginning of the frames of responses to its own
requests, at most one to each if it gives them different numbers. -/
structure Served (asked : List Request) (read : Bytes) (rs : List Response) : Prop where
  stream : read <+: rs.flatMap serializeResponse
  sized : ∀ r ∈ rs, r.value.length ≤ kMaxValueBytes.toNat
  answers : ∀ r ∈ rs, ∃ q ∈ asked, AnswersTo r q
  distinct : (asked.map Request.requestId).Nodup → (rs.map Response.requestId).Nodup

/-- A program that talks to the server. Its connections are numbered. What it has sent on one is
the beginning of the frames of the requests that it asked there, and it has been told the responses
that what it has read there begins with. `ok` are the actions that are assumed of it. -/
structure Peer (limits : Limits) (σ α : Type) where
  start : σ
  step : σ → α → Option σ
  ok : σ → α → Prop
  Inv : σ → Prop
  connections : σ → Nat
  sent : σ → Nat → Bytes
  read : σ → Nat → Bytes
  /-- The connection that an action reads from, and what it brings. -/
  brings : σ → α → Option (Nat × Bytes)
  asked : σ → List (Nat × Request)
  told : σ → List (Nat × Response)
  inv_start : Inv start
  silent_start : (∀ n, read start n = []) ∧ asked start = [] ∧ told start = []
  inv_step : ∀ {s s' a}, Inv s → (∀ n, ∃ rs, Served (listedOn n (asked s)) (read s n) rs) →
    ok s a → step s a = some s' → Inv s'
  sent_step : ∀ {s s' a}, Inv s → step s a = some s' → ∀ n, sent s n <+: sent s' n
  read_step : ∀ {s s' a}, Inv s → step s a = some s' → ∀ n, read s' n = read s n ∨
    ∃ bytes, brings s a = some (n, bytes) ∧ read s' n = read s n ++ bytes
  turn : ∀ {s s' a}, Inv s → step s a = some s' →
    (asked s' = asked s ∧ told s' = told s) ∨
      (∃ p, asked s' = asked s ++ [p] ∧ told s' = told s) ∨
      ∃ p, told s' = told s ++ [p] ∧ asked s' = asked s
  framed : ∀ {s}, Inv s → ∀ n,
    sent s n <+: (listedOn n (asked s)).flatMap serializeRequest
  grammatical : ∀ {s}, Inv s → ∀ p ∈ asked s, Grammatical p.2 limits
  used : ∀ {s}, Inv s → ∀ n, (listedOn n (told s)).flatMap serializeResponse <+: read s n
  sized : ∀ {s}, Inv s → ∀ p ∈ told s, p.2.value.length ≤ kMaxValueBytes.toNat

def Peer.Numbered {limits : Limits} {σ α : Type} (P : Peer limits σ α) : Prop :=
  ∀ s, P.Inv s → ((P.asked s).map fun p => p.2.requestId).Nodup

abbrev ServerConfig.frameLimits (config : ServerConfig) : Limits :=
  config.connectionLimits.protocolLimits

/-- A server and its peers. `link` tells from which connection of which peer a connection of the
server was accepted. -/
structure Net (σ : Type) where
  fed : Fed
  peer : Nat → σ
  link : Nat → Option (Nat × Nat) := fun _ => none

/-- A step of the server, the server taking connection `n` of peer `k` off its backlog, or a step
of a peer. -/
inductive NetAction (α : Type)
  | server (a : Action)
  | accept (fd k n : Nat)
  | peer (k : Nat) (a : α)
  deriving DecidableEq, Repr

namespace Net

variable {σ α : Type} {config : ServerConfig} {fds : Descriptors}
  {P : Nat → Peer config.frameLimits σ α} {z z' : Net σ}

def start (config : ServerConfig) (fds : Descriptors)
    (P : Nat → Peer config.frameLimits σ α) : Net σ where
  fed := .start config fds
  peer := fun k => (P k).start

def opens : Action → Bool
  | .loop (.client _ true) => true
  | _ => false

/-- What the server reads is the next part of what the peer at the other end has sent. -/
def arrives (P : Nat → Peer config.frameLimits σ α) (z : Net σ) (a : Action) : Bool :=
  match z.fed.server.loop, a with
  | .read c, .loop (.recv (.data bytes)) =>
    (z.link c).any fun p => z.fed.received c ++ bytes <+: (P p.1).sent (z.peer p.1) p.2
  | _, _ => true

/-- What a peer reads is the next part of what the server's socket took for it. -/
def delivers (P : Nat → Peer config.frameLimits σ α) (z : Net σ) (k : Nat) (a : α) : Bool :=
  ((P k).brings (z.peer k) a).all fun p =>
    (List.range z.fed.server.nextConnectionId).any fun c =>
      z.link c = some (k, p.1) ∧
        (P k).read (z.peer k) p.1 ++ p.2 <+: z.fed.server.ledger.accepted c

def awaits (P : Nat → Peer config.frameLimits σ α) (z : Net σ) (k n : Nat) : Bool :=
  n < (P k).connections (z.peer k) &&
    (List.range z.fed.server.nextConnectionId).all fun c => z.link c ≠ some (k, n)

def step (fds : Descriptors) (P : Nat → Peer config.frameLimits σ α) (z : Net σ) :
    NetAction α → Option (Net σ)
  | .server a =>
    if z.arrives P a && !opens a then
      (z.fed.step config fds a).map fun fed => { z with fed := fed }
    else none
  | .accept fd k n =>
    if z.awaits P k n then
      (z.fed.step config fds (.loop (.client fd true))).map fun fed =>
        { z with
          fed := fed
          link :=
            -- Above the limit of connections the socket is closed at once.
            if z.fed.server.nextConnectionId < fed.server.nextConnectionId then
              Function.update z.link z.fed.server.nextConnectionId (some (k, n))
            else z.link }
    else none
  | .peer k a =>
    if z.delivers P k a then
      ((P k).step (z.peer k) a).map fun s => { z with peer := Function.update z.peer k s }
    else none

def Assumed (P : Nat → Peer config.frameLimits σ α) (z : Net σ) : NetAction α → Prop
  | .peer k a => (P k).ok (z.peer k) a
  | _ => True

/-- Every way in which the system can move. -/
inductive Moves (fds : Descriptors) (P : Nat → Peer config.frameLimits σ α) (z : Net σ) :
    NetAction α → Net σ → Prop
  | served (a : Action) (fed : Fed) (arrives : z.arrives P a = true)
      (hs : z.fed.step config fds a = some fed) :
      Moves fds P z (.server a) { z with fed := fed }
  | accepted (fd k n : Nat) (fed : Fed) (awaits : z.awaits P k n = true)
      (hs : z.fed.step config fds (.loop (.client fd true)) = some fed)
      (more : z.fed.server.nextConnectionId < fed.server.nextConnectionId) :
      Moves fds P z (.accept fd k n) { z with
        fed := fed
        link := Function.update z.link z.fed.server.nextConnectionId (some (k, n)) }
  | rejected (fd k n : Nat) (fed : Fed)
      (hs : z.fed.step config fds (.loop (.client fd true)) = some fed) :
      Moves fds P z (.accept fd k n) { z with fed := fed }
  | moved (k : Nat) (a : α) (s : σ) (delivers : z.delivers P k a = true)
      (hs : (P k).step (z.peer k) a = some s) :
      Moves fds P z (.peer k a) { z with peer := Function.update z.peer k s }

theorem moves_of_step {a : NetAction α} (h : z.step fds P a = some z') : Moves fds P z a z' := by
  cases a with
  | server a =>
    rw [step] at h
    split at h
    · rename_i hok
      obtain ⟨fed, hs, rfl⟩ := Option.map_eq_some_iff.mp h
      rw [Bool.and_eq_true] at hok
      exact .served a fed hok.1 hs
    · cases h
  | accept fd k n =>
    rw [step] at h
    split at h
    · obtain ⟨fed, hs, rfl⟩ := Option.map_eq_some_iff.mp h
      split
      · exact .accepted fd k n fed ‹_› hs ‹_›
      · exact .rejected fd k n fed hs
    · cases h
  | peer k a =>
    rw [step] at h
    split at h
    · obtain ⟨s, hs, rfl⟩ := Option.map_eq_some_iff.mp h
      exact .moved k a s ‹_› hs
    · cases h

def answersOne (fd : Nat) (q : Request) (n : Nat) : List Action :=
  Server.readOne fd (serializeRequest q) ++ List.replicate 10 (.worker 0 0) ++
    [.loop (.batch [(6, { epollin := true })])] ++ List.replicate 5 (.loop .internal) ++
    [.loop (.send (.sent n))] ++ List.replicate 5 (.loop .internal) ++
    [.loop (.control true), .loop .internal]

def servesOne (fd k : Nat) (q : Request) (n : Nat) : List (NetAction α) :=
  [.server (.loop (.batch [(3, { epollin := true })])), .server (.loop .internal),
    .accept fd k 0, .server (.loop .acceptStop), .server (.loop .internal)] ++
    (answersOne fd q n).map .server

end Net

end LocalCache
