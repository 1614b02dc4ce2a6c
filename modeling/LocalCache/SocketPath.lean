import LocalCache.Config
import LocalCache.Library.UnixSocket

namespace LocalCache

open Library.UnixSocket

/-- Who made a socket: a server, or a program that is none. -/
inductive Owner (ι : Type)
  | server (i : ι)
  | other (id : Nat)
  deriving DecidableEq, Repr

inductive Removing
  | stat
  | probe
  | connect
  | unlink
  deriving DecidableEq, Repr

inductive Starting
  | validate
  | removing (pc : Removing)
  | socket
  | bind
  | chmod
  | listen
  | epollCreate
  | eventfd
  | epollCtl
  deriving DecidableEq, Repr

/-- `live` is a server whose `start` returned true and that listens, `failed` one whose `start`
returned false. In both the next call is the `close` of `stop_listening`, at `unlink` the next
one is its `unlink`. -/
inductive Position
  | starting (pc : Starting)
  | live
  | failed
  | unlink
  | stopped
  deriving DecidableEq, Repr

structure Instance where
  position : Position
  /-- `bound_socket_path_`, which is empty before `bind` -/
  boundSocketPath : Option String
  error : String
  deriving DecidableEq, Repr

abbrev SocketKernel (ι : Type) := Kernel String (Owner ι)

namespace Instance

variable {ι : Type} [DecidableEq ι]

def errnoMessage (strerror : Errno → String) (what : String) (errno : Errno) : String :=
  what ++ ": " ++ strerror errno

def required {α : Type} (strerror : Errno → String) (what : String) (fault : Option Nat)
    (result : Except Errno α) : Except String α :=
  match answer fault result with
  | .ok a => .ok a
  | .error errno => .error (errnoMessage strerror what errno)

/-- One call of `remove_stale_socket`, with the next one unless it returns true here. -/
def removeStaleSocket (strerror : Errno → String) (k : SocketKernel ι) (path : String)
    (fault : Option Nat) : Removing → Except String (SocketKernel ι × Option Removing)
  | .stat =>
    match answer fault (k.stat path) with
    | .error .enoent => .ok (k, none)
    | .error errno => .error (errnoMessage strerror ("stat(" ++ path ++ ")") errno)
    | .ok .plain => .error (path ++ " exists and is not a socket; refusing to unlink it")
    | .ok (.socket _) => .ok (k, some .probe)
  | .probe => do
    required strerror "socket() while probing stale socket" fault (.ok ())
    .ok (k, some .connect)
  | .connect =>
    match answer fault (k.connect path) with
    | .ok () => .error ("another cache server is already listening on " ++ path)
    | .error .econnrefused | .error .enoent => .ok (k, some .unlink)
    | .error errno => .error (errnoMessage strerror ("connect() while probing " ++ path) errno)
  | .unlink =>
    match answer fault (k.unlink path) with
    | .ok k => .ok (k, none)
    | .error .enoent => .ok (k, none)
    | .error errno => .error (errnoMessage strerror ("unlink(" ++ path ++ ")") errno)

def goto (x : Instance) (pc : Starting) : Instance := { x with position := .starting pc }

def start (config : ServerConfig) (strerror : Errno → String) (k : SocketKernel ι) (i : ι)
    (fault : Option Nat) (x : Instance) : Starting → Except String (SocketKernel ι × Instance)
  | .validate =>
    match config.validate with
    | some problem => .error problem
    | none => .ok (k, x.goto (.removing .stat))
  | .removing pc => do
    let (k, next) ← removeStaleSocket strerror k config.socketPath fault pc
    .ok (k, x.goto (next.elim .socket .removing))
  | .socket => do
    required strerror "socket" fault (.ok ())
    .ok (k.socket (.server i), x.goto .bind)
  | .bind => do
    let k ← required strerror ("bind(" ++ config.socketPath ++ ")") fault
      (k.bind config.socketPath (.server i))
    .ok (k, { x.goto .chmod with boundSocketPath := some config.socketPath })
  | .chmod => do
    required strerror ("chmod(" ++ config.socketPath ++ ")") fault (k.chmod config.socketPath)
    .ok (k, x.goto .listen)
  | .listen => do
    let k ← required strerror "listen" fault (k.listen (.server i))
    .ok (k, x.goto .epollCreate)
  | .epollCreate => do
    required strerror "epoll_create1" fault (.ok ())
    .ok (k, x.goto .eventfd)
  | .eventfd => do
    required strerror "eventfd" fault (.ok ())
    .ok (k, x.goto .epollCtl)
  | .epollCtl => do
    required strerror "epoll_ctl(ADD)" fault (.ok ())
    .ok (k, { x with position := .live })

/-- One call of `stop_listening`. Whatever its `unlink` answers, the path is forgotten. -/
def stopListening (k : SocketKernel ι) (i : ι) (fault : Option Nat) (x : Instance) :
    SocketKernel ι × Instance :=
  match x.position, x.boundSocketPath with
  | .unlink, none => (k, { x with position := .stopped, boundSocketPath := none })
  | .unlink, some path =>
    match answer fault (k.unlink path) with
    | .ok k => (k, { x with position := .stopped, boundSocketPath := none })
    | .error _ => (k, { x with position := .stopped, boundSocketPath := none })
  | _, _ => (k.close (.server i), { x with position := .unlink })

/-- The next call of server `i`. A refused one leaves the files and sockets as they are. -/
def call (config : ServerConfig) (strerror : Errno → String) (k : SocketKernel ι) (i : ι)
    (fault : Option Nat) (x : Instance) : Option (SocketKernel ι × Instance) :=
  match x.position with
  | .starting pc =>
    match start config strerror k i fault x pc with
    | .ok next => some next
    | .error error => some (k, { x with position := .failed, error := error })
  | .live | .failed | .unlink => some (stopListening k i fault x)
  | .stopped => none

inductive Called (path : String) (i : ι) (k : SocketKernel ι) (x : Instance) :
    SocketKernel ι → Instance → Prop
  | refused {pc error} (pos : x.position = .starting pc) :
    Called path i k x k { x with position := .failed, error := error }
  | validated (pos : x.position = .starting .validate) :
    Called path i k x k (x.goto (.removing .stat))
  | absent (pos : x.position = .starting (.removing .stat)) (file : k.file path = none) :
    Called path i k x k (x.goto .socket)
  | found {o} (pos : x.position = .starting (.removing .stat))
    (file : k.file path = some (.socket o)) :
    Called path i k x k (x.goto (.removing .probe))
  | probing (pos : x.position = .starting (.removing .probe)) :
    Called path i k x k (x.goto (.removing .connect))
  | stale (pos : x.position = .starting (.removing .connect))
    (silent : ∀ o, k.file path = some (.socket o) → k.endpoint o ≠ .listening) :
    Called path i k x k (x.goto (.removing .unlink))
  | removed (pos : x.position = .starting (.removing .unlink)) :
    Called path i k x (k.remove path) (x.goto .socket)
  | socket (pos : x.position = .starting .socket) :
    Called path i k x (k.set (.server i) .unbound) (x.goto .bind)
  | bound (pos : x.position = .starting .bind) (file : k.file path = none) :
    Called path i k x (k.place path (.server i))
      { x.goto .chmod with boundSocketPath := some path }
  | restricted (pos : x.position = .starting .chmod) : Called path i k x k (x.goto .listen)
  | listening (pos : x.position = .starting .listen) :
    Called path i k x (k.set (.server i) .listening) (x.goto .epollCreate)
  | polled (pos : x.position = .starting .epollCreate) : Called path i k x k (x.goto .eventfd)
  | notified (pos : x.position = .starting .eventfd) : Called path i k x k (x.goto .epollCtl)
  | started (pos : x.position = .starting .epollCtl) :
    Called path i k x k { x with position := .live }
  | closed (pos : x.position = .live ∨ x.position = .failed) :
    Called path i k x (k.set (.server i) .closed) { x with position := .unlink }
  | unlinked {p} (pos : x.position = .unlink) (hp : x.boundSocketPath = some p) :
    Called path i k x (k.remove p) { x with position := .stopped, boundSocketPath := none }
  | left (pos : x.position = .unlink) :
    Called path i k x k { x with position := .stopped, boundSocketPath := none }

section Soundness

variable {config : ServerConfig} {strerror : Errno → String} {k k' : SocketKernel ι} {i : ι}
  {fault : Option Nat} {x x' : Instance} {path : String}

theorem required_bind {α β : Type} {what : String} {result : Except Errno α}
    {f : α → Except String β} {b : β}
    (h : (required strerror what fault result >>= f) = .ok b) :
    ∃ a, result = .ok a ∧ f a = .ok b := by
  rw [required] at h
  cases ha : answer fault result with
  | error errno =>
    rw [ha] at h
    cases h
  | ok a =>
    rw [ha] at h
    exact ⟨a, answer_ok ha, h⟩

theorem removeStaleSocket_called {pc : Removing} {next : Option Removing}
    (pos : x.position = .starting (.removing pc))
    (h : removeStaleSocket strerror k path fault pc = .ok (k', next)) :
    Called path i k x k' (x.goto (next.elim .socket .removing)) := by
  cases pc with
  | stat =>
    simp only [removeStaleSocket] at h
    split at h <;> cases h
    · rename_i hstat
      exact .absent pos (Kernel.stat_enoent (answer_error hstat (fun code h => by cases h)))
    · rename_i o hstat
      exact .found pos (Kernel.stat_ok (answer_ok hstat))
  | probe =>
    obtain ⟨-, -, h⟩ := required_bind h
    cases h
    exact .probing pos
  | connect =>
    simp only [removeStaleSocket] at h
    -- whoever listens at the path would have answered
    have hsilent : ∀ {e}, answer fault (k.connect path) = .error e → (∀ code, e ≠ .other code) →
        ∀ o, k.file path = some (.socket o) → k.endpoint o ≠ .listening := by
      intro e hconnect he o hfile hlisten
      have hok := answer_error hconnect he
      rw [Kernel.connect_listening hfile hlisten] at hok
      cases hok
    split at h <;> cases h
    · rename_i hconnect
      exact .stale pos (hsilent hconnect (fun code h => by cases h))
    · rename_i hconnect
      exact .stale pos (hsilent hconnect (fun code h => by cases h))
  | unlink =>
    simp only [removeStaleSocket] at h
    split at h <;> cases h
    · rename_i hunlink
      rw [Kernel.unlink_ok (answer_ok hunlink)]
      exact .removed pos
    · rename_i hunlink
      have habsent := Kernel.unlink_enoent (answer_error hunlink (fun code h => by cases h))
      have hsame : Called path i k x (k.remove path) (x.goto .socket) := .removed pos
      rw [Kernel.remove_of_absent habsent] at hsame
      exact hsame

theorem start_called {pc : Starting} (pos : x.position = .starting pc)
    (h : x.start config strerror k i fault pc = .ok (k', x')) :
    Called config.socketPath i k x k' x' := by
  cases pc with
  | validate =>
    simp only [start] at h
    split at h <;> cases h
    exact .validated pos
  | removing pc =>
    simp only [start] at h
    cases hr : removeStaleSocket strerror k config.socketPath fault pc with
    | error error =>
      rw [hr] at h
      cases h
    | ok next =>
      rw [hr] at h
      cases h
      exact removeStaleSocket_called pos hr
  | socket =>
    obtain ⟨-, -, h⟩ := required_bind h
    cases h
    exact .socket pos
  | bind =>
    obtain ⟨k₁, hbind, h⟩ := required_bind h
    obtain ⟨hfile, rfl⟩ := Kernel.bind_ok hbind
    cases h
    exact .bound pos hfile
  | chmod =>
    obtain ⟨-, -, h⟩ := required_bind h
    cases h
    exact .restricted pos
  | listen =>
    obtain ⟨k₁, hlisten, h⟩ := required_bind h
    obtain rfl := Kernel.listen_ok hlisten
    cases h
    exact .listening pos
  | epollCreate =>
    obtain ⟨-, -, h⟩ := required_bind h
    cases h
    exact .polled pos
  | eventfd =>
    obtain ⟨-, -, h⟩ := required_bind h
    cases h
    exact .notified pos
  | epollCtl =>
    obtain ⟨-, -, h⟩ := required_bind h
    cases h
    exact .started pos

theorem stopListening_called {next : SocketKernel ι × Instance}
    (pos : x.position = .live ∨ x.position = .failed ∨ x.position = .unlink)
    (h : x.stopListening k i fault = next) : Called path i k x next.1 next.2 := by
  subst h
  rw [stopListening]
  split
  · rename_i hpos hp
    exact .left hpos
  · rename_i p hpos hp
    split
    · rename_i hunlink
      rw [Kernel.unlink_ok (answer_ok hunlink)]
      exact .unlinked hpos hp
    · exact .left hpos
  · rename_i hnot hnot'
    refine .closed ?_
    cases hp : x.boundSocketPath <;> simp_all

theorem call_called (h : x.call config strerror k i fault = some (k', x')) :
    Called config.socketPath i k x k' x' := by
  rw [call] at h
  split at h
  · rename_i pc pos
    split at h <;> cases h
    · rename_i hstart
      exact start_called pos hstart
    · exact .refused pos
  · rename_i pos
    exact stopListening_called (.inl pos) (Option.some.inj h)
  · rename_i pos
    exact stopListening_called (.inr (.inl pos)) (Option.some.inj h)
  · rename_i pos
    exact stopListening_called (.inr (.inr pos)) (Option.some.inj h)
  · cases h

end Soundness

end Instance

structure Host (ι : Type) where
  kernel : SocketKernel ι
  server : ι → Instance

namespace Host

/-- A server makes its next call, which the kernel may refuse for reasons of its own, or its
process ends at once. -/
inductive Action (ι : Type)
  | call (i : ι) (fault : Option Nat)
  | crash (i : ι)
  deriving DecidableEq, Repr

variable {ι : Type} [DecidableEq ι]

def start (files : String → Option (File Nat)) (others : Nat → Endpoint) : Host ι where
  kernel :=
    { file := fun p => (files p).map fun
        | .plain => .plain
        | .socket id => .socket (.other id)
      endpoint := fun
        | .server _ => .closed
        | .other id => others id }
  server := fun _ => ⟨.starting .validate, none, ""⟩

def turn (h : Host ι) (i : ι) (k : SocketKernel ι) (x : Instance) : Host ι :=
  ⟨k, Function.update h.server i x⟩

def step (config : ι → ServerConfig) (strerror : Errno → String) (h : Host ι) :
    Action ι → Option (Host ι)
  | .call i fault =>
    ((h.server i).call (config i) strerror h.kernel i fault).map fun next =>
      h.turn i next.1 next.2
  | .crash i =>
    some (h.turn i (h.kernel.close (.server i))
      { h.server i with position := .stopped, boundSocketPath := none })

variable {config : ι → ServerConfig} {strerror : Errno → String} {h h' : Host ι} {a : Action ι}
  {i j : ι} {k : SocketKernel ι} {x : Instance}

@[simp] theorem turn_kernel : (h.turn i k x).kernel = k := rfl

@[simp] theorem turn_server_self : (h.turn i k x).server i = x := Function.update_self ..

theorem turn_server_of_ne (hj : j ≠ i) : (h.turn i k x).server j = h.server j :=
  Function.update_of_ne hj ..

inductive Moves (config : ι → ServerConfig) (h : Host ι) : Action ι → Host ι → Prop
  | call (i : ι) (fault : Option Nat) {k : SocketKernel ι} {x : Instance}
    (called : (h.server i).Called (config i).socketPath i h.kernel k x) :
    Moves config h (.call i fault) (h.turn i k x)
  | crash (i : ι) : Moves config h (.crash i) (h.turn i (h.kernel.set (.server i) .closed)
      { h.server i with position := .stopped, boundSocketPath := none })

theorem step_moves (hs : step config strerror h a = some h') : Moves config h a h' := by
  cases a with
  | call i fault =>
    obtain ⟨⟨k, x⟩, hcall, rfl⟩ := Option.map_eq_some_iff.mp hs
    exact .call i fault (Instance.call_called hcall)
  | crash i =>
    obtain rfl := Option.some.inj hs
    exact .crash i

end Host

end LocalCache
