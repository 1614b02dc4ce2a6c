import LocalCache.Library.Transition
import LocalCache.SocketPath

namespace LocalCache

open Library.UnixSocket Library.Transition

namespace Position

def holds : Position → Bool
  | .starting .chmod | .starting .listen | .starting .epollCreate | .starting .eventfd
  | .starting .epollCtl | .live => true
  | _ => false

def listens : Position → Bool
  | .starting .epollCreate | .starting .eventfd | .starting .epollCtl | .live => true
  | _ => false

def binds : Position → Bool
  | .starting .chmod | .starting .listen => true
  | _ => false

theorem binds_or_listens {pos : Position} (h : pos.holds = true) :
    pos.binds = true ∨ pos.listens = true := by
  unfold holds at h
  split at h <;> first | exact .inl rfl | exact .inr rfl | cases h

def detached : Position → Bool
  | .starting .validate | .starting (.removing _) | .starting .socket | .starting .bind
  | .stopped => true
  | _ => false

end Position

namespace Instance

/-- The server is going to unlink its path: it found the file stale, or it does not listen any
more and has still to remove the file it bound. -/
def unlinks (x : Instance) : Bool :=
  match x.position with
  | .starting (.removing .unlink) => true
  | .failed | .unlink => x.boundSocketPath.isSome
  | _ => false

theorem holds_of_unlinks {x : Instance} (h : x.unlinks = true) : x.position.holds = false := by
  unfold unlinks at h
  split at h <;> first | (rename_i pos; rw [pos]; rfl) | cases h

structure Kept (path : String) (x : Instance) : Prop where
  detached : x.position.detached = true → x.boundSocketPath = none
  name : ∀ p, x.boundSocketPath = some p → p = path

variable {ι : Type} [DecidableEq ι] {path p : String} {i : ι} {k k' : SocketKernel ι}
  {x x' : Instance}

theorem Kept.stop (path : String) (x : Instance) :
    Kept path { x with position := .stopped, boundSocketPath := none } :=
  ⟨fun _ => rfl, (fun p h => by cases h)⟩

theorem Kept.move (h : x.Kept path) {pos : Position}
    (detached : pos.detached = true → x.position.detached = true) :
    Kept path { x with position := pos } :=
  ⟨fun hp => h.detached (detached hp), h.name⟩

theorem Called.kept (hc : x.Called path i k k' x') (h : x.Kept path) : x'.Kept path := by
  cases hc with
  | bound => exact ⟨(fun h => by cases h), fun p hp => (Option.some.inj hp).symm⟩
  | unlinked | left => exact .stop path x
  | refused | closed => exact ⟨(fun h => by cases h), h.name⟩
  | _ pos =>
    refine h.move ?_
    rw [pos]
    simp [Position.detached]

theorem Called.endpoint_of_ne (hc : x.Called path i k k' x') {o : Owner ι}
    (ho : o ≠ .server i) : k'.endpoint o = k.endpoint o := by
  cases hc with
  | bound | socket | listening | closed => exact Kernel.set_endpoint_of_ne ho
  | _ => rfl

theorem Called.listens (hc : x.Called path i k k' x')
    (h : x.position.listens = true → k.endpoint (.server i) = .listening)
    (hp : x'.position.listens = true) : k'.endpoint (.server i) = .listening := by
  cases hc with
  | listening => exact Kernel.set_endpoint_self
  | polled pos | notified pos | started pos =>
    refine h ?_
    rw [pos]
    rfl
  | _ => cases hp

theorem Called.holds (hc : x.Called path i k k' x') (hp : x'.position.holds = true) :
    (x.position.holds = true ∧ k'.file = k.file) ∨
      x.position = .starting .bind ∧ k'.file path = some (.socket (.server i)) := by
  cases hc with
  | bound pos =>
    refine .inr ⟨pos, ?_⟩
    rw [Kernel.place_file, if_pos rfl]
  | restricted pos | listening pos | polled pos | notified pos | started pos =>
    refine .inl ⟨?_, rfl⟩
    rw [pos]
    rfl
  | _ => cases hp

theorem Called.unlinks (hc : x.Called path i k k' x') (h : x.Kept path)
    (hu : x'.unlinks = true) :
    x.unlinks = true ∨ x.position.holds = true ∨
      x.position = .starting (.removing .connect) ∧
        ∀ o, k.file path = some (.socket o) → k.endpoint o ≠ .listening := by
  cases hc with
  | stale pos silent => exact .inr (.inr ⟨pos, silent⟩)
  | @refused pc error pos =>
    have hbound : x.boundSocketPath.isSome = true := hu
    refine .inr (.inl ?_)
    by_contra hnot
    have hdetached : x.position.detached = true := by
      rw [pos] at hnot ⊢
      cases pc <;> first | rfl | exact absurd rfl hnot
    rw [h.detached hdetached] at hbound
    cases hbound
  | closed pos =>
    obtain pos | pos := pos
    · exact .inr (.inl (by rw [pos]; rfl))
    · refine .inl ?_
      rw [Instance.unlinks, pos]
      exact hu
  | _ => cases hu

inductive Wrote (path : String) (i : ι) (k : SocketKernel ι) (x : Instance) :
    SocketKernel ι → Instance → Prop
  | same {k' : SocketKernel ι} {x' : Instance} (file : k'.file = k.file)
    (bound : x'.boundSocketPath = x.boundSocketPath ∨ x'.boundSocketPath = none) :
    Wrote path i k x k' x'
  | removed {x' : Instance} (pos : x.position = .starting (.removing .unlink))
    (bound : x'.boundSocketPath = x.boundSocketPath) : Wrote path i k x (k.remove path) x'
  | placed {x' : Instance} (file : k.file path = none) (bound : x'.boundSocketPath = some path) :
    Wrote path i k x (k.place path (.server i)) x'
  | unlinked {p : String} {x' : Instance} (hp : x.boundSocketPath = some p)
    (bound : x'.boundSocketPath = none) : Wrote path i k x (k.remove p) x'

theorem Called.wrote (hc : x.Called path i k k' x') : Wrote path i k x k' x' := by
  cases hc with
  | removed pos => exact .removed pos rfl
  | bound pos file => exact .placed file rfl
  | unlinked pos hp => exact .unlinked hp rfl
  | left => exact .same rfl (.inr rfl)
  | _ => exact .same rfl (.inl rfl)

theorem Wrote.plain (hw : Wrote path i k x k' x') (h : k'.file p = some .plain) :
    k.file p = some .plain := by
  cases hw with
  | same file => rwa [file] at h
  | removed | unlinked =>
    rw [Kernel.remove_file] at h
    split at h
    · cases h
    · exact h
  | placed =>
    rw [Kernel.place_file] at h
    split at h
    · cases h
    · exact h

end Instance

namespace Host

variable {ι : Type} [DecidableEq ι] {config : ι → ServerConfig} {strerror : Errno → String}
  {h h' : Host ι} {a : Action ι} {i j : ι} {p : String} {k : SocketKernel ι} {x : Instance}
  {files : String → Option (File Nat)} {others : Nat → Endpoint}

structure Looked (config : ι → ServerConfig) (h : Host ι) : Prop where
  removing : ∀ i pc, (h.server i).position = .starting (.removing pc) → pc ≠ .stat →
    h.kernel.file (config i).socketPath ≠ some .plain
  bound : ∀ i p, (h.server i).boundSocketPath = some p → h.kernel.file p ≠ some .plain

theorem Looked.turn (hl : Looked config h)
    (wrote : (h.server i).Wrote (config i).socketPath i h.kernel k x)
    (removing : ∀ pc, x.position = .starting (.removing pc) → pc ≠ .stat →
      h.kernel.file (config i).socketPath ≠ some .plain) :
    Looked config (h.turn i k x) := by
  refine ⟨fun j pc hj hpc hp => ?_, fun j p hj hp => ?_⟩
  · obtain rfl | hne := eq_or_ne j i
    · rw [turn_server_self] at hj
      exact removing pc hj hpc (wrote.plain hp)
    · rw [turn_server_of_ne hne] at hj
      exact hl.removing j pc hj hpc (wrote.plain hp)
  · obtain rfl | hne := eq_or_ne j i
    · rw [turn_server_self] at hj
      have hbefore := wrote.plain hp
      cases wrote with
      | same file bound =>
        obtain hb | hb := bound
        · exact hl.bound j p (hb ▸ hj) hbefore
        · simp [hb] at hj
      | removed pos bound => exact hl.bound j p (bound ▸ hj) hbefore
      | placed file bound =>
        rw [bound] at hj
        cases hj
        simp [Kernel.place_file] at hp
      | unlinked hp bound => simp [bound] at hj
    · rw [turn_server_of_ne hne] at hj
      exact hl.bound j p hj (wrote.plain hp)

theorem moves_looked (hl : Looked config h) (hm : Moves config h a h') : Looked config h' := by
  cases hm with
  | crash => exact hl.turn (.same rfl (.inr rfl)) (fun pc hpc => by cases hpc)
  | call i fault called =>
    refine hl.turn called.wrote (fun pc hpc hne => ?_)
    have hbefore := hl.removing i
    cases called with
    | validated =>
      cases hpc
      exact absurd rfl hne
    | found pos file => simp [file]
    | probing pos | stale pos =>
      exact hbefore _ pos (fun h => by cases h)
    | _ => cases hpc

theorem reach_looked
    (hr : Reach (step config strerror) Free (start files others) h) : Looked config h :=
  hr.invariant ⟨(fun i pc hpc => by cases hpc), (fun i p hp => by cases hp)⟩
    (fun _ _ _ hl _ hs => moves_looked hl (step_moves hs))

theorem Looked.plain_stays (hl : Looked config h) (hm : Moves config h a h')
    (hp : h.kernel.file p = some .plain) : h'.kernel.file p = some .plain := by
  cases hm with
  | crash => exact hp
  | call i fault called =>
    rw [turn_kernel]
    cases called.wrote with
    | same file => rw [file, hp]
    | removed pos =>
      rw [Kernel.remove_file, if_neg, hp]
      rintro rfl
      exact hl.removing i .unlink pos (fun h => by cases h) hp
    | placed file =>
      rw [Kernel.place_file, if_neg, hp]
      rintro rfl
      simp [hp] at file
    | unlinked hq =>
      rw [Kernel.remove_file, if_neg, hp]
      rintro rfl
      exact hl.bound i _ hq hp

/-- A server probes its path only while no other one is between its `bind` and its `listen` there,
and binds it only while no other one is going to unlink it: after its probe, or after it stopped
listening or failed to start. -/
def Alone (config : ι → ServerConfig) (h : Host ι) : Action ι → Prop
  | .call i _ => ∀ j, j ≠ i → (config j).socketPath = (config i).socketPath →
    ((h.server i).position = .starting (.removing .connect) →
      (h.server j).position.binds = false) ∧
    ((h.server i).position = .starting .bind → (h.server j).unlinks = false)
  | .crash _ => True

instance {n : Nat} (config : Fin n → ServerConfig) (h : Host (Fin n)) (a : Action (Fin n)) :
    Decidable (Alone config h a) := by
  cases a <;> rw [Alone] <;> infer_instance

/-- Whoever has bound a path and not given it up finds its own file there, and nobody is going to
unlink it. -/
structure Owned (config : ι → ServerConfig) (h : Host ι) : Prop where
  kept : ∀ i, (h.server i).Kept (config i).socketPath
  listens : ∀ i, (h.server i).position.listens = true →
    h.kernel.endpoint (.server i) = .listening
  file : ∀ i, (h.server i).position.holds = true →
    h.kernel.file (config i).socketPath = some (.socket (.server i))
  placed : ∀ i p, h.kernel.file p = some (.socket (.server i)) → p = (config i).socketPath
  apart : ∀ i j, (h.server i).unlinks = true → (config j).socketPath = (config i).socketPath →
    (h.server j).position.holds = false

omit [DecidableEq ι] in
theorem Owned.unique (ho : Owned config h) (hi : (h.server i).position.holds = true)
    (hj : (h.server j).position.holds = true)
    (hpath : (config i).socketPath = (config j).socketPath) : i = j := by
  have hfi := ho.file i hi
  rw [hpath, ho.file j hj] at hfi
  cases hfi
  rfl

theorem Owned.file_stays (ho : Owned config h)
    (called : (h.server i).Called (config i).socketPath i h.kernel k x)
    (hj : (h.server j).position.holds = true) :
    k.file (config j).socketPath = some (.socket (.server j)) := by
  have hfile := ho.file j hj
  have apart : (h.server i).unlinks = true →
      (config j).socketPath ≠ (config i).socketPath := by
    intro hu hpath
    rw [ho.apart i j hu hpath] at hj
    cases hj
  cases called with
  | removed pos =>
    rw [Kernel.remove_file, if_neg (apart (by rw [Instance.unlinks, pos])), hfile]
  | bound pos file =>
    rw [Kernel.place_file, if_neg, hfile]
    intro hp
    simp [← hp, hfile] at file
  | unlinked pos hp =>
    have hname := (ho.kept i).name _ hp
    rw [Kernel.remove_file, if_neg, hfile]
    rw [hname]
    exact apart (by rw [Instance.unlinks, pos, hp]; rfl)
  | _ => exact hfile

theorem Owned.turn (ho : Owned config h) (kept : x.Kept (config i).socketPath)
    (endpoint : ∀ o, o ≠ .server i → k.endpoint o = h.kernel.endpoint o)
    (listens : x.position.listens = true → k.endpoint (.server i) = .listening)
    (file : x.position.holds = true → k.file (config i).socketPath = some (.socket (.server i)))
    (stays : ∀ j, j ≠ i → (h.server j).position.holds = true →
      k.file (config j).socketPath = some (.socket (.server j)))
    (placed : ∀ j p, k.file p = some (.socket (.server j)) → p = (config j).socketPath)
    (leaves : x.unlinks = true → ∀ j, j ≠ i → (config j).socketPath = (config i).socketPath →
      (h.server j).position.holds = false)
    (enters : x.position.holds = true → ∀ j, j ≠ i →
      (config i).socketPath = (config j).socketPath → (h.server j).unlinks = false) :
    Owned config (h.turn i k x) := by
  refine ⟨fun j => ?_, fun j hj => ?_, fun j hj => ?_, placed, fun j l hj hpath => ?_⟩
  · obtain rfl | hne := eq_or_ne j i
    · rw [turn_server_self]
      exact kept
    · rw [turn_server_of_ne hne]
      exact ho.kept j
  · obtain rfl | hne := eq_or_ne j i
    · rw [turn_server_self] at hj
      exact listens hj
    · rw [turn_server_of_ne hne] at hj
      rw [turn_kernel, endpoint _ (fun he => hne (by cases he; rfl))]
      exact ho.listens j hj
  · obtain rfl | hne := eq_or_ne j i
    · rw [turn_server_self] at hj
      exact file hj
    · rw [turn_server_of_ne hne] at hj
      exact stays j hne hj
  · obtain rfl | hne := eq_or_ne l i
    · rw [turn_server_self]
      obtain rfl | hjl := eq_or_ne j l
      · rw [turn_server_self] at hj
        exact Instance.holds_of_unlinks hj
      · rw [turn_server_of_ne hjl] at hj
        by_contra hholds
        rw [enters (by simpa using hholds) j hjl hpath] at hj
        cases hj
    · rw [turn_server_of_ne hne]
      obtain rfl | hji := eq_or_ne j i
      · rw [turn_server_self] at hj
        exact leaves hj l hne hpath
      · rw [turn_server_of_ne hji] at hj
        exact ho.apart j l hj hpath

theorem Owned.leaves (ho : Owned config h)
    (called : (h.server i).Called (config i).socketPath i h.kernel k x)
    (alone : (h.server i).position = .starting (.removing .connect) →
      (h.server j).position.binds = false)
    (hu : x.unlinks = true) (hne : j ≠ i)
    (hpath : (config j).socketPath = (config i).socketPath) :
    (h.server j).position.holds = false := by
  by_contra hholds
  have hj : (h.server j).position.holds = true := by simpa using hholds
  obtain hui | hi | ⟨pos, silent⟩ := called.unlinks (ho.kept i) hu
  · exact hholds (ho.apart i j hui hpath)
  · exact hne (ho.unique hj hi hpath)
  · -- a server that listens would have answered the probe
    obtain hb | hl := Position.binds_or_listens hj
    · rw [alone pos] at hb
      cases hb
    · exact silent _ (hpath ▸ ho.file j hj) (ho.listens j hl)

theorem moves_owned (ho : Owned config h) (ha : Alone config h a) (hm : Moves config h a h') :
    Owned config h' := by
  cases hm with
  | crash i =>
    exact ho.turn (.stop _ _) (fun o => Kernel.set_endpoint_of_ne) (fun hl => by cases hl)
      (fun hp => by cases hp) (fun j _ => ho.file j) ho.placed (fun hu => by cases hu)
      (fun hp => by cases hp)
  | call i fault called =>
    refine ho.turn (called.kept (ho.kept i)) (fun o => called.endpoint_of_ne)
      (called.listens (ho.listens i)) (fun hp => ?_) (fun j _ hj => ho.file_stays called hj)
      (fun j p hp => ?_)
      (fun hu j hne hpath => ho.leaves called (ha j hne hpath).1 hu hne hpath)
      (fun hp j hne hpath => ?_)
    · obtain ⟨hbefore, hfile⟩ | ⟨-, hfile⟩ := called.holds hp
      · rw [hfile]
        exact ho.file i hbefore
      · exact hfile
    · cases called.wrote with
      | same file =>
        rw [file] at hp
        exact ho.placed j p hp
      | removed | unlinked =>
        rw [Kernel.remove_file] at hp
        split at hp
        · cases hp
        · exact ho.placed j p hp
      | placed =>
        rw [Kernel.place_file] at hp
        split at hp
        · cases hp
          assumption
        · exact ho.placed j p hp
    · obtain ⟨hbefore, -⟩ | ⟨pos, -⟩ := called.holds hp
      · by_contra hu
        rw [ho.apart j i (by simpa using hu) hpath] at hbefore
        cases hbefore
      · exact (ha j hne hpath.symm).2 pos

theorem reach_owned
    (hr : Reach (step config strerror) (Alone config) (start files others) h) :
    Owned config h := by
  refine hr.invariant ⟨fun i => ⟨fun _ => rfl, (fun p hp => by cases hp)⟩,
    (fun i hp => by cases hp), (fun i hp => by cases hp), fun i p hp => ?_,
    (fun i j hp => by cases hp)⟩ (fun _ _ _ ho ha hs => moves_owned ho ha (step_moves hs))
  -- the files of the beginning are no server's
  obtain ⟨f, -, hf⟩ := Option.map_eq_some_iff.mp hp
  cases f <;> cases hf

/-- Under every interleaving nothing but a socket is unlinked. If, moreover, no server probes a
path between the `bind` and the `listen` of another one, or binds it while another one is going to
unlink it, at most one server listens on a path and its file stays until it stops. -/
theorem one_live_server (config : ι → ServerConfig) (strerror : Errno → String)
    (files : String → Option (File Nat)) (others : Nat → Endpoint) :
    (∀ h, Reach (step config strerror) Free (start files others) h →
      ∀ a h', step config strerror h a = some h' →
        ∀ p, h.kernel.file p = some .plain → h'.kernel.file p = some .plain) ∧
    ∀ h, Reach (step config strerror) (Alone config) (start files others) h →
      (∀ i j, (h.server i).position = .live → (h.server j).position = .live →
        (config i).socketPath = (config j).socketPath → i = j) ∧
      ∀ a h', step config strerror h a = some h' →
        ∀ j p, (h.server j).position.holds = true →
          h.kernel.file p = some (.socket (.server j)) →
          h'.kernel.file p = some (.socket (.server j)) := by
  refine ⟨fun h hr a h' hs p hp => ?_, fun h hr => ⟨fun i j hi hj hpath => ?_, ?_⟩⟩
  · exact (reach_looked hr).plain_stays (step_moves hs) hp
  · exact (reach_owned hr).unique (by rw [hi]; rfl) (by rw [hj]; rfl) hpath
  · intro a h' hs j p hholds hp
    have ho := reach_owned hr
    cases step_moves hs with
    | crash => exact hp
    | call _ _ called =>
      rw [ho.placed j p hp]
      exact ho.file_stays called hholds

def calls (i : ι) (n : Nat) : List (Action ι) := List.replicate n (.call i none)

def threeServers : Fin 3 → ServerConfig :=
  fun i => if i = 2 then { socketPath := "/tmp/notes" } else {}

def notes : String → Option (File Nat) := fun p => if p = "/tmp/notes" then some .plain else none

theorem one_live_server_refused :
    ∃ h h' : Host (Fin 3), Reach (step threeServers fun _ => "") (Alone threeServers)
        (start notes fun _ => .closed) h ∧
      (h.server 1).error =
        "another cache server is already listening on /tmp/local_cache.sock" ∧
      (h.server 2).error = "/tmp/notes exists and is not a socket; refusing to unlink it" ∧
      step threeServers (fun _ => "") h (.call 1 none) = some h' ∧
      (h.server 1).position ≠ .live ∧
      h'.kernel.file "/tmp/local_cache.sock" = some (.socket (.server 0)) ∧
      h'.kernel.file "/tmp/notes" = some .plain := by
  obtain ⟨h, hr, hlive, herror, herror', hfile, hplain, hnext⟩ := exists_reach
    (guarded (step threeServers fun _ => "") (Alone threeServers))
    (start notes fun _ => .closed) (calls 0 9 ++ calls 1 4 ++ calls 2 2)
    (fun h => (h.server 0).position = .live ∧
      (h.server 1).error =
        "another cache server is already listening on /tmp/local_cache.sock" ∧
      (h.server 2).error = "/tmp/notes exists and is not a socket; refusing to unlink it" ∧
      h.kernel.file "/tmp/local_cache.sock" = some (.socket (.server 0)) ∧
      h.kernel.file "/tmp/notes" = some .plain ∧
      (step threeServers (fun _ => "") h (.call 1 none)).isSome = true)
    (by decide +kernel)
  obtain ⟨h', hnext⟩ := Option.isSome_iff_exists.mp hnext
  obtain ⟨hfree, hsettled⟩ := one_live_server threeServers (fun _ => "") notes fun _ => .closed
  obtain ⟨hone, hstays⟩ := hsettled h hr.of_guarded
  refine ⟨h, h', hr.of_guarded, herror, herror', hnext, fun hlive' => ?_, ?_, ?_⟩
  · cases hone 0 1 hlive hlive' rfl
  · exact hstays _ h' hnext 0 _ (by rw [hlive]; rfl) hfile
  · exact hfree h hr.of_guarded.free _ h' hnext _ hplain

def twoServers : Fin 2 → ServerConfig := fun _ => {}

/-- Two servers listen on one path: the second one starts between the `bind` and the `listen` of
the first, whose file it takes for a stale one. And a server that stops unlinks the file of the
one that has taken its place. -/
theorem two_live_servers :
    (∃ h : Host (Fin 2), Reach (step twoServers fun _ => "") Free
        (start (fun _ => none) fun _ => .closed) h ∧
      (h.server 0).position = .live ∧ (h.server 1).position = .live) ∧
    (∃ h : Host (Fin 2), Reach (step twoServers fun _ => "") Free
        (start (fun _ => none) fun _ => .closed) h ∧
      (h.server 0).position.holds = true ∧
      h.kernel.file "/tmp/local_cache.sock" = some (.socket (.server 0)) ∧
      (step twoServers (fun _ => "") h (.call 1 none)).map
        (fun h' => h'.kernel.file "/tmp/local_cache.sock") = some none) ∧
    ∃ h : Host (Fin 2), Reach (step twoServers fun _ => "") Free
        (start (fun _ => none) fun _ => .closed) h ∧
      (h.server 1).position = .live ∧
      h.kernel.file "/tmp/local_cache.sock" = some (.socket (.server 1)) ∧
      (step twoServers (fun _ => "") h (.call 0 none)).map
        (fun h' => h'.kernel.file "/tmp/local_cache.sock") = some none := by
  refine ⟨?_, ?_, ?_⟩
  · exact exists_reach _ _ (calls 0 4 ++ calls 1 12 ++ calls 0 5) _ (by decide +kernel)
  · exact exists_reach _ _ (calls 0 4 ++ calls 1 4) _ (by decide +kernel)
  · exact exists_reach _ _ (calls 0 10 ++ calls 1 12) _ (by decide +kernel)

end Host

end LocalCache
