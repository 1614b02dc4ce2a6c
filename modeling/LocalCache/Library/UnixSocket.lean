import Mathlib.Logic.Function.Basic

namespace LocalCache.Library.UnixSocket

/-- The errors that the state of the files and sockets decides; every other one is `other`. -/
inductive Errno
  | enoent
  | econnrefused
  | eaddrinuse
  | einval
  | other (code : Nat)
  deriving DecidableEq, Repr

/-- What a path may name: a socket, or something that is none. -/
inductive File (ι : Type)
  | plain
  | socket (owner : ι)
  deriving DecidableEq, Repr

/-- A stream socket. `closed` is also one that was never made. -/
inductive Endpoint
  | closed
  | unbound
  | bound
  | listening
  deriving DecidableEq, Repr

/-- The files, and the sockets of everyone. A socket stays bound, and may listen, after its file
has been unlinked. -/
structure Kernel (π ι : Type) where
  file : π → Option (File ι)
  endpoint : ι → Endpoint

def answer {α : Type} (fault : Option Nat) (result : Except Errno α) : Except Errno α :=
  match fault with
  | some code => .error (.other code)
  | none => result

theorem answer_ok {α : Type} {fault : Option Nat} {result : Except Errno α} {a : α}
    (h : answer fault result = .ok a) : result = .ok a := by
  cases fault with
  | none => exact h
  | some code => cases h

theorem answer_error {α : Type} {fault : Option Nat} {result : Except Errno α} {e : Errno}
    (h : answer fault result = .error e) (he : ∀ code, e ≠ .other code) : result = .error e := by
  cases fault with
  | none => exact h
  | some code =>
    injection h with h
    exact absurd h.symm (he code)

namespace Kernel

variable {π ι : Type}

section Calls

variable [DecidableEq π] [DecidableEq ι]

def stat (k : Kernel π ι) (p : π) : Except Errno (File ι) :=
  match k.file p with
  | none => .error .enoent
  | some f => .ok f

def connect (k : Kernel π ι) (p : π) : Except Errno Unit :=
  match k.file p with
  | none => .error .enoent
  | some .plain => .error .econnrefused
  | some (.socket o) => if k.endpoint o = .listening then .ok () else .error .econnrefused

def remove (k : Kernel π ι) (p : π) : Kernel π ι :=
  { k with file := Function.update k.file p none }

def unlink (k : Kernel π ι) (p : π) : Except Errno (Kernel π ι) :=
  match k.file p with
  | none => .error .enoent
  | some _ => .ok (k.remove p)

def set (k : Kernel π ι) (i : ι) (e : Endpoint) : Kernel π ι :=
  { k with endpoint := Function.update k.endpoint i e }

def socket (k : Kernel π ι) (i : ι) : Kernel π ι := k.set i .unbound

def place (k : Kernel π ι) (p : π) (i : ι) : Kernel π ι :=
  { k.set i .bound with file := Function.update k.file p (some (.socket i)) }

def bind (k : Kernel π ι) (p : π) (i : ι) : Except Errno (Kernel π ι) :=
  match k.endpoint i, k.file p with
  | .unbound, none => .ok (k.place p i)
  | .unbound, some _ => .error .eaddrinuse
  | _, _ => .error .einval

def chmod (k : Kernel π ι) (p : π) : Except Errno Unit :=
  match k.file p with
  | none => .error .enoent
  | some _ => .ok ()

def listen (k : Kernel π ι) (i : ι) : Except Errno (Kernel π ι) :=
  match k.endpoint i with
  | .bound | .listening => .ok (k.set i .listening)
  | _ => .error .einval

def close (k : Kernel π ι) (i : ι) : Kernel π ι := k.set i .closed

end Calls

variable {k k' : Kernel π ι} {p : π} {i o : ι} {e : Endpoint}

theorem stat_ok {f : File ι} (h : k.stat p = .ok f) : k.file p = some f := by
  cases hf : k.file p <;> simp_all [stat]

theorem stat_enoent (h : k.stat p = .error .enoent) : k.file p = none := by
  cases hf : k.file p <;> simp_all [stat]

theorem connect_listening (hf : k.file p = some (.socket o)) (he : k.endpoint o = .listening) :
    k.connect p = .ok () := by
  rw [connect, hf]
  exact if_pos he

section Files

variable [DecidableEq π]

theorem remove_file (q : π) : (k.remove p).file q = if q = p then none else k.file q :=
  Function.update_apply ..

theorem remove_of_absent (h : k.file p = none) : k.remove p = k := by
  rw [remove, ← h, Function.update_eq_self]

theorem unlink_ok (h : k.unlink p = .ok k') : k' = k.remove p := by
  cases hf : k.file p <;> simp_all [unlink]

theorem unlink_enoent (h : k.unlink p = .error .enoent) : k.file p = none := by
  cases hf : k.file p <;> simp_all [unlink]

end Files

section Endpoints

variable [DecidableEq ι]

@[simp] theorem set_endpoint_self : (k.set i e).endpoint i = e := Function.update_self ..

theorem set_endpoint_of_ne (h : o ≠ i) : (k.set i e).endpoint o = k.endpoint o :=
  Function.update_of_ne h ..

theorem listen_ok (h : k.listen i = .ok k') : k' = k.set i .listening := by
  cases he : k.endpoint i <;> simp_all [listen]

end Endpoints

variable [DecidableEq π] [DecidableEq ι]

theorem place_file (q : π) :
    (k.place p i).file q = if q = p then some (.socket i) else k.file q :=
  Function.update_apply ..

theorem bind_ok (h : k.bind p i = .ok k') : k.file p = none ∧ k' = k.place p i := by
  cases he : k.endpoint i <;> cases hf : k.file p <;> simp_all [bind]

end Kernel

end LocalCache.Library.UnixSocket
