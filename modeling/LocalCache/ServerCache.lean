import LocalCache.ServerLimits
import LocalCache.ServerRequests

namespace LocalCache

open Protocol Serializer Library Transition

def Worker.response : Worker → Option Response
  | .record _ response _ | .check _ response | .stage _ response => some response
  | _ => none

namespace Server

/-- The most bytes a response of `handle_job` can carry. -/
def valueBound (config : ServerConfig) : Nat := max config.maxValueBytes.toNat 114

/-- The cache of a running server is linked within its limits, and no worker carries a
response that is too long. -/
structure Cached (config : ServerConfig) (s : Server) : Prop where
  linked : s.cache.Linked
  limits_eq : s.cache.limits = config.cacheLimits
  sized : ∀ w response, (s.worker w).response = some response →
    response.value.length ≤ valueBound config

variable {config : ServerConfig} {fds : Descriptors} {s s' : Server} {a : Action} {w : Nat}

theorem cached_start (config : ServerConfig) (fds : Descriptors) :
    (start config fds).Cached config :=
  ⟨LruCache.linked_empty _, rfl, fun _ _ h => by cases h⟩

theorem Cached.frame (h : s.Cached config) (cache : s'.cache = s.cache)
    (sized : ∀ w response, (s'.worker w).response = some response →
      (s.worker w).response = some response) : s'.Cached config :=
  ⟨cache ▸ h.linked, cache ▸ h.limits_eq, fun w r hr => h.sized w r (sized w r hr)⟩

theorem response_setWorker {pc : Worker} {v : Nat} {response : Response}
    (hpc : pc.response = some response → (s.worker w).response = some response)
    (h : (s.setWorker w pc v).response = some response) :
    (s.worker v).response = some response := by
  rw [setWorker_apply] at h
  split at h
  · rename_i hv
    exact hv ▸ hpc h
  · exact h

theorem cached_run {job : Job} {uptimeMs : UInt64} {cache : LruCache} {response : Response}
    {tally : Option Tally} (h : s.Cached config)
    (result : s.execute job.request uptimeMs = some (cache, response, tally)) :
    Cached config { s with
      cache := cache, worker := s.setWorker w (.record job response tally) } := by
  obtain ⟨cache', response', tally', he, hlinked, hlimits, hle⟩ :=
    execute_linked h.linked job.request uptimeMs
  rw [result] at he
  cases he
  refine ⟨hlinked, hlimits.trans h.limits_eq, ?_⟩
  intro v r hr
  dsimp only at hr
  rw [setWorker_apply] at hr
  split at hr
  · cases hr
    rw [h.limits_eq] at hle
    exact hle
  · exact h.sized v r hr

theorem worker_response (hs : WorkerStep s w s') (pc : ∀ job, s.worker w ≠ .run job) {v : Nat}
    {response : Response} (h : (s'.worker v).response = some response) :
    (s.worker v).response = some response := by
  cases hs with
  | run job _ _ _ _ pc' => exact absurd pc' (pc job)
  | record job _ _ pc | checkOpen job _ pc =>
    exact response_setWorker (fun hr => by rw [pc]; exact hr) h
  | decrement c healthy =>
    exact response_setWorker (fun hr => by cases healthy <;> cases hr) h
  | _ => exact response_setWorker (fun hr => by cases hr) h

theorem step_cached (h : s.Cached config) (hs : Step config fds s a s') : s'.Cached config := by
  cases hs with
  | loop hl => cases hl <;> exact h.frame rfl (fun _ _ hr => hr)
  | requestShutdown => exact h.frame rfl (fun _ _ hr => hr)
  | @worker w _ _ hw hs =>
    by_cases hrun : ∃ job, s.worker w = .run job
    · obtain ⟨job, pc⟩ := hrun
      cases hs with
      | run job uptimeMs cache response tally pc result => exact cached_run h result
      | _ => simp_all
    · have pc : ∀ job, s.worker w ≠ .run job := fun job h => hrun ⟨job, h⟩
      refine h.frame ?_ (fun _ _ => worker_response hs pc)
      cases hs with
      | run job _ _ _ _ pc' => exact absurd pc' (pc job)
      | _ => rfl

theorem reach_cached {ok : Server → Action → Prop}
    (h : Reach (step config fds) ok (start config fds) s) : s.Cached config :=
  run_invariant (cached_start config fds) (fun _ _ _ hp hs => step_cached hp hs) h

end Server

end LocalCache
