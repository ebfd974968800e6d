import AcpAgent.Lib.Str

/-! The ACP route configuration of `serve/mod.rs`, which standalone and named servers share. -/

namespace AcpAgent.Serve

structure RouteConfig where
  path : Str
  corsOrigins : List Str
  allowAnyOrigin : Bool
  healthEndpoint : Bool
  readyzEndpoint : Bool
  maxProcesses : UInt64
  deriving DecidableEq

namespace RouteConfig

/-- `Default for RouteConfig`, with `DEFAULT_MAX_PROCESSES`. -/
def default : RouteConfig := ⟨str "/acp", [], false, true, true, 16⟩

/-- `tokio::sync::Semaphore::MAX_PERMITS` on a 64-bit target. -/
def maxPermits : UInt64 := .ofNat (2 ^ 61 - 1)

/-- `validate_route_config`. -/
def validate (options : RouteConfig) : Except Str Unit :=
  if options.maxProcesses = 0 then .error (str "max_processes must be greater than zero")
  else if options.maxProcesses > maxPermits then
    .error (str "max_processes must not exceed " ++ Nat.toDigits 10 maxPermits.toNat)
  else if options.path.head? ≠ some '/' then
    .error (str "ACP endpoint path must start with '/'")
  else if options.path.len = 1 then .error (str "ACP endpoint path cannot be '/'")
  else if options.healthEndpoint ∧ options.path = str "/health" then
    .error (str "ACP endpoint path conflicts with the health endpoint")
  else if options.readyzEndpoint ∧ options.path = str "/readyz" then
    .error (str "ACP endpoint path conflicts with the readiness endpoint")
  else .ok ()

/-- The endpoints that a route with this configuration exposes below its public route. -/
def endpoints (options : RouteConfig) : List Str :=
  [options.path] ++ (if options.healthEndpoint then [str "/health"] else []) ++
    if options.readyzEndpoint then [str "/readyz"] else []

example : default.validate = .ok () := by decide

theorem path_of_validate {options : RouteConfig} (h : options.validate = .ok ()) :
    ∃ rest, options.path = '/' :: rest := by
  unfold validate at h
  split_ifs at h with _ _ hp
  cases hq : options.path with
  | nil => simp [hq] at hp
  | cons c rest => exact ⟨rest, by simpa [hq] using hp⟩

/-- Every endpoint of an accepted configuration starts with a slash. -/
theorem endpoint_slash {options : RouteConfig} (h : options.validate = .ok ()) {e : Str}
    (he : e ∈ options.endpoints) : ∃ rest, e = '/' :: rest := by
  simp only [endpoints, List.mem_append, List.mem_singleton] at he
  rcases he with (rfl | he) | he
  · exact path_of_validate h
  · obtain rfl : e = str "/health" := by
      split_ifs at he <;> simp_all
    exact ⟨_, rfl⟩
  · obtain rfl : e = str "/readyz" := by
      split_ifs at he <;> simp_all
    exact ⟨_, rfl⟩

end RouteConfig

end AcpAgent.Serve
