import AcpAgent.Serve.Config
import Mathlib.Data.List.Nodup

/-! How a served route's router is built (`serve/mod.rs` and `serve/runtime.rs`), with the panics of
the libraries that build it: `Router` of axum, and `Semaphore` of tokio. -/

namespace AcpAgent.Serve.Router

/-- How a call ends that does not return `Ok`. -/
inductive Fault
  | error (text : Str)
  | panic
  deriving DecidableEq

abbrev Run := Except Fault

/-- The result of a function that does not panic. -/
def ofResult {α : Type*} (result : Except Str α) : Run α := result.mapError .error

/-- `CorsOptions` of the ACP library. -/
inductive CorsOptions
  | disabled
  | anyOrigin
  | origins (origins : List Str)
  deriving DecidableEq

/-- `agent_client_protocol_http::ServerOptions`. -/
structure ServerOptions where
  path : Str
  cors : CorsOptions
  healthEndpoint : Bool
  deriving DecidableEq

/-- What the routers depend on: the paths whose braces `Router::route` refuses, the mount paths whose
braces `Router::nest` refuses before it mounts anything, and the origins that are header values. -/
structure Library where
  routeBraces : Str → Bool
  nestBraces : Str → Bool
  headerValue : Str → Bool
  plain : ∀ path, '{' ∉ path → '}' ∉ path → routeBraces path = false

section Axum

/-- A segment in the syntax of axum 0.7. -/
def oldSyntax (segment : Str) : Bool := segment.head? = some ':' || segment.head? = some '*'

/-- The paths that axum panics on, for the braces that it refuses.  Whether it refuses a brace may
depend on the whole path: `/x/{*rest}` is a route and `/{*rest}/x` is none. -/
def Refused (braces : Str → Bool) (path : Str) : Prop :=
  (∃ segment ∈ Str.split '/' path, oldSyntax segment = true) ∨ braces path = true

instance (braces : Str → Bool) (path : Str) : Decidable (Refused braces path) :=
  inferInstanceAs (Decidable (_ ∨ _))

variable (lib : Library)

/-- `Router::route`, on the paths that are mounted.  Two handlers of one path overlap. -/
def route (router : List Str) (path : Str) : Run (List Str) :=
  if path.head? ≠ some '/' ∨ Refused lib.routeBraces path ∨ router.contains path then .error .panic
  else .ok (path :: router)

/-- `Router::nest` into a new router, which mounts each path of the other one behind the prefix. -/
def nest (mountPath : Str) (router : List Str) : Run (List Str) :=
  if mountPath.head? ≠ some '/' ∨ mountPath.len = 1 ∨ Refused lib.nestBraces mountPath then
    .error .panic
  else (router.map (mountPath ++ ·)).foldlM (route lib) []

/-- `AcpHttpServer::into_router`. -/
def intoRouter (options : ServerOptions) : Run (List Str) := do
  let router ← route lib [] options.path
  if options.healthEndpoint then route lib router (str "/health") else pure router

def newSemaphore (permits : UInt64) : Run Unit :=
  if permits > RouteConfig.maxPermits then .error .panic else .ok ()

end Axum

variable (lib : Library)

def corsOptions (origins : List Str) (allowAny : Bool) : Except Str CorsOptions :=
  if allowAny ∧ origins ≠ [] then
    .error (str "CORS origins cannot be combined with allow_any_origin")
  else if allowAny then .ok .anyOrigin
  else if origins = [] then .ok .disabled
  else if origins.all lib.headerValue then .ok (.origins origins)
  else .error (str "CORS origin contains an invalid HTTP header value")

def httpServerOptions (options : RouteConfig) : Except Str ServerOptions := do
  options.validate
  let cors ← corsOptions lib options.corsOrigins options.allowAnyOrigin
  pure ⟨options.path, cors, options.healthEndpoint⟩

def validateProcessLimit (maxProcesses : UInt64) : Except Str Unit :=
  if maxProcesses = 0 then .error (str "max_processes must be greater than zero")
  else if maxProcesses > RouteConfig.maxPermits then
    .error (str "max_processes must not exceed " ++ Nat.toDigits 10 RouteConfig.maxPermits.toNat)
  else .ok ()

/-- `route_runtime_with_stderr_and_lease`, up to the paths of its router. -/
def routeRuntime (options : RouteConfig) : Run (List Str) := do
  ofResult (validateProcessLimit options.maxProcesses)
  let serverOptions ← ofResult (httpServerOptions lib options)
  newSemaphore options.maxProcesses
  let router ← intoRouter lib serverOptions
  if options.readyzEndpoint then route lib router (str "/readyz") else pure router

def validateMountPath (mountPath : Str) : Except Str Unit :=
  if mountPath.head? ≠ some '/' then .error (str "mount path must start with '/'")
  else if mountPath.len = 1 then .error (str "mount path cannot be '/'")
  else if mountPath.getLast? = some '/' then .error (str "mount path must not end with '/'")
  else .ok ()

/-- `ServeOptions`, without the address. -/
structure ServeOptions where
  mountPath : Option Str
  route : RouteConfig
  deriving DecidableEq

/-- `serve_config`; `served` is how binding the address and serving there end. -/
def serveConfig (options : ServeOptions) (served : Except Str Unit) : Run Unit := do
  let router ← routeRuntime lib options.route
  match options.mountPath with
  | none => ofResult served
  | some mountPath =>
    ofResult (validateMountPath mountPath)
    let _ ← nest lib mountPath router
    ofResult served

/-! ### Panics -/

section Run

variable {α γ : Type}

theorem bind_panics {x : Run α} {f : α → Run γ} :
    (x >>= f) = .error .panic ↔ x = .error .panic ∨ ∃ a, x = .ok a ∧ f a = .error .panic := by
  cases x with
  | error fault => simp [bind, Except.bind]
  | ok a => simp [bind, Except.bind]

theorem ofResult_panics (result : Except Str α) : ofResult result ≠ .error .panic := by
  cases result with
  | error => simp [ofResult, Except.mapError]
  | ok => simp [ofResult, Except.mapError]

end Run

structure Accepted (options : RouteConfig) : Prop where
  positive : options.maxProcesses ≠ 0
  few : options.maxProcesses ≤ RouteConfig.maxPermits
  slash : options.path.head? = some '/'
  health : options.healthEndpoint = true → options.path ≠ str "/health"
  readyz : options.readyzEndpoint = true → options.path ≠ str "/readyz"

theorem accepted_of_validate {options : RouteConfig} (h : options.validate = .ok ()) :
    Accepted options := by
  unfold RouteConfig.validate at h
  split_ifs at h with zero many slash root health readyz
  refine ⟨zero, UInt64.not_lt.mp many, by simpa using slash, ?_, ?_⟩
  · exact fun on path => health ⟨on, path⟩
  · exact fun on path => readyz ⟨on, path⟩

section Panics

variable {lib}

theorem not_refused {path : Str} (old : (Str.split '/' path).all fun s => !oldSyntax s)
    (opened : '{' ∉ path) (closed : '}' ∉ path) : ¬Refused lib.routeBraces path := by
  rintro (⟨segment, hs, bad⟩ | bad)
  · have new := List.all_eq_true.mp old segment hs
    simp [bad] at new
  · exact Bool.false_ne_true ((lib.plain path opened closed).symm.trans bad)

theorem health_accepted : ¬Refused lib.routeBraces (str "/health") :=
  not_refused (by decide) (by decide) (by decide)

theorem readyz_accepted : ¬Refused lib.routeBraces (str "/readyz") :=
  not_refused (by decide) (by decide) (by decide)

theorem route_new {router : List Str} {path : Str} (slash : path.head? = some '/')
    (fine : ¬Refused lib.routeBraces path) (new : path ∉ router) :
    route lib router path = .ok (path :: router) := by
  rw [route, if_neg (by simp [slash, fine, new])]

theorem route_if {on : Bool} {router : List Str} {path : Str} (slash : path.head? = some '/')
    (fine : ¬Refused lib.routeBraces path) (new : on = true → path ∉ router) :
    (if on then route lib router path else pure router) =
      .ok (if on then path :: router else router) := by
  cases on with
  | false => rfl
  | true => exact route_new slash fine (new rfl)

/-- Different paths are mounted unless axum panics on one of them. -/
theorem foldlM_route {paths router : List Str} (slash : ∀ path ∈ paths, path.head? = some '/')
    (nodup : paths.Nodup) (new : ∀ path ∈ paths, path ∉ router) :
    paths.foldlM (route lib) router = .error .panic ↔
      ∃ path ∈ paths, Refused lib.routeBraces path := by
  induction paths generalizing router with
  | nil => simp [pure, Except.pure]
  | cons path paths ih =>
    obtain ⟨here, slash⟩ := List.forall_mem_cons.mp slash
    obtain ⟨fresh, new⟩ := List.forall_mem_cons.mp new
    obtain ⟨once, nodup⟩ := List.nodup_cons.mp nodup
    rw [List.foldlM_cons, List.exists_mem_cons_iff]
    by_cases fine : Refused lib.routeBraces path
    · rw [route, if_pos (.inr (.inl fine))]
      exact iff_of_true rfl (.inl fine)
    · rw [route_new here fine fresh]
      refine (ih slash nodup fun other member => ?_).trans (or_iff_right fine).symm
      rw [List.mem_cons, not_or]
      refine ⟨?_, new other member⟩
      rintro rfl
      exact once member

theorem intoRouter_accepted {options : RouteConfig} (h : Accepted options)
    (fine : ¬Refused lib.routeBraces options.path) (cors : CorsOptions) :
    intoRouter lib ⟨options.path, cors, options.healthEndpoint⟩ =
      .ok (if options.healthEndpoint then [str "/health", options.path] else [options.path]) := by
  have first : route lib [] options.path = .ok [options.path] := route_new h.slash fine (by simp)
  have other : options.healthEndpoint = true → str "/health" ∉ [options.path] := by
    intro on
    simpa using (h.health on).symm
  rw [intoRouter, first]
  exact route_if rfl health_accepted other

theorem readyz_new {options : RouteConfig} (h : Accepted options)
    (on : options.readyzEndpoint = true) : str "/readyz" ∉
      if options.healthEndpoint then [str "/health", options.path] else [options.path] := by
  have other := (h.readyz on).symm
  have different : str "/readyz" ≠ str "/health" := by decide
  cases options.healthEndpoint <;> simp [other, different]

theorem nodup_endpoints {options : RouteConfig} (h : Accepted options) :
    options.endpoints.Nodup := by
  have different : str "/health" ≠ str "/readyz" := by decide
  have health := h.health
  have readyz := h.readyz
  rw [RouteConfig.endpoints]
  cases on : options.healthEndpoint <;> cases on' : options.readyzEndpoint <;>
    simp [on, on', different] at health readyz ⊢
  · exact readyz
  · exact health
  · exact ⟨health, readyz⟩

theorem processLimit_accepted {options : RouteConfig} (h : Accepted options) :
    validateProcessLimit options.maxProcesses = .ok () := by
  rw [validateProcessLimit, if_neg h.positive, if_neg (UInt64.not_lt.mpr h.few)]

theorem runtime_accepted {options : RouteConfig} {cors : CorsOptions}
    (accepted : options.validate = .ok ())
    (cors_ : corsOptions lib options.corsOrigins options.allowAnyOrigin = .ok cors) :
    routeRuntime lib options =
      intoRouter lib ⟨options.path, cors, options.healthEndpoint⟩ >>= fun router =>
        if options.readyzEndpoint then route lib router (str "/readyz") else pure router := by
  have h := accepted_of_validate accepted
  have server : httpServerOptions lib options =
      .ok ⟨options.path, cors, options.healthEndpoint⟩ := by
    rw [httpServerOptions, accepted, cors_]
    rfl
  have semaphore : newSemaphore options.maxProcesses = .ok () := by
    rw [newSemaphore, if_neg (UInt64.not_lt.mpr h.few)]
  rw [routeRuntime, processLimit_accepted h, server, semaphore]
  rfl

/-- The router of an accepted configuration is built, unless its origins are refused or axum panics
on its path. -/
theorem routeRuntime_cases (lib : Library) {options : RouteConfig}
    (accepted : options.validate = .ok ()) :
    (∃ error, corsOptions lib options.corsOrigins options.allowAnyOrigin = .error error ∧
      routeRuntime lib options = .error (.error error)) ∨
    (∃ cors, corsOptions lib options.corsOrigins options.allowAnyOrigin = .ok cors) ∧
      ((Refused lib.routeBraces options.path ∧ routeRuntime lib options = .error .panic) ∨
      ¬Refused lib.routeBraces options.path ∧
        routeRuntime lib options = .ok options.endpoints.reverse) := by
  have h := accepted_of_validate accepted
  cases cors_ : corsOptions lib options.corsOrigins options.allowAnyOrigin with
  | error error =>
    refine .inl ⟨error, rfl, ?_⟩
    have failed : httpServerOptions lib options = .error error := by
      rw [httpServerOptions, accepted, cors_]
      rfl
    rw [routeRuntime, processLimit_accepted h, failed]
    rfl
  | ok cors =>
    refine .inr ⟨⟨cors, rfl⟩, ?_⟩
    rw [runtime_accepted accepted cors_]
    by_cases fine : Refused lib.routeBraces options.path
    · have panics : route lib [] options.path = .error .panic := by
        rw [route, if_pos (.inr (.inl fine))]
      refine .inl ⟨fine, ?_⟩
      rw [intoRouter, panics]
      rfl
    · refine .inr ⟨fine, ?_⟩
      rw [intoRouter_accepted h fine cors]
      refine (route_if rfl readyz_accepted (readyz_new h)).trans ?_
      rw [RouteConfig.endpoints]
      cases options.healthEndpoint <;> cases options.readyzEndpoint <;> rfl

/-- The mount paths behind which axum takes every endpoint. -/
def Mountable (lib : Library) (options : RouteConfig) (mountPath : Str) : Prop :=
  ¬Refused lib.nestBraces mountPath ∧
    ∀ endpoint ∈ options.endpoints, ¬Refused lib.routeBraces (mountPath ++ endpoint)

/-- Nesting the router of a configuration under an accepted path panics if axum does on that path, or
on an endpoint behind it. -/
theorem nest_accepted {mountPath : Str} {options : RouteConfig} (h : Accepted options)
    (accepted : validateMountPath mountPath = .ok ()) :
    nest lib mountPath options.endpoints.reverse ≠ .error .panic ↔
      Mountable lib options mountPath := by
  unfold validateMountPath at accepted
  split_ifs at accepted with slash root
  have start : mountPath.head? = some '/' := not_not.mp slash
  have slash_ : ∀ path ∈ options.endpoints.reverse.map (mountPath ++ ·), path.head? = some '/' := by
    intro path member
    obtain ⟨endpoint, -, rfl⟩ := List.mem_map.mp member
    rw [List.head?_append, start, Option.some_or]
  have nodup : (options.endpoints.reverse.map (mountPath ++ ·)).Nodup :=
    ((List.reverse_perm _).nodup_iff.mpr (nodup_endpoints h)).map fun _ _ => List.append_cancel_left
  rw [nest, Mountable]
  by_cases fine : Refused lib.nestBraces mountPath
  · rw [if_pos (.inr (.inr fine))]
    exact iff_of_false (fun ne => ne rfl) fun both => both.1 fine
  · rw [if_neg (by simp [start, root, fine]), Ne,
      foldlM_route slash_ nodup fun _ _ => List.not_mem_nil]
    simp [fine]

/-- Accepted configurations are served without a panic exactly if axum accepts their paths, also
behind the mount path, or their origins are refused before. -/
theorem never_panics_iff (lib : Library) (options : ServeOptions)
    (accepted : options.route.validate = .ok ())
    (mounted : ∀ mountPath ∈ options.mountPath, validateMountPath mountPath = .ok ()) :
    (routeRuntime lib options.route ≠ .error .panic ∧
      ∀ served, serveConfig lib options served ≠ .error .panic) ↔
    (∃ error, corsOptions lib options.route.corsOrigins options.route.allowAnyOrigin =
        .error error) ∨
      ¬Refused lib.routeBraces options.route.path ∧
        ∀ mountPath ∈ options.mountPath, Mountable lib options.route mountPath := by
  rcases routeRuntime_cases lib accepted with
    ⟨error, cors, failed⟩ | ⟨⟨cors, cors_⟩, ⟨refused, panics⟩ | ⟨fine, built⟩⟩
  · refine iff_of_true ⟨by simp [failed], fun served => ?_⟩ (.inl ⟨error, cors⟩)
    rw [serveConfig, failed]
    exact nofun
  · refine iff_of_false (fun never => never.1 panics) ?_
    rintro (⟨error, cors'⟩ | ⟨fine, -⟩)
    · exact nomatch cors_.symm.trans cors'
    · exact fine refused
  · have serves : ∀ served, serveConfig lib options served ≠ .error .panic ↔
        ∀ mountPath ∈ options.mountPath, Mountable lib options.route mountPath := by
      intro served
      cases mount : options.mountPath with
      | none =>
        rw [serveConfig, built, mount]
        exact iff_of_true (ofResult_panics served) (by simp)
      | some mountPath =>
        have valid := mounted mountPath mount
        have nested : serveConfig lib options served =
            nest lib mountPath options.route.endpoints.reverse >>= fun _ => ofResult served := by
          rw [serveConfig, built, mount]
          change (ofResult (validateMountPath mountPath) >>= _) = _
          rw [valid]
          rfl
        rw [nested, Ne, bind_panics]
        simp [ofResult_panics, ← nest_accepted (accepted_of_validate accepted) valid]
    constructor
    · rintro ⟨-, never⟩
      exact .inr ⟨fine, (serves (.ok ())).mp (never (.ok ()))⟩
    · rintro (⟨error, cors'⟩ | ⟨-, mountable⟩)
      · exact nomatch cors_.symm.trans cors'
      · exact ⟨by simp [built], fun served => (serves served).mpr mountable⟩

end Panics

/-! ### A path in the old syntax -/

/-- Braces that are not closed, or not opened. -/
def unbalanced (path : Str) : Bool := path.count '\x7b' != path.count '\x7d'

def plainLibrary : Library where
  routeBraces := unbalanced
  nestBraces := unbalanced
  headerValue _ := true
  plain path opened closed := by
    rw [unbalanced, List.count_eq_zero.mpr opened, List.count_eq_zero.mpr closed]
    rfl

def mountedAgent : ServeOptions := ⟨some (str "/agent"), .default⟩

theorem never_panics_iff_default :
    (routeRuntime plainLibrary mountedAgent.route ≠ .error .panic ∧
      ∀ served, serveConfig plainLibrary mountedAgent served ≠ .error .panic) ↔
    (∃ error, corsOptions plainLibrary mountedAgent.route.corsOrigins
        mountedAgent.route.allowAnyOrigin = .error error) ∨
      ¬Refused plainLibrary.routeBraces mountedAgent.route.path ∧
        ∀ mountPath ∈ mountedAgent.mountPath, Mountable plainLibrary mountedAgent.route mountPath :=
  never_panics_iff plainLibrary mountedAgent (by decide) (by rintro _ ⟨⟩; decide)

def colonPath : RouteConfig := { RouteConfig.default with path := str "/:id" }

/-- The configuration is accepted, and building its router panics. -/
theorem colon_path_panics : colonPath.validate = .ok () ∧
    routeRuntime plainLibrary colonPath = .error .panic := by
  decide

end AcpAgent.Serve.Router
