import AcpAgent.Lib.Transition
import AcpAgent.Server.Protocol
import Mathlib.Data.List.Pairwise
import Mathlib.Order.Basic

/-! The routes of a named server, `server/routes.rs`: registration, removal, and the dispatch of
public requests. -/

namespace AcpAgent.Server.Routes

open Transition Serve

/-- `http::Uri`. -/
structure Uri where
  scheme : Option Str
  authority : Option Str
  path : Str
  query : Option Str
  deriving DecidableEq

/-- A request of the `http` crate.  Its method, version, headers, extensions and body are one
value. -/
structure HttpRequest (β : Type*) where
  uri : Uri
  rest : β
  deriving DecidableEq

/-- The parsers of the `http` crate: `Uri::from_str`, and `PathAndQuery::try_from` with the path and
the query it finds. -/
structure UriParser where
  uri : Str → Except Str Uri
  pathAndQuery : Str → Except Str (Str × Option Str)

/-- A path and a query as they are written in a URI. -/
def joinQuery (path : Str) : Option Str → Str
  | some query => path ++ '?' :: query
  | none => path

/-- The path and query of the URI are those that the parser finds in it. -/
def UriParser.Accepts (lib : UriParser) (path : Str) (query : Option Str) : Prop :=
  lib.pathAndQuery (joinQuery path query) = .ok (path, query)

/-- The parser checks a path character by character, so that it accepts the end of a path that it
accepts, from a slash on, and the root path. -/
structure UriParser.Characterwise (lib : UriParser) : Prop where
  tail : ∀ front path query, lib.Accepts (front ++ path) query → path.head? = some '/' →
    lib.Accepts path query
  root : ∀ path query, lib.Accepts path query → lib.Accepts (str "/") query

/-! ### Registration -/

structure RouteKey where
  id : Str
  publicRoute : Str
  config : RouteConfig
  deriving DecidableEq

/-- Equality of route keys does not look at the configuration. -/
def RouteKey.same (a b : RouteKey) : Bool := a.id = b.id && a.publicRoute = b.publicRoute

/-- The map from route keys to runtimes. -/
abbrev Table (ρ : Type*) := List (RouteKey × ρ)

def validateName (name : Str) : Except Str Unit :=
  if name = [] ∨ ¬name.all (fun c => c.isAlphanum || c = '-' || c = '_' || c = '.') then
    .error (str "server name must contain only letters, digits, '.', '-' or '_'")
  else .ok ()

def validateAgentId (id : Str) : Bool := !Str.isBlank id

def validateRoute (lib : UriParser) (route : Str) : Except Str Unit :=
  if route.head? ≠ some '/' ∨ route = str "/" ∨ route.getLast? = some '/' then
    .error (str "agent route must start with '/', cannot be '/', and must not end with '/'")
  else if route.any (fun c => c = '?' || c = '#') ∨ (Str.split '/' route).any (· = str "..") then
    .error (str "agent route contains an invalid path segment")
  else match lib.uri route with
    | .error _ => .error (str "agent route is not a valid URI path")
    | .ok uri =>
      if uri.path ≠ route ∨ uri.query.isSome then
        .error (str "agent route is not a valid URI path")
      else .ok ()

/-- An error of a check, as the operation reports it. -/
def invalidInput (check : Except Str Unit) : Except OperationError Unit :=
  check.mapError (OperationError.mk .invalidInput)

/-- What `register` checks before it looks for the instance. -/
def checkRegister (lib : UriParser) (request : RegisterRequest) : Except OperationError Unit := do
  invalidInput (validateName request.name)
  if validateAgentId request.id then pure ()
  else .error ⟨.invalidInput, str "agent id must not be empty"⟩
  invalidInput (validateRoute lib request.route)

variable {ρ β : Type*}

/-- The end of `register`, under the write lock of the routes. -/
def insertRoute (routes : Table ρ) (key : RouteKey) (runtime : ρ) :
    Except OperationError (Table ρ) :=
  if routes.any (·.1.id = key.id) then
    .error ⟨.conflict, str "agent id " ++ key.id ++ str " is already registered"⟩
  else if routes.any (·.1.publicRoute = key.publicRoute) then
    .error ⟨.conflict, str "route " ++ key.publicRoute ++ str " is already registered"⟩
  else .ok ((key, runtime) :: routes.filter fun entry => !entry.1.same key)

/-- The end of `unregister`, under the write lock of the routes. -/
def removeRoute (routes : Table ρ) (id : Str) : Except OperationError (Table ρ) :=
  match routes.find? (·.1.id = id) with
  | none => .error ⟨.notFound, str "agent " ++ id ++ str " is not registered"⟩
  | some route => .ok (routes.filter fun entry => !entry.1.same route.1)

/-! ### Dispatch -/

def routeMatches (route path : Str) : Bool :=
  path = route || ((Str.stripPrefix path route).any fun suffix => suffix.head? = some '/')

def rewriteRoutePrefix (lib : UriParser) (request : HttpRequest β) (route : Str) :
    Except Str (HttpRequest β) :=
  let path := request.uri.path
  match (Str.stripPrefix path route).filter fun suffix =>
      suffix = [] || suffix.head? = some '/' with
  | none => .error (str "route " ++ route ++ str " does not match request path " ++ path)
  | some suffix =>
    let rewrittenPath := if suffix = [] then str "/" else suffix
    match lib.pathAndQuery (joinQuery rewrittenPath request.uri.query) with
    | .error error => .error (str "failed to rewrite request URI: " ++ error)
    | .ok (path, query) => .ok { request with uri := ⟨none, none, path, query⟩ }

inductive Dispatched (ρ β : Type*)
  /-- The status 503. -/
  | unavailable
  /-- The status 404. -/
  | notFound
  /-- The status 500. -/
  | failed (error : Str)
  | routed (runtime : ρ) (request : HttpRequest β)
  deriving DecidableEq

/-- The registration that takes a request: `max_by_key` gives the last of several longest routes. -/
def selectRoute (routes : Table ρ) (path : Str) : Option (RouteKey × ρ) :=
  (routes.filter fun entry => routeMatches entry.1.publicRoute path).reverse.maxOn?
    fun entry => Str.len entry.1.publicRoute

/-- `dispatch_instance`, with the routes in the order in which the map iterates over them. -/
def dispatchInstance (lib : UriParser) (state : InstanceState) (routes : Table ρ)
    (request : HttpRequest β) : Dispatched ρ β :=
  if state ≠ .running then .unavailable
  else match selectRoute routes request.uri.path with
    | none => .notFound
    | some (key, runtime) =>
      match rewriteRoutePrefix lib request key.publicRoute with
      | .error error => .failed error
      | .ok request => .routed runtime request

/-! ### The tables that registration leads to -/

inductive Event (ρ : Type*)
  | register (request : RegisterRequest) (runtime : ρ)
  | unregister (id : Str)

/-- A request that is answered with success. -/
inductive Step (lib : UriParser) : Table ρ → Event ρ → Table ρ → Prop
  | register {routes routes' request runtime} (checked : checkRegister lib request = .ok ())
      (config : request.config.validate = .ok ())
      (inserted : insertRoute routes ⟨request.id, request.route, request.config⟩ runtime =
        .ok routes') : Step lib routes (.register request runtime) routes'
  | unregister {routes routes' id} (removed : removeRoute routes id = .ok routes') :
      Step lib routes (.unregister id) routes'

/-- The routes of one running instance. -/
def system (lib : UriParser) (ρ : Type*) : System (Table ρ) (Event ρ) where
  init routes := routes = []
  step := Step lib

/-- No two routes share an agent id or a public route. -/
def Distinct (routes : Table ρ) : Prop :=
  routes.Pairwise fun a b => a.1.id ≠ b.1.id ∧ a.1.publicRoute ≠ b.1.publicRoute

theorem Distinct.insert {routes routes' : Table ρ} {key : RouteKey} {runtime : ρ}
    (h : Distinct routes) (inserted : insertRoute routes key runtime = .ok routes') :
    Distinct routes' ∧ (key, runtime) ∈ routes' ∧
      ∀ entry ∈ routes', entry ∈ routes ∨ entry = (key, runtime) := by
  unfold insertRoute at inserted
  split_ifs at inserted with hid hroute
  obtain rfl := Except.ok.inj inserted
  simp only [List.any_eq_true, decide_eq_true_eq, not_exists, not_and] at hid hroute
  refine ⟨List.pairwise_cons.mpr ⟨fun entry he => ?_, h.filter _⟩, List.mem_cons_self,
    fun entry he => ?_⟩
  · have old := (List.mem_filter.mp he).1
    exact ⟨fun heq => hid entry old heq.symm, fun heq => hroute entry old heq.symm⟩
  · rcases List.mem_cons.mp he with rfl | he
    · exact .inr rfl
    · exact .inl (List.mem_filter.mp he).1

theorem Distinct.remove {routes routes' : Table ρ} {id : Str} (h : Distinct routes)
    (removed : removeRoute routes id = .ok routes') : Distinct routes' ∧ routes' ⊆ routes := by
  unfold removeRoute at removed
  split at removed
  · simp at removed
  · obtain rfl := Except.ok.inj removed
    exact ⟨h.filter _, List.filter_subset_self _⟩

/-- Entries of a table are the same if their public routes are. -/
theorem Distinct.eq_of_route {routes : Table ρ} (h : Distinct routes) {a b : RouteKey × ρ}
    (ha : a ∈ routes) (hb : b ∈ routes) (hr : a.1.publicRoute = b.1.publicRoute) : a = b := by
  by_contra hne
  have symm : Std.Symm fun a b : RouteKey × ρ =>
      a.1.id ≠ b.1.id ∧ a.1.publicRoute ≠ b.1.publicRoute :=
    ⟨fun _ _ h => ⟨h.1.symm, h.2.symm⟩⟩
  exact (h.forall ha hb hne).2 hr

/-- What holds of every reachable table. -/
structure Registered (routes : Table ρ) : Prop where
  distinct : Distinct routes
  valid : ∀ entry ∈ routes, entry.1.config.validate = .ok ()

theorem registered_reachable {lib : UriParser} {routes : Table ρ}
    (h : (system lib ρ).Reachable routes) : Registered routes := by
  refine h.invariant ?_ ?_
  · rintro _ rfl
    exact ⟨List.Pairwise.nil, by simp⟩
  · intro routes _ routes' _ ih step
    cases step with
    | register _ config inserted =>
      obtain ⟨distinct, -, entries⟩ := ih.distinct.insert inserted
      refine ⟨distinct, fun entry he => ?_⟩
      rcases entries entry he with he | rfl
      · exact ih.valid entry he
      · exact config
    | unregister removed =>
      obtain ⟨distinct, subset⟩ := ih.distinct.remove removed
      exact ⟨distinct, fun entry he => ih.valid entry (subset he)⟩

/-! ### Longest segment prefix -/

theorem routeMatches_iff {route path : Str} : routeMatches route path = true ↔
    ∃ suffix, path = route ++ suffix ∧ (suffix = [] ∨ suffix.head? = some '/') := by
  unfold routeMatches
  simp only [Bool.or_eq_true, decide_eq_true_eq, Option.any_eq_true, Str.stripPrefix_eq_some]
  constructor
  · rintro (rfl | ⟨suffix, rfl, slash⟩)
    · exact ⟨[], by simp⟩
    · exact ⟨suffix, rfl, .inr slash⟩
  · rintro ⟨suffix, rfl, rfl | slash⟩
    · exact .inl (by simp)
    · exact .inr ⟨suffix, rfl, slash⟩

/-- Routes that match one path and are of one length are the same. -/
theorem route_eq_of_len {a b path : Str} (ha : routeMatches a path) (hb : routeMatches b path)
    (hl : a.len = b.len) : a = b := by
  obtain ⟨s, hs, -⟩ := routeMatches_iff.mp ha
  obtain ⟨t, ht, -⟩ := routeMatches_iff.mp hb
  exact Str.prefix_eq (hs.symm.trans ht) hl

/-- An entry is selected if one matches, and it is one of the longest. -/
theorem selectRoute_cases (order : Table ρ) (path : Str) :
    (selectRoute order path = none ∧
      ∀ entry ∈ order, ¬routeMatches entry.1.publicRoute path) ∨
    ∃ best ∈ order, selectRoute order path = some best ∧ routeMatches best.1.publicRoute path ∧
      ∀ other ∈ order, routeMatches other.1.publicRoute path →
        other.1.publicRoute.len ≤ best.1.publicRoute.len := by
  have member : ∀ x, x ∈ (order.filter fun e => routeMatches e.1.publicRoute path).reverse ↔
      x ∈ order ∧ routeMatches x.1.publicRoute path := by
    intro x
    rw [List.mem_reverse, List.mem_filter]
  cases best_ : selectRoute order path with
  | none =>
    refine .inl ⟨rfl, fun entry he hm => ?_⟩
    have some_ := List.isSome_maxOn?_of_mem
      (f := fun e : RouteKey × ρ => e.1.publicRoute.len) ((member entry).mpr ⟨he, hm⟩)
    rw [selectRoute] at best_
    simp [best_] at some_
  | some best =>
    rw [selectRoute] at best_
    obtain ⟨hb, hm⟩ := (member best).mp (List.maxOn?_mem best_)
    refine .inr ⟨best, hb, rfl, hm, fun other ho hmo => ?_⟩
    have ge := List.le_apply_get_maxOn?_of_mem
      (f := fun e : RouteKey × ρ => e.1.publicRoute.len) ((member other).mpr ⟨ho, hmo⟩)
    simpa only [best_, Option.get_some] using ge

/-- The entry with the longest matching route is selected, whatever the order of iteration. -/
theorem selectRoute_eq {routes order : Table ρ} (h : Distinct routes) (ho : order.Perm routes)
    {entry : RouteKey × ρ} (he : entry ∈ routes) {path : Str}
    (hm : routeMatches entry.1.publicRoute path)
    (longest : ∀ other ∈ routes, routeMatches other.1.publicRoute path →
      other.1.publicRoute.len ≤ entry.1.publicRoute.len) :
    selectRoute order path = some entry := by
  rcases selectRoute_cases order path with ⟨-, none_⟩ | ⟨best, hb, selected, hbm, ge⟩
  · exact absurd hm (none_ entry (ho.mem_iff.mpr he))
  · have hb' := ho.mem_iff.mp hb
    have same := route_eq_of_len hbm hm
      (Nat.le_antisymm (longest best hb' hbm) (ge entry (ho.mem_iff.mpr he) hm))
    rw [selected, h.eq_of_route hb' he same]

/-- The URI that `rewrite_route_prefix` leaves of one with this suffix after the route. -/
def rewritten (suffix : Str) (query : Option Str) : Uri :=
  ⟨none, none, if suffix = [] then str "/" else suffix, query⟩

theorem rewriteRoutePrefix_eq {lib : UriParser} (hlib : lib.Characterwise)
    {request : HttpRequest β} {route suffix : Str} (hpath : request.uri.path = route ++ suffix)
    (slash : suffix = [] ∨ suffix.head? = some '/')
    (huri : lib.Accepts request.uri.path request.uri.query) :
    rewriteRoutePrefix lib request route =
      .ok { request with uri := rewritten suffix request.uri.query } := by
  have accepted : lib.Accepts (if suffix = [] then str "/" else suffix) request.uri.query := by
    split_ifs with empty
    · exact hlib.root _ _ huri
    · exact hlib.tail route _ _ (hpath ▸ huri) (slash.resolve_left empty)
  unfold UriParser.Accepts at accepted
  have kept : (suffix = [] || suffix.head? = some '/') = true := by simpa using slash
  simp only [rewriteRoutePrefix, hpath, Str.stripPrefix_append, Option.filter, kept, accepted,
    rewritten, ite_true]

/-- The runtime behind the longest matching route gets the request, without the route. -/
theorem dispatch_longest {lib : UriParser} (hlib : lib.Characterwise) {routes order : Table ρ}
    (h : Distinct routes) (ho : order.Perm routes) {entry : RouteKey × ρ} (he : entry ∈ routes)
    {request : HttpRequest β} {suffix : Str}
    (hpath : request.uri.path = entry.1.publicRoute ++ suffix)
    (slash : suffix = [] ∨ suffix.head? = some '/')
    (longest : ∀ other ∈ routes, routeMatches other.1.publicRoute request.uri.path →
      other.1.publicRoute.len ≤ entry.1.publicRoute.len)
    (huri : lib.Accepts request.uri.path request.uri.query) :
    dispatchInstance lib .running order request =
      .routed entry.2 { request with uri := rewritten suffix request.uri.query } := by
  have hm := routeMatches_iff.mpr ⟨suffix, hpath, slash⟩
  simp [dispatchInstance, selectRoute_eq h ho he hm longest,
    rewriteRoutePrefix_eq hlib hpath slash huri]

/-- The other route is longer than `key`'s, and takes the requests for this path. -/
def TakesOver (routes : Table ρ) (key : RouteKey) (path : Str) (other : RouteKey × ρ) : Prop :=
  other ∈ routes ∧ routeMatches other.1.publicRoute path ∧
    key.publicRoute.len < other.1.publicRoute.len

/-- A registered endpoint is served by its own registration unless longer public routes match it,
of which the longest one takes it over. -/
theorem endpoint_dispatch {lib : UriParser} (hlib : lib.Characterwise) {routes order : Table ρ}
    (h : (system lib ρ).Reachable routes) (ho : order.Perm routes) {key : RouteKey} {runtime : ρ}
    (hr : (key, runtime) ∈ routes) {e : Str} (he : e ∈ key.config.endpoints)
    {request : HttpRequest β} (hpath : request.uri.path = key.publicRoute ++ e)
    (huri : lib.Accepts request.uri.path request.uri.query) :
    ((∀ other, ¬TakesOver routes key request.uri.path other) →
      dispatchInstance lib .running order request =
        .routed runtime { request with uri := ⟨none, none, e, request.uri.query⟩ }) ∧
    ∀ other, TakesOver routes key request.uri.path other →
      (∀ o, TakesOver routes key request.uri.path o →
        o.1.publicRoute.len ≤ other.1.publicRoute.len) →
      ∃ suffix, key.publicRoute ++ e = other.1.publicRoute ++ suffix ∧
        dispatchInstance lib .running order request =
          .routed other.2 { request with uri := rewritten suffix request.uri.query } := by
  have reg := registered_reachable h
  obtain ⟨rest, slash⟩ := RouteConfig.endpoint_slash (reg.valid _ hr) he
  constructor
  · intro alone
    have longest : ∀ other ∈ routes, routeMatches other.1.publicRoute request.uri.path →
        other.1.publicRoute.len ≤ key.publicRoute.len := by
      intro other ho hm
      exact Nat.not_lt.mp fun hlt => alone other ⟨ho, hm, hlt⟩
    have served :=
      dispatch_longest hlib reg.distinct ho hr hpath (.inr (by simp [slash])) longest huri
    simpa [rewritten, slash] using served
  · intro other takes longest
    obtain ⟨hmem, hm, hlt⟩ := takes
    obtain ⟨suffix, hs, hslash⟩ := routeMatches_iff.mp hm
    refine ⟨suffix, hpath.symm.trans hs,
      dispatch_longest hlib reg.distinct ho hmem hs hslash ?_ huri⟩
    intro o ho hmo
    by_cases longer : key.publicRoute.len < o.1.publicRoute.len
    · exact longest o ⟨ho, hmo, longer⟩
    · omega

/-! ### Nested routes -/

def splitQuery : Str → Str × Option Str
  | [] => ([], none)
  | c :: s => if c = '?' then ([], some s) else (c :: (splitQuery s).1, (splitQuery s).2)

theorem splitQuery_joinQuery {path : Str} (h : '?' ∉ path) (query : Option Str) :
    splitQuery (joinQuery path query) = (path, query) := by
  induction path with
  | nil => cases query <;> simp [joinQuery, splitQuery]
  | cons c path ih =>
    have hc : c ≠ '?' := fun hc => h (hc ▸ List.mem_cons_self)
    have split := ih fun hq => h (List.mem_cons_of_mem c hq)
    cases query <;> simp_all [joinQuery, splitQuery]

theorem splitQuery_path (s : Str) : '?' ∉ (splitQuery s).1 := by
  induction s with
  | nil => simp [splitQuery]
  | cons c s ih =>
    unfold splitQuery
    split_ifs with hc
    · simp
    · simpa [Ne.symm hc] using ih

/-- A parser that only looks for the query. -/
def plainUri : UriParser where
  uri s := .ok ⟨none, none, (splitQuery s).1, (splitQuery s).2⟩
  pathAndQuery s := .ok (splitQuery s)

theorem plainUri_accepts {path : Str} {query : Option Str} :
    plainUri.Accepts path query ↔ '?' ∉ path := by
  constructor
  · intro h
    have split : splitQuery (joinQuery path query) = (path, query) := Except.ok.inj h
    simpa [split] using splitQuery_path (joinQuery path query)
  · intro h
    exact congrArg Except.ok (splitQuery_joinQuery h query)

theorem plainUri_characterwise : plainUri.Characterwise where
  tail front path query h _ := by
    rw [plainUri_accepts] at h ⊢
    exact fun hq => h (List.mem_append_right front hq)
  root _ _ _ := plainUri_accepts.mpr (by decide)

/-- A registration of an agent with the default configuration. -/
def registration (id route : Str) : RegisterRequest := ⟨str "work", id, route, .default, false, []⟩

def outerKey : RouteKey := ⟨str "a", str "/agent", .default⟩
def nestedKey : RouteKey := ⟨str "b", str "/agent/acp", .default⟩

def acpRequest : HttpRequest Unit := ⟨⟨none, none, str "/agent/acp", none⟩, ()⟩

theorem reachable_outer : (system plainUri Bool).Reachable [(outerKey, false)] :=
  .step (a := Event.register (registration (str "a") (str "/agent")) false) (.init rfl)
    (.register (by decide) (by decide) (by decide))

theorem reachable_nested :
    (system plainUri Bool).Reachable [(nestedKey, true), (outerKey, false)] :=
  .step (a := Event.register (registration (str "b") (str "/agent/acp")) true) reachable_outer
    (.register (by decide) (by decide) (by decide))

def healthRequest : HttpRequest Unit := ⟨⟨none, none, str "/agent/health", none⟩, ()⟩

/-- The outer route keeps its health endpoint and loses its ACP endpoint. -/
theorem endpoint_dispatch_nested :
    dispatchInstance plainUri .running [(nestedKey, true), (outerKey, false)] healthRequest =
        .routed false { healthRequest with uri := ⟨none, none, str "/health", none⟩ } ∧
      ∃ suffix, str "/agent/acp" = str "/agent/acp" ++ suffix ∧
        dispatchInstance plainUri .running [(nestedKey, true), (outerKey, false)] acpRequest =
          .routed true { acpRequest with uri := rewritten suffix none } := by
  have outer : (outerKey, false) ∈ [(nestedKey, true), (outerKey, false)] := by decide
  refine ⟨(endpoint_dispatch plainUri_characterwise reachable_nested (.refl _) outer
    (e := str "/health") (by decide) (by decide) (plainUri_accepts.mpr (by decide))).1 ?_,
    (endpoint_dispatch plainUri_characterwise reachable_nested (.refl _) outer
      (e := str "/acp") (by decide) (by decide) (plainUri_accepts.mpr (by decide))).2
      (nestedKey, true) ⟨by decide, by decide, by decide⟩ ?_⟩
  · rintro other ⟨there, matches_, longer⟩
    rcases List.mem_pair.mp there with rfl | rfl
    · exact absurd matches_ (by decide)
    · exact absurd longer (by decide)
  · rintro other ⟨there, -, -⟩
    rcases List.mem_pair.mp there with rfl | rfl <;> decide

/-- A later registration below an earlier one's ACP endpoint takes that endpoint over. -/
theorem nested_route_takes_over : ∃ routes : Table Bool, (system plainUri Bool).Reachable routes ∧
    (outerKey, false) ∈ routes ∧ str "/acp" ∈ outerKey.config.endpoints ∧
    acpRequest.uri.path = outerKey.publicRoute ++ str "/acp" ∧
    plainUri.Accepts acpRequest.uri.path acpRequest.uri.query ∧
    dispatchInstance plainUri .running routes acpRequest =
      .routed true { acpRequest with uri := ⟨none, none, str "/", none⟩ } :=
  ⟨_, reachable_nested, by decide, by decide, by decide, plainUri_accepts.mpr (by decide),
    by decide⟩

end AcpAgent.Server.Routes
