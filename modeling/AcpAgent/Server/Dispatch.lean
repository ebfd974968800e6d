import AcpAgent.Server.Routes

/-! What a public request meets in `server/routes.rs`: which registration `dispatch_instance` picks,
and what `rewrite_route_prefix` leaves of the request. -/

namespace AcpAgent.Server.Routes

open Transition

variable {ρ β : Type*} {lib : UriParser} {routes order : Table ρ} {request : HttpRequest β}

/-! ### Longest segment prefix -/

/-- The path is the route, or starts with the route and a slash. -/
def SegmentPrefix (route path : Str) : Prop := path = route ∨ route ++ ['/'] <+: path

theorem routeMatches_iff_segmentPrefix {route path : Str} :
    routeMatches route path = true ↔ SegmentPrefix route path := by
  rw [routeMatches_iff]
  constructor
  · rintro ⟨suffix, rfl, rfl | slash⟩
    · exact .inl (List.append_nil route)
    · obtain ⟨rest, rfl⟩ := List.head?_eq_some_iff.mp slash
      exact .inr ⟨rest, by simp⟩
  · rintro (rfl | ⟨rest, rfl⟩)
    · exact ⟨[], by simp⟩
    · exact ⟨'/' :: rest, by simp⟩

/-- The one registration whose route is a segment prefix of the path and longer than all others
that are. -/
structure LongestMatch (routes : Table ρ) (path : Str) (entry : RouteKey × ρ) : Prop where
  mem : entry ∈ routes
  segments : SegmentPrefix entry.1.publicRoute path
  longest : ∀ other ∈ routes, SegmentPrefix other.1.publicRoute path → other ≠ entry →
    other.1.publicRoute.len < entry.1.publicRoute.len

theorem LongestMatch.unique {path : Str} {a b : RouteKey × ρ} (ha : LongestMatch routes path a)
    (hb : LongestMatch routes path b) : a = b := by
  by_contra ne
  have longer := ha.longest b hb.mem hb.segments (Ne.symm ne)
  have longer' := hb.longest a ha.mem ha.segments ne
  omega

/-- Different routes that match one path are not of one length. -/
theorem longestMatch_exists (h : Distinct routes) {path : Str}
    (some_ : ∃ entry ∈ routes, SegmentPrefix entry.1.publicRoute path) :
    ∃ entry, LongestMatch routes path entry := by
  obtain ⟨entry, he, hm⟩ := some_
  rcases selectRoute_cases routes path with ⟨-, none_⟩ | ⟨best, hb, -, hbm, ge⟩
  · exact absurd (routeMatches_iff_segmentPrefix.mpr hm) (none_ entry he)
  · refine ⟨best, hb, routeMatches_iff_segmentPrefix.mp hbm, fun other ho hmo ne => ?_⟩
    have hmo' := routeMatches_iff_segmentPrefix.mpr hmo
    apply lt_of_le_of_ne (ge other ho hmo')
    intro same
    exact ne (h.eq_of_route ho hb (route_eq_of_len hmo' hbm same))

theorem validateRoute_slash {route : Str} (h : validateRoute lib route = .ok ()) :
    route.head? = some '/' := by
  unfold validateRoute at h
  split_ifs at h with bad
  push Not at bad
  exact bad.1

theorem invalidInput_ok {check : Except Str Unit} :
    invalidInput check = .ok () ↔ check = .ok () := by
  cases check with
  | error => simp [invalidInput, Except.mapError]
  | ok => exact iff_of_true rfl rfl

theorem checkRegister_route {request : RegisterRequest} (h : checkRegister lib request = .ok ()) :
    validateRoute lib request.route = .ok () := by
  unfold checkRegister at h
  cases name : invalidInput (validateName request.name) with
  | error => simp [name, bind, Except.bind] at h
  | ok =>
    rw [name] at h
    cases id_ : validateAgentId request.id with
    | false => simp [id_, bind, Except.bind] at h
    | true =>
      rw [id_] at h
      exact invalidInput_ok.mp h

theorem route_slash_reachable (h : (system lib ρ).Reachable routes) :
    ∀ entry ∈ routes, entry.1.publicRoute.head? = some '/' := by
  apply h.invariant (I := fun routes => ∀ entry ∈ routes, entry.1.publicRoute.head? = some '/')
  · rintro _ rfl
    exact List.forall_mem_nil _
  · intro routes _ routes' reachable ih step
    have distinct := (registered_reachable reachable).distinct
    cases step with
    | register checked _ inserted =>
      obtain ⟨-, -, entries⟩ := distinct.insert inserted
      intro entry he
      rcases entries entry he with he | rfl
      · exact ih entry he
      · exact validateRoute_slash (checkRegister_route checked)
    | unregister removed =>
      obtain ⟨-, subset⟩ := distinct.remove removed
      exact fun entry he => ih entry (subset he)

structure Strips (route : Str) (request rewritten : HttpRequest β) : Prop where
  root : request.uri.path = route → rewritten.uri.path = str "/"
  suffix : request.uri.path ≠ route → route ++ rewritten.uri.path = request.uri.path
  query : rewritten.uri.query = request.uri.query

/-- The answer of a running instance, whose map lists its routes in this order. -/
structure Dispatches (lib : UriParser) (routes order : Table ρ) (request : HttpRequest β) :
    Prop where
  notFound_iff : dispatchInstance lib .running order request = .notFound ↔
    ∀ entry ∈ routes, ¬SegmentPrefix entry.1.publicRoute request.uri.path
  unique : (∃ entry ∈ routes, SegmentPrefix entry.1.publicRoute request.uri.path) →
    ∃! entry, LongestMatch routes request.uri.path entry
  routed : ∀ entry, LongestMatch routes request.uri.path entry → ∃ rewritten,
    rewriteRoutePrefix lib request entry.1.publicRoute = .ok rewritten ∧
    Strips entry.1.publicRoute request rewritten ∧
    dispatchInstance lib .running order request = .routed entry.2 rewritten

theorem strips_rewritten {route suffix : Str} (path : request.uri.path = route ++ suffix) :
    Strips route request { request with uri := rewritten suffix request.uri.query } := by
  refine ⟨fun whole => ?_, fun more => ?_, rfl⟩
  · have suffix_nil : suffix = [] := by simpa [whole] using path
    rw [suffix_nil]
    rfl
  · have suffix_ne : suffix ≠ [] := by
      rintro rfl
      exact more (by simpa using path)
    simp [rewritten, suffix_ne, path]

theorem dispatches (hlib : lib.Characterwise) (h : (system lib ρ).Reachable routes)
    (ho : order.Perm routes)
    (huri : request.uri.path ≠ [] → lib.Accepts request.uri.path request.uri.query) :
    Dispatches lib routes order request := by
  have distinct := (registered_reachable h).distinct
  have routed : ∀ entry, LongestMatch routes request.uri.path entry → ∃ rewritten,
      rewriteRoutePrefix lib request entry.1.publicRoute = .ok rewritten ∧
      Strips entry.1.publicRoute request rewritten ∧
      dispatchInstance lib .running order request = .routed entry.2 rewritten := by
    intro entry best
    have hm := routeMatches_iff_segmentPrefix.mpr best.segments
    obtain ⟨suffix, path, slash⟩ := routeMatches_iff.mp hm
    have path_ne : request.uri.path ≠ [] := by
      intro empty
      have route_nil : entry.1.publicRoute = [] := by
        rw [empty, List.nil_eq_append_iff] at path
        exact path.1
      have slash_ := route_slash_reachable h entry best.mem
      simp [route_nil] at slash_
    refine ⟨_, rewriteRoutePrefix_eq hlib path slash (huri path_ne), strips_rewritten path, ?_⟩
    refine dispatch_longest hlib distinct ho best.mem path slash (fun other hother hmo => ?_)
      (huri path_ne)
    by_cases same : other = entry
    · rw [same]
    · exact (best.longest other hother (routeMatches_iff_segmentPrefix.mp hmo) same).le
  have unique : (∃ entry ∈ routes, SegmentPrefix entry.1.publicRoute request.uri.path) →
      ∃! entry, LongestMatch routes request.uri.path entry := by
    intro some_
    obtain ⟨entry, best⟩ := longestMatch_exists distinct some_
    exact ⟨entry, best, fun other best' => best'.unique best⟩
  refine ⟨⟨fun notFound entry he hm => ?_, fun none_ => ?_⟩, unique, routed⟩
  · obtain ⟨best, longest, -⟩ := unique ⟨entry, he, hm⟩
    obtain ⟨rewritten, -, -, answer⟩ := routed best longest
    rw [notFound] at answer
    cases answer
  · rcases selectRoute_cases order request.uri.path with ⟨missed, -⟩ | ⟨best, hb, -, hm, -⟩
    · simp [dispatchInstance, missed]
    · exact absurd (routeMatches_iff_segmentPrefix.mp hm) (none_ best (ho.mem_iff.mp hb))

/-- A running instance dispatches to the longest segment prefix, and any other answers 503. -/
theorem dispatch_instance_answers (hlib : lib.Characterwise)
    (h : (system lib ρ).Reachable routes) (ho : order.Perm routes)
    (huri : request.uri.path ≠ [] → lib.Accepts request.uri.path request.uri.query) :
    Dispatches lib routes order request ∧
    ∀ state, state ≠ .running → dispatchInstance lib state order request = .unavailable := by
  refine ⟨dispatches hlib h ho huri, fun state stopping => ?_⟩
  rw [dispatchInstance, if_pos stopping]

theorem dispatch_instance_answers_nested :
    Dispatches plainUri [(nestedKey, true), (outerKey, false)]
      [(outerKey, false), (nestedKey, true)] acpRequest ∧
    ∀ state, state ≠ .running → dispatchInstance plainUri state
      [(outerKey, false), (nestedKey, true)] acpRequest = .unavailable :=
  dispatch_instance_answers plainUri_characterwise reachable_nested (.swap ..)
    fun _ => plainUri_accepts.mpr (by decide)

/-- An instance that is stopping does not look for a route. -/
theorem stopping_not_404 : ∃ routes : Table Bool, (system plainUri Bool).Reachable routes ∧
    (∀ entry ∈ routes, ¬SegmentPrefix entry.1.publicRoute acpRequest.uri.path) ∧
    dispatchInstance plainUri .stopping routes acpRequest ≠ .notFound :=
  ⟨[], .init rfl, List.forall_mem_nil _, by decide⟩

/-! ### What is left of a request -/

/-- The request that is left differs in the path of its URI only, exactly if its URI has neither a
scheme nor an authority. -/
theorem rewrite_frame_iff (hlib : lib.Characterwise) {route : Str}
    (hm : routeMatches route request.uri.path)
    (huri : lib.Accepts request.uri.path request.uri.query) :
    (∃ path, rewriteRoutePrefix lib request route =
      .ok { request with uri := { request.uri with path } }) ↔
    request.uri.scheme = none ∧ request.uri.authority = none := by
  obtain ⟨suffix, path, slash⟩ := routeMatches_iff.mp hm
  rw [rewriteRoutePrefix_eq hlib path slash huri]
  constructor
  · rintro ⟨path, same⟩
    have uri := congrArg HttpRequest.uri (Except.ok.inj same)
    exact ⟨(congrArg Uri.scheme uri).symm, (congrArg Uri.authority uri).symm⟩
  · rintro ⟨scheme, authority⟩
    exact ⟨(rewritten suffix request.uri.query).path, by simp [rewritten, scheme, authority]⟩

theorem rewrite_frame_iff_origin :
    (∃ path, rewriteRoutePrefix plainUri acpRequest (str "/agent") =
      .ok { acpRequest with uri := { acpRequest.uri with path } }) ↔
    acpRequest.uri.scheme = none ∧ acpRequest.uri.authority = none :=
  rewrite_frame_iff plainUri_characterwise (by decide) (plainUri_accepts.mpr (by decide))

def absoluteRequest : HttpRequest Unit :=
  ⟨⟨some (str "http"), some (str "example.com"), str "/agent/acp", none⟩, ()⟩

theorem authority_lost : routeMatches (str "/agent") absoluteRequest.uri.path ∧
    plainUri.Accepts absoluteRequest.uri.path absoluteRequest.uri.query ∧
    ¬∃ path, rewriteRoutePrefix plainUri absoluteRequest (str "/agent") =
      .ok { absoluteRequest with uri := { absoluteRequest.uri with path } } := by
  refine ⟨by decide, plainUri_accepts.mpr (by decide), ?_⟩
  rintro ⟨path, same⟩
  have left : rewriteRoutePrefix plainUri absoluteRequest (str "/agent") =
      .ok { absoluteRequest with uri := ⟨none, none, str "/acp", none⟩ } := by decide
  rw [left] at same
  cases same

end AcpAgent.Server.Routes
