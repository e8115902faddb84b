import S000.Foundations.Mux
import S000.Foundations.Sha256
import S000.Server.Gate

/-!
# Server/Routes — the handler `NewHandler` builds

A request passes the gate, then the rate limiter, then the multiplexer.  Two classifiers look at
its path: the middleware compares the *decoded* path with a few prefixes (`shouldBypassAuth`), the
multiplexer matches the segments of the *escaped* path.

`rootDelivery_granted_iff` says when the two agree: a request that reaches the `/` route was let in
by the gate, unless its path only looks like one of the routes that need no credentials.
-/

namespace S000

open Strings Mux List

/-! ## The routes -/

/-- The handlers `NewHandler` registers. -/
inductive Route
  | healthz
  | readyz
  /-- The web interface, which keeps its own sessions. -/
  | web
  | metrics
  | lifecycleConfig
  | lifecycleMetrics
  /-- `websiteOrS3Handler`. -/
  | root
deriving DecidableEq

def Options.metricsPattern (opts : Options) : Bytes :=
  if opts.metricsPath = [] then str "/metrics" else opts.metricsPath

/-- The patterns `NewHandler` registers, in order. -/
def patterns (opts : Options) : List (Bytes × Route) :=
  [(str "/healthz", .healthz), (str "/readyz", .readyz), (str "/app", .web), (str "/app/", .web),
    (str "/assets/", .web), (opts.metricsPattern, .metrics),
    (str "/debug/lifecycle/config", .lifecycleConfig),
    (str "/debug/lifecycle/metrics", .lifecycleMetrics), (str "/", .root)]

/-- The multiplexer of `NewHandler`; `none` where registering the metrics path panics. -/
def newMux (opts : Options) : Option (List (Pattern × Route)) := register [] (patterns opts)

/-- What becomes of a request. -/
inductive Delivery
  /-- Answered by the gate or the rate limiter. -/
  | rejected (spec : S3ErrorSpec)
  /-- Handed to the multiplexer. -/
  | routed (result : Routed Route) (r : Request)

/-- `withRateLimit` and the multiplexer behind it; `inFlight` requests are being served. -/
def limited (opts : Options) (mux : List (Pattern × Route)) (inFlight : ℤ) (r : Request) :
    Delivery :=
  let maxInFlight := if opts.maxInFlight ≤ 0 then 128 else opts.maxInFlight
  if shouldBypassGuards r.url.path opts.metricsPath ∨ inFlight < maxInFlight then
    .routed (route mux r.method r.host r.requestURI r.url) r
  else .rejected ⟨503, "SlowDown", "Please reduce your request rate.", r.url.path⟩

variable (P : Platform)

/-- **The handler of `NewHandler`**, up to the call of a route's handler.  The middleware around
the gate (request id, tracing, recovery, log) hands every request on. -/
def serve (opts : Options) (mux : List (Pattern × Route)) (now : Time) (inFlight : ℤ)
    (r : Request) : Delivery :=
  match (withAuthGate P opts now r).outcome with
  | .rejected spec => .rejected spec
  | .bypassed => limited opts mux inFlight r
  | .admitted _ r' => limited opts mux inFlight r'

/-! ## Which requests reach the `/` route -/

/-- The segments of a path belong to one of the fixed routes other than `/`. -/
def ownedByFixedRoute (segs : List Bytes) : Bool :=
  segs = [str "healthz"] || segs = [str "readyz"] || segs.head? = some (str "app") ||
    (segs.head? = some (str "assets") && 2 ≤ segs.length) ||
    segs = [str "debug", str "lifecycle", str "config"] ||
    segs = [str "debug", str "lifecycle", str "metrics"]

/-- The request is matched by one of the routes other than `/`: a fixed one, or the metrics
pattern. -/
def ownedByOtherRoute (opts : Options) (r : Request) : Bool :=
  let (host, path) := matched r.method r.host r.url
  ownedByFixedRoute (pathSegments path) ||
    (parsePattern opts.metricsPattern).any fun p => p.applies host r.method path

variable {opts : Options} {mux : List (Pattern × Route)}

/-- The pattern of a path, for any host and method. -/
def exactly (lits : List Bytes) : Pattern := ⟨[], [], lits.map .lit⟩

/-- The pattern of what lies below a path element, for any host and method. -/
def below (a : Bytes) : Pattern := ⟨[], [], [.lit a, .multi]⟩

/-- The registered patterns, parsed: `p` is the metrics pattern. -/
def registered (p : Pattern) : List (Pattern × Route) :=
  [(exactly [str "healthz"], .healthz), (exactly [str "readyz"], .readyz),
    (exactly [str "app"], .web), (below (str "app"), .web), (below (str "assets"), .web),
    (p, .metrics), (exactly [str "debug", str "lifecycle", str "config"], .lifecycleConfig),
    (exactly [str "debug", str "lifecycle", str "metrics"], .lifecycleMetrics), (catchAll, .root)]

variable {p q : Pattern}

theorem root_mem_registered : (q, .root) ∈ registered p ↔ q = catchAll := by simp [registered]

theorem metrics_mem_registered : (q, .metrics) ∈ registered p ↔ q = p := by simp [registered]

theorem mapM_parseEntry_patterns (opts : Options) : (patterns opts).mapM parseEntry =
    (parsePattern opts.metricsPattern).map registered := by
  have h₁ : parseEntry (str "/healthz", Route.healthz) = some (_, _) := rfl
  have h₂ : parseEntry (str "/readyz", Route.readyz) = some (_, _) := rfl
  have h₃ : parseEntry (str "/app", Route.web) = some (_, _) := rfl
  have h₄ : parseEntry (str "/app/", Route.web) = some (_, _) := rfl
  have h₅ : parseEntry (str "/assets/", Route.web) = some (_, _) := rfl
  have h₆ : parseEntry (str "/debug/lifecycle/config", Route.lifecycleConfig) = some (_, _) := rfl
  have h₇ : parseEntry (str "/debug/lifecycle/metrics", Route.lifecycleMetrics) = some (_, _) := rfl
  have h₈ : parseEntry (str "/", Route.root) = some (catchAll, .root) := rfl
  have hp : parseEntry (opts.metricsPattern, Route.metrics) =
      (parsePattern opts.metricsPattern).map (·, .metrics) := rfl
  simp only [patterns, mapM_cons, hp]
  cases parsePattern opts.metricsPattern <;> rfl

/-- `NewHandler` registers its patterns, and the metrics pattern is not the catch-all. -/
theorem newMux_eq (h : newMux opts = some mux) : ∃ p, parsePattern opts.metricsPattern = some p ∧
    mux = registered p ∧ catchAll.conflictsWith p = false := by
  obtain ⟨new, rfl, hmap, hpw⟩ := register_spec h .nil
  rw [mapM_parseEntry_patterns] at hmap
  obtain ⟨p, hp, rfl⟩ := Option.map_eq_some_iff.1 hmap
  refine ⟨p, hp, rfl, ?_⟩
  simp only [registered, pairwise_cons] at hpw
  exact hpw.2.2.2.2.2.1 (catchAll, .root) (by simp)

theorem covers_lits : ∀ (lits segs : List Bytes), (∀ a ∈ lits, a ≠ []) →
    (covers (lits.map .lit) segs = true ↔ segs = lits)
  | [], [], _ => by simp [covers]
  | [], _ :: _, _ => by simp [covers]
  | _ :: _, [], _ => by simp [covers]
  | a :: lits, s :: segs, h => by
    have ha : a ≠ [] := h a mem_cons_self
    have ih := covers_lits lits segs fun b hb => h b (mem_cons_of_mem a hb)
    simp only [map_cons, covers, if_neg ha, Bool.and_eq_true, decide_eq_true_eq, ih, cons.injEq]
    exact and_congr_left' eq_comm

theorem exactly_applies {lits : List Bytes} (h : ∀ a ∈ lits, a ≠ []) (host method path : Bytes) :
    (exactly lits).applies host method path = true ↔ pathSegments path = lits := by
  rw [← covers_lits lits _ h]
  simp [exactly, Pattern.applies]

theorem below_applies {a : Bytes} (ha : a ≠ []) (host method path : Bytes) :
    (below a).applies host method path = true ↔
      (pathSegments path).head? = some a ∧ 2 ≤ (pathSegments path).length := by
  simp only [below, Pattern.applies]
  rcases pathSegments path with - | ⟨s, - | ⟨t, rest⟩⟩ <;> simp [covers, ha, eq_comm]

/-- A fixed route other than `/` applies exactly where the segments of the path are its own. -/
theorem ownedByFixedRoute_iff (p : Pattern) (host method path : Bytes) :
    ownedByFixedRoute (pathSegments path) = true ↔
      ∃ e ∈ registered p, e.2 ≠ .root ∧ e.2 ≠ .metrics ∧ e.1.applies host method path = true := by
  have happ : ∀ segs, segs.head? = some (str "app") ↔
      segs = [str "app"] ∨ segs.head? = some (str "app") ∧ 2 ≤ segs.length := by
    rintro (- | ⟨s, - | ⟨t, rest⟩⟩) <;> simp
  simp only [registered, mem_cons, not_mem_nil, or_false, exists_eq_or_imp, exists_eq_left]
  rw [exactly_applies (by decide), exactly_applies (by decide), exactly_applies (by decide),
    exactly_applies (by decide), exactly_applies (by decide), below_applies (by decide),
    below_applies (by decide)]
  simp only [ownedByFixedRoute, Bool.or_eq_true, Bool.and_eq_true, decide_eq_true_eq]
  rw [happ]
  simp only [ne_eq, reduceCtorEq, not_false_eq_true, not_true_eq_false, true_and, false_and]
  tauto

/-- …so the multiplexer selects `/` exactly where no other route owns the request. -/
theorem find_eq_root_iff_not_owned (hp : parsePattern opts.metricsPattern = some p)
    (hconf : catchAll.conflictsWith p = false) (r : Request) :
    find (registered p) (matched r.method r.host r.url).1 r.method
        (matched r.method r.host r.url).2 = some (catchAll, .root) ↔
      (matched r.method r.host r.url).2 ≠ [] ∧ ownedByOtherRoute opts r = false := by
  have hroot : (catchAll, Route.root) ∈ registered p := root_mem_registered.2 rfl
  -- only the metrics pattern could be a second catch-all, and then it would be in conflict
  have hother : ∀ e ∈ registered p, e ≠ (catchAll, .root) → e.1.host = [] → e.1.method = [] →
      e.1.segments.head? ≠ some .multi := by
    have hmetrics : p.host = [] → p.method = [] → p.segments.head? ≠ some .multi := by
      intro hh hm hs
      have hcatch : p = catchAll :=
        calc p = ⟨p.method, p.host, p.segments⟩ := rfl
          _ = catchAll := by rw [hm, hh, parsePattern_head_multi hp hs]; rfl
      rw [hcatch] at hconf
      exact absurd hconf (by decide)
    simpa [registered, exactly, below] using hmetrics
  rw [find_eq_root_iff hroot hother]
  refine and_congr_right fun _ => ?_
  rw [← Bool.not_eq_true, ownedByOtherRoute, hp]
  simp only [Bool.or_eq_true, Option.any_some]
  rw [ownedByFixedRoute_iff p (matched r.method r.host r.url).1 r.method]
  constructor
  · rintro h (⟨e, he, hne, -, hap⟩ | hap)
    · rw [h e he (by rintro rfl; exact hne rfl)] at hap
      cases hap
    · rw [h (p, .metrics) (metrics_mem_registered.2 rfl) (by simp)] at hap
      cases hap
  · rintro h ⟨q, a⟩ he hne
    by_contra hap
    rw [Bool.not_eq_false] at hap
    rcases eq_or_ne a .metrics with rfl | hm
    · exact h (.inr (metrics_mem_registered.1 he ▸ hap))
    refine h (.inl ⟨(q, a), he, ?_, hm, hap⟩)
    rintro rfl
    exact hne (by rw [root_mem_registered.1 he])

/-- **A request is handed to the `/` route** when the multiplexer neither answers nor redirects it
itself and no other route owns its path. -/
theorem route_eq_root_iff (h : newMux opts = some mux) (r : Request) :
    route mux r.method r.host r.requestURI r.url = .handler .root ↔
      r.requestURI ≠ str "*" ∧ redirected mux r.method r.host r.url = none ∧
      (matched r.method r.host r.url).2 ≠ [] ∧ ownedByOtherRoute opts r = false := by
  obtain ⟨p, hp, rfl, hconf⟩ := newMux_eq h
  rw [← find_eq_root_iff_not_owned hp hconf r]
  have hfound : ∀ host path, ofFound (find (registered p) host r.method path) = .handler .root ↔
      find (registered p) host r.method path = some (catchAll, .root) := by
    intro host path
    cases hf : find (registered p) host r.method path with
    | none => simp [ofFound]
    | some e =>
      obtain ⟨q, a⟩ := e
      simp only [ofFound, Routed.handler.injEq, Option.some.injEq, Prod.mk.injEq, iff_and_self]
      rintro rfl
      exact root_mem_registered.1 (applies_of_find hf).1
  by_cases huri : r.requestURI = str "*"
  · simp [route, huri]
  cases hred : redirected (registered p) r.method r.host r.url with
  | some path => simp [route, huri, hred]
  | none => simp [route, huri, hred, hfound]

/-! ## The `/` route and the gate -/

variable {P} {now : Time} {inFlight : ℤ}

theorem limited_cases (opts : Options) (mux : List (Pattern × Route)) (inFlight : ℤ) (r : Request) :
    limited opts mux inFlight r = .routed (route mux r.method r.host r.requestURI r.url) r ∨
      ∃ spec, limited opts mux inFlight r = .rejected spec := by
  by_cases h : shouldBypassGuards r.url.path opts.metricsPath ∨
      inFlight < if opts.maxInFlight ≤ 0 then 128 else opts.maxInFlight
  · exact .inl (if_pos h)
  · exact .inr ⟨_, if_neg h⟩

/-- A request that reaches a handler unchecked was on a bypassed path, and reaches the handler the
multiplexer selects for it. -/
theorem serve_of_bypass {r : Request} (h : shouldBypassAuth r.url.path opts.metricsPath = true) :
    serve P opts mux now inFlight r = .routed (route mux r.method r.host r.requestURI r.url) r := by
  have hgate : (withAuthGate P opts now r).outcome = .bypassed := by simp [withAuthGate, h]
  have hguards : shouldBypassGuards r.url.path opts.metricsPath = true := h
  simp [serve, hgate, limited, hguards]

theorem granted_of_serve {r r' : Request} {x : Routed Route}
    (hby : shouldBypassAuth r.url.path opts.metricsPath = false)
    (h : serve P opts mux now inFlight r = .routed x r') :
    x = route mux r'.method r'.host r'.requestURI r'.url ∧
      ∃ how, (withAuthGate P opts now r).outcome = .admitted how r' ∧ Grants P opts now r how r' := by
  rcases withAuthGate_cases with ⟨hby', -⟩ | ⟨-, ⟨spec, hrej⟩ | ⟨how, r'', hadm, hgr⟩⟩
  · rw [hby] at hby'
    cases hby'
  · rw [serve, hrej] at h
    cases h
  · have hlim : limited opts mux inFlight r'' = .routed x r' := by simpa only [serve, hadm] using h
    rcases limited_cases opts mux inFlight r'' with hl | ⟨spec, hl⟩ <;> rw [hl] at hlim <;> cases hlim
    exact ⟨rfl, how, hadm, hgr⟩

/-- **The `/` route and the gate agree** on a request, that is, it reaches the S3 API or the website
handler only if the gate let it in for one of its reasons, exactly when its path is not bypassed, or
the multiplexer answers it itself, or one of the routes that need no credentials owns its path. -/
theorem rootDelivery_granted_iff (hmux : newMux opts = some mux) (r : Request) :
    (∀ r', serve P opts mux now inFlight r = .routed (.handler .root) r' →
      ∃ how, (withAuthGate P opts now r).outcome = .admitted how r' ∧ Grants P opts now r how r') ↔
    (shouldBypassAuth r.url.path opts.metricsPath = true →
      r.requestURI = str "*" ∨ (redirected mux r.method r.host r.url).isSome = true ∨
        (matched r.method r.host r.url).2 = [] ∨ ownedByOtherRoute opts r = true) := by
  constructor
  · intro h hby
    by_contra hno
    simp only [not_or, Bool.not_eq_true, Option.isSome_eq_false_iff, Option.isNone_iff_eq_none]
      at hno
    have hroot := (route_eq_root_iff hmux r).2 hno
    obtain ⟨how, hadm, -⟩ := h r (by rw [serve_of_bypass hby, hroot])
    simp [withAuthGate, hby] at hadm
  · intro h r' hserve
    cases hby : shouldBypassAuth r.url.path opts.metricsPath with
    | false => exact (granted_of_serve hby hserve).2
    | true =>
      rw [serve_of_bypass hby] at hserve
      obtain ⟨hroute, rfl⟩ := Delivery.routed.inj hserve
      obtain ⟨huri, hred, hpath, howned⟩ := (route_eq_root_iff hmux r).1 hroute
      rcases h hby with h | h | h | h
      · exact absurd h huri
      · simp [hred] at h
      · exact absurd h hpath
      · simp [howned] at h

/-- A store with one bucket `b`, whose policy lets everyone read its objects. -/
def publicStore : StoreReads where
  getBucket b := if b = str "b" then .ok ⟨b, str "us-east-1", str "Suspended", 0⟩ else .error .notFound
  getBucketWebsite _ := .error .notFound
  getBucketPolicy b := .ok ⟨b, str ("\x7b\"Statement\":\x7b\"Effect\":\"Allow\"," ++
    "\"Principal\":\"*\",\"Action\":\"s3:GetObject\",\"Resource\":\"arn:aws:s3:::b/*\"\x7d\x7d"), true⟩
  getBucketPublicAccessBlock _ := .error .notFound

/-- An anonymous `GET` of the object `k` in `b`. -/
def anonymousGet (rawQuery : String) : Request :=
  { method := str "GET", url := { path := str "/b/k", rawQuery := str rawQuery } }

/-- The theorem at a read of an object, whose path no route but `/` owns: it reaches that route because
the policy of its bucket lets it in. -/
theorem bucketKey_granted :
    let opts : Options := { metadata := some publicStore }
    newMux opts = some (registered (exactly [str "metrics"])) ∧
    ∃ r', serve Sha256.platform opts (registered (exactly [str "metrics"])) 0 0 (anonymousGet "") =
        .routed (.handler .root) r' ∧
      ∃ how, (withAuthGate Sha256.platform opts 0 (anonymousGet "")).outcome = .admitted how r' ∧
        Grants Sha256.platform opts 0 (anonymousGet "") how r' := by
  intro opts
  have hmux : newMux opts = some (registered (exactly [str "metrics"])) := by decide
  have hroot := (route_eq_root_iff hmux ((anonymousGet "").withPrincipal (str "anonymous"))).2
    (by decide)
  have hserve : serve Sha256.platform opts (registered (exactly [str "metrics"])) 0 0
      (anonymousGet "") = .routed (.handler .root) ((anonymousGet "").withPrincipal (str "anonymous")) :=
    congrArg (Delivery.routed · _) hroot
  exact ⟨hmux, _, hserve,
    (rootDelivery_granted_iff hmux (anonymousGet "")).2 (fun h => absurd h (by decide)) _ hserve⟩

/-- **A bucket whose name starts with `app` is served unchecked.**  `/apple/key` has the prefix the
middleware lets pass, and the multiplexer takes it to `/`: no verifier is configured here, and the
request reaches the S3 API all the same. -/
theorem apple_served_unchecked : newMux {} = some (registered (exactly [str "metrics"])) ∧
    serve Sha256.platform {} (registered (exactly [str "metrics"])) 0 0
        { method := str "GET", url := { path := str "/apple/key" } } =
      .routed (.handler .root) { method := str "GET", url := { path := str "/apple/key" } } ∧
    (withAuthGate Sha256.platform {} 0
      { method := str "GET", url := { path := str "/apple/key" } }).outcome = .bypassed := by
  have hmux : newMux {} = some (registered (exactly [str "metrics"])) := by decide
  refine ⟨hmux, ?_, rfl⟩
  rw [serve_of_bypass (by decide), (route_eq_root_iff hmux _).2 (by decide)]

end S000
