import WsHyper.Lib.HeaderText
import WsHyper.Lib.Panic
import WsHyper.Utils.Host

/-!
# Origins that are allowed

A `Cors` layer compares the `Origin` of a request, byte by byte, with the texts it was
built with.  A browser sends an origin without a slash at its end, while the URL of a
host has one, so a layer that was given the URL never allows the origin of the host.
-/

namespace WsHyper.Utils

open WsHyper.Lib

structure HttpRequest (Body : Type) where
  method : Str
  headers : HeaderMap
  body : Body

structure HttpResponse (Body : Type) where
  status : Nat
  headers : HeaderMap
  body : Body

/-- `HeaderValue::from_str`. -/
def headerValueFromStr (text : Str) : Option HeaderValue :=
  if (HeaderValue.ofStr text).all fun b => (32 ≤ b ∧ b ≠ 127) ∨ b = 9 then
    some (HeaderValue.ofStr text)
  else none

abbrev Origin := List Str

/-- `none` is an `OriginError`. -/
def Origin.push (origins : Origin) (origin : Str) : Option Origin :=
  if origin = ['*'] then none else some (origins ++ [origin])

/-- The sets are lists, in the order in which they are gone through, which is not fixed. -/
structure CorsBuilder (T : Type) where
  allowOrigin : T
  allowMethods : List Str
  allowCredentials : Option Bool
  allowHeaders : List HeaderValue

structure CorsLayer where
  origin : List Str
  methods : Str
  headers : Str
  credential : Option Bool

structure Cors where
  origin : List Str
  methods : String × HeaderValue
  headers : String × HeaderValue
  credential : Option (String × HeaderValue)

namespace CorsBuilder

/-- Without origins, `CorsBuilder<Any>`. -/
def new : CorsBuilder Unit :=
  { allowOrigin := (), allowMethods := [], allowCredentials := none, allowHeaders := [] }

variable {T : Type}

def allowMethod (builder : CorsBuilder T) (method : Str) : CorsBuilder T :=
  { builder with allowMethods := builder.allowMethods.insert method }

def allowHeader (builder : CorsBuilder T) (key : HeaderValue) : CorsBuilder T :=
  { builder with allowHeaders := builder.allowHeaders.insert key }

def withOrigin (builder : CorsBuilder T) (origins : Origin) : CorsBuilder Origin :=
  { allowOrigin := origins
    allowMethods := builder.allowMethods
    allowCredentials := builder.allowCredentials
    allowHeaders := builder.allowHeaders }

/-- `allow_origin` of a builder without origins. -/
def allowFirstOrigin (builder : CorsBuilder Unit) (origin : Str) :
    Except Panic (CorsBuilder Origin) := do
  let origins ← unwrapResult (Origin.push [] origin)
  return builder.withOrigin origins

/-- `allow_origin` of a builder with origins. -/
def allowNextOrigin (builder : CorsBuilder Origin) (origin : Str) :
    Except Panic (CorsBuilder Origin) := do
  let origins ← unwrapResult (builder.allowOrigin.push origin)
  return builder.withOrigin origins

def credentials (builder : CorsBuilder Origin) (credentials : Bool) : CorsBuilder Origin :=
  { builder with allowCredentials := some credentials }

/-- The names in one text, `*` where there are none. -/
def joined (names : List Str) : Str :=
  let text := ", ".toList.intercalate names
  if text = [] then ['*'] else text

def build (builder : CorsBuilder Origin) : Except Panic CorsLayer := do
  let headers ← builder.allowHeaders.mapM fun header => unwrapResult header.toStr
  return {
    origin := builder.allowOrigin
    methods := joined builder.allowMethods
    headers := joined headers
    credential := builder.allowCredentials }

end CorsBuilder

def CorsLayer.intoLayer (layer : CorsLayer) : Except Panic Cors := do
  let methods ← unwrapResult (headerValueFromStr layer.methods)
  let headers ← unwrapResult (headerValueFromStr layer.headers)
  return {
    origin := layer.origin
    methods := ("access-control-allow-methods", methods)
    headers := ("access-control-allow-headers", headers)
    credential := layer.credential.map fun x =>
      ("access-control-allow-credentials",
        HeaderValue.ofStr (if x then "true".toList else "false ".toList)) }

namespace Cors

/-- The headers that both kinds of answers get. -/
def headerMap (cors : Cors) (origin : HeaderValue) : HeaderMap :=
  let headers := HeaderMap.insert [] "access-control-allow-origin" origin
  match cors.credential with
  | some (name, value) => headers.insert name value
  | none => headers

/-- The headers of the answer to a preflight request. -/
def preflightMap (cors : Cors) (origin : HeaderValue) : HeaderMap :=
  ((cors.headerMap origin).insert cors.headers.1 cors.headers.2).insert cors.methods.1
    cors.methods.2

variable {ReqBody ResBody E : Type} [Inhabited ResBody]

def call (cors : Cors) (inner : HttpRequest ReqBody → Except E (HttpResponse ResBody))
    (req : HttpRequest ReqBody) : Except E (HttpResponse ResBody) :=
  match (req.headers.get "origin").filter fun x =>
      cors.origin.any fun y => HeaderValue.ofStr y == x with
  | none => inner req
  | some origin =>
      if req.method = "OPTIONS".toList then
        .ok { status := 200, headers := HeaderMap.extend [] (cors.preflightMap origin),
              body := default }
      else
        (inner req).map fun x =>
          { x with headers := x.headers.extend (cors.headerMap origin) }

/-! ## The headers -/

variable {layer : CorsLayer} {cors : Cors}

theorem of_intoLayer (hcors : layer.intoLayer = .ok cors) :
    cors.origin = layer.origin ∧
      cors.methods.1 = "access-control-allow-methods" ∧
      cors.headers.1 = "access-control-allow-headers" ∧
      ∀ entry ∈ cors.credential, entry.1 = "access-control-allow-credentials" := by
  obtain ⟨methods, -, hcors⟩ := bind_eq_ok hcors
  obtain ⟨headers, -, hcors⟩ := bind_eq_ok hcors
  obtain rfl := Except.ok.inj hcors
  refine ⟨rfl, rfl, rfl, fun entry hentry => ?_⟩
  obtain ⟨x, -, rfl⟩ := Option.map_eq_some_iff.1 hentry
  rfl

theorem nodup_headerMap (cors : Cors) (origin : HeaderValue) :
    ((cors.headerMap origin).map Prod.fst).Nodup := by
  have horigin := HeaderMap.nodup_insert (show (([] : HeaderMap).map Prod.fst).Nodup from
    List.nodup_nil) "access-control-allow-origin" origin
  rw [headerMap]
  cases cors.credential with
  | none => exact horigin
  | some entry => exact HeaderMap.nodup_insert horigin _ _

theorem nodup_preflightMap (cors : Cors) (origin : HeaderValue) :
    ((cors.preflightMap origin).map Prod.fst).Nodup :=
  HeaderMap.nodup_insert (HeaderMap.nodup_insert (nodup_headerMap cors origin) _ _) _ _

theorem get_headerMap_origin (hcors : layer.intoLayer = .ok cors) (origin : HeaderValue) :
    (cors.headerMap origin).get "access-control-allow-origin" = some origin := by
  rw [headerMap]
  cases hcredential : cors.credential with
  | none => exact HeaderMap.get_insert_self _ _ _
  | some entry =>
      have hname := (of_intoLayer hcors).2.2.2 entry hcredential
      dsimp only
      rw [hname, HeaderMap.get_insert_of_ne _ _ (by decide), HeaderMap.get_insert_self]

theorem get_preflightMap_origin (hcors : layer.intoLayer = .ok cors) (origin : HeaderValue) :
    (cors.preflightMap origin).get "access-control-allow-origin" = some origin := by
  obtain ⟨-, hmethods, hheaders, -⟩ := of_intoLayer hcors
  rw [preflightMap, hmethods, hheaders, HeaderMap.get_insert_of_ne _ _ (by decide),
    HeaderMap.get_insert_of_ne _ _ (by decide), get_headerMap_origin hcors]

/-! ## Which origins are allowed -/

theorem call_of_not_mem (inner : HttpRequest ReqBody → Except E (HttpResponse ResBody))
    {req : HttpRequest ReqBody} {origin : Str} (hmem : origin ∉ cors.origin)
    (horigin : req.headers.get "origin" = some (HeaderValue.ofStr origin)) :
    cors.call inner req = inner req := by
  have hnone : cors.origin.any (fun y => HeaderValue.ofStr y == HeaderValue.ofStr origin) =
      false := by
    rw [List.any_eq_false]
    intro y hy hbytes
    rw [HeaderValue.ofStr_injective (eq_of_beq hbytes)] at hy
    exact hmem hy
  have hfilter : (some (HeaderValue.ofStr origin)).filter
      (fun x => cors.origin.any fun y => HeaderValue.ofStr y == x) = none :=
    if_neg (by simp [hnone])
  rw [call, horigin, hfilter]

theorem call_of_mem (inner : HttpRequest ReqBody → Except E (HttpResponse ResBody))
    {req : HttpRequest ReqBody} {origin : Str} (hmem : origin ∈ cors.origin)
    (horigin : req.headers.get "origin" = some (HeaderValue.ofStr origin)) :
    cors.call inner req =
      if req.method = "OPTIONS".toList then
        .ok { status := 200,
              headers := HeaderMap.extend [] (cors.preflightMap (HeaderValue.ofStr origin)),
              body := default }
      else
        (inner req).map fun x =>
          { x with headers := x.headers.extend (cors.headerMap (HeaderValue.ofStr origin)) } := by
  have hsome : cors.origin.any (fun y => HeaderValue.ofStr y == HeaderValue.ofStr origin) =
      true :=
    List.any_eq_true.2 ⟨origin, hmem, beq_self_eq_true _⟩
  have hfilter : (some (HeaderValue.ofStr origin)).filter
      (fun x => cors.origin.any fun y => HeaderValue.ofStr y == x) =
        some (HeaderValue.ofStr origin) := if_pos hsome
  rw [call, horigin, hfilter]

/-- Requests with the origin get it back, and their preflight is answered without the
layers behind. -/
structure Allows (ReqBody ResBody E : Type) [Inhabited ResBody] (cors : Cors)
    (origin : HeaderValue) : Prop where
  preflight : ∀ req : HttpRequest ReqBody, req.headers.get "origin" = some origin →
    req.method = "OPTIONS".toList →
      ∃ resp : HttpResponse ResBody,
        (∀ inner : HttpRequest ReqBody → Except E (HttpResponse ResBody),
          cors.call inner req = .ok resp) ∧
        resp.headers.get "access-control-allow-origin" = some origin
  added : ∀ (inner : HttpRequest ReqBody → Except E (HttpResponse ResBody))
    (req : HttpRequest ReqBody) (resp : HttpResponse ResBody),
    req.headers.get "origin" = some origin → req.method ≠ "OPTIONS".toList →
      inner req = .ok resp →
        ∃ headers : HeaderMap, cors.call inner req = .ok { resp with headers } ∧
          headers.get "access-control-allow-origin" = some origin

/-- Exactly the origins that the layer was given are allowed. -/
theorem allows_iff_mem [Inhabited ReqBody] (hcors : layer.intoLayer = .ok cors) (origin : Str) :
    Allows ReqBody ResBody E cors (HeaderValue.ofStr origin) ↔ origin ∈ layer.origin := by
  rw [← (of_intoLayer hcors).1]
  constructor
  · intro hallows
    by_contra hmem
    -- a request that is passed on to a layer which adds nothing
    obtain ⟨headers, hcall, hget⟩ := hallows.added
      (fun _ => .ok { status := 200, headers := [], body := default })
      { method := "GET".toList, headers := [("origin", HeaderValue.ofStr origin)],
        body := default }
      { status := 200, headers := [], body := default } rfl
      (show "GET".toList ≠ "OPTIONS".toList by decide) rfl
    rw [call_of_not_mem _ hmem rfl] at hcall
    obtain rfl := (HttpResponse.mk.inj (Except.ok.inj hcall)).2.1
    cases hget
  · intro hmem
    refine ⟨fun req horigin hmethod => ?_, fun inner req resp horigin hmethod hinner => ?_⟩
    · refine ⟨_, fun inner => (call_of_mem inner hmem horigin).trans (if_pos hmethod), ?_⟩
      rw [HeaderMap.get_extend (nodup_preflightMap cors _), get_preflightMap_origin hcors]
      rfl
    · refine ⟨resp.headers.extend (cors.headerMap (HeaderValue.ofStr origin)), ?_, ?_⟩
      · rw [call_of_mem inner hmem horigin, if_neg hmethod, hinner]
        rfl
      · rw [HeaderMap.get_extend (nodup_headerMap cors _), get_headerMap_origin hcors]
        rfl

end Cors

/-! ## The layer with the URL of the host -/

namespace CorsBuilder

/-- What `build` gives, with the layers behind. -/
def finish (builder : CorsBuilder Origin) : Except Panic Cors := do
  let layer ← builder.build
  layer.intoLayer

theorem exists_layer_of_finish {builder : CorsBuilder Origin} {cors : Cors}
    (hfinish : builder.finish = .ok cors) :
    ∃ layer : CorsLayer, layer.intoLayer = .ok cors ∧ layer.origin = builder.allowOrigin := by
  obtain ⟨layer, hbuild, hcors⟩ := bind_eq_ok hfinish
  obtain ⟨headers, -, hlayer⟩ := bind_eq_ok hbuild
  obtain rfl := Except.ok.inj hlayer
  exact ⟨_, hcors, rfl⟩

def service (host : Host) : Except Panic (CorsBuilder Origin) := do
  let builder ← new.allowFirstOrigin "http://localhost:5173".toList
  let builder ← builder.allowNextOrigin host.url
  let builder := builder.allowMethod "PUT".toList
  let builder := builder.allowMethod "GET".toList
  let builder := builder.allowMethod "OPTIONS".toList
  let builder := builder.allowMethod "PATCH".toList
  let builder := builder.allowHeader (HeaderValue.ofStr "content-type".toList)
  let builder := builder.allowHeader (HeaderValue.ofStr "cookie".toList)
  let builder := builder.allowHeader (HeaderValue.ofStr "authorization".toList)
  return builder.credentials true

theorem push_url (origins : Origin) (host : Host) :
    Origin.push origins host.url = some (origins ++ [host.url]) := by
  refine if_neg fun hstar => ?_
  have hlength := congrArg List.length hstar
  simp [Host.url] at hlength
  omega

theorem exists_cors_service (host : Host) :
    ∃ builder cors, service host = .ok builder ∧ builder.finish = .ok cors ∧
      builder.allowOrigin = ["http://localhost:5173".toList, host.url] := by
  have hfirst : new.allowFirstOrigin "http://localhost:5173".toList =
      .ok (new.withOrigin ["http://localhost:5173".toList]) := rfl
  have hnext : (new.withOrigin ["http://localhost:5173".toList]).allowNextOrigin host.url =
      .ok (new.withOrigin ["http://localhost:5173".toList, host.url]) := by
    rw [allowNextOrigin]
    exact congrArg (fun x => unwrapResult x >>= fun origins => .ok (new.withOrigin origins))
      (push_url ["http://localhost:5173".toList] host)
  have hfinish : ∀ origins : Origin, ∃ cors,
      finish {
        allowOrigin := origins
        allowMethods := ["PATCH".toList, "OPTIONS".toList, "GET".toList, "PUT".toList]
        allowCredentials := some true
        allowHeaders := ["authorization".toList, "cookie".toList,
          "content-type".toList].map HeaderValue.ofStr } = .ok cors := by
    intro origins
    exact ⟨_, rfl⟩
  obtain ⟨cors, hcors⟩ := hfinish ["http://localhost:5173".toList, host.url]
  rw [service, hfirst, ok_bind, hnext, ok_bind]
  exact ⟨_, cors, rfl, hcors, rfl⟩

end CorsBuilder

section Own

variable {ReqBody ResBody E : Type} [Inhabited ReqBody] [Inhabited ResBody]

/-- A layer that was given the URL of the host allows the origin of the host exactly if it
was given this origin besides. -/
theorem allows_host_iff {num : DecimalNumbers} {scheme : Host.Scheme} {authority : Str}
    {host : Host} {builder : CorsBuilder Origin} {before after : List Str} {cors : Cors}
    (hhost : Host.fromUrl num (scheme.text ++ "://".toList ++ (authority ++ ['/'])) = .ok host)
    (hbuilder : builder.allowOrigin = before ++ host.url :: after)
    (hcors : builder.finish = .ok cors) :
    Cors.Allows ReqBody ResBody E cors
        (HeaderValue.ofStr (scheme.text ++ "://".toList ++ authority)) ↔
      scheme.text ++ "://".toList ++ authority ∈ before ++ after := by
  obtain ⟨layer, hlayer, horigin⟩ := CorsBuilder.exists_layer_of_finish hcors
  have hne := Host.url_ne_of_fromUrl hhost
  rw [Cors.allows_iff_mem hlayer, horigin, hbuilder, List.mem_append, List.mem_cons,
    List.mem_append]
  simp only [Ne.symm hne, false_or]

/-- For the host `localhost:5173` the service is given the origin besides. -/
theorem allows_localhost :
    ∃ builder cors,
      CorsBuilder.service (.newDomain .http "localhost:5173".toList) = .ok builder ∧
        builder.finish = .ok cors ∧
          Cors.Allows Unit Unit Unit cors
            (HeaderValue.ofStr "http://localhost:5173".toList) := by
  have hhost : Host.fromUrl .ofAscii (Host.Scheme.http.text ++ "://".toList ++
      ("localhost:5173".toList ++ ['/'])) = .ok (.newDomain .http "localhost:5173".toList) := by
    decide
  have hbefore : "http://localhost:5173".toList ∈ ["http://localhost:5173".toList] ++ [] :=
    List.mem_singleton_self _
  obtain ⟨builder, cors, hservice, hcors, horigins⟩ :=
    CorsBuilder.exists_cors_service (.newDomain .http "localhost:5173".toList)
  exact ⟨builder, cors, hservice, hcors, (allows_host_iff hhost horigins hcors).2 hbefore⟩

theorem not_allows_service {num : DecimalNumbers} {scheme : Host.Scheme} {authority : Str}
    {host : Host}
    (hhost : Host.fromUrl num (scheme.text ++ "://".toList ++ (authority ++ ['/'])) = .ok host)
    (hother : scheme.text ++ "://".toList ++ authority ≠ "http://localhost:5173".toList) :
    ∃ builder cors, CorsBuilder.service host = .ok builder ∧ builder.finish = .ok cors ∧
      ¬Cors.Allows ReqBody ResBody E cors
        (HeaderValue.ofStr (scheme.text ++ "://".toList ++ authority)) := by
  obtain ⟨builder, cors, hservice, hcors, horigins⟩ := CorsBuilder.exists_cors_service host
  obtain ⟨layer, hlayer, horigin⟩ := CorsBuilder.exists_layer_of_finish hcors
  refine ⟨builder, cors, hservice, hcors, ?_⟩
  rw [Cors.allows_iff_mem hlayer, horigin, horigins, List.mem_cons, List.mem_singleton, not_or]
  exact ⟨hother, Ne.symm (Host.url_ne_of_fromUrl hhost)⟩

/-- The host `example.com` of the service, and a request from there. -/
theorem not_allows_example :
    Host.fromUrl .ofAscii "https://example.com/".toList =
      .ok (.newDomain .https "example.com".toList) ∧
    ∃ builder cors,
      CorsBuilder.service (.newDomain .https "example.com".toList) = .ok builder ∧
        builder.finish = .ok cors ∧
          ¬Cors.Allows Unit Unit Unit cors (HeaderValue.ofStr "https://example.com".toList) := by
  have hhost : Host.fromUrl .ofAscii (Host.Scheme.https.text ++ "://".toList ++
      ("example.com".toList ++ ['/'])) = .ok (.newDomain .https "example.com".toList) := by
    decide
  exact ⟨by decide, not_allows_service hhost (by decide)⟩

end Own

end WsHyper.Utils
