import WsHyper.Directory.Browsing
import WsHyper.Utils.Claims
import WsHyper.Utils.Cors

/-!
# The layers in front of the tree

A request comes through the layers of `main`: `Cors` answers preflights and adds its headers
to other answers, `Auth` asks for a token, and `entry` reads the tree.  The layer that puts
the state into the request, and the one that logs, change nothing of the answer.
-/

namespace WsHyper.Directory

open WsHyper.Lib Utils

/-! ## The layers -/

structure Incoming where
  path : Str
  isUpgrade : Bool
  /-- The headers of the answer to the handshake, if it can be done. -/
  handshake : Option HeaderMap
  websocket : Option (Except Str Unit)

inductive TreeBody
  | empty
  | listing (fhs : Fhs)
  /-- The connection becomes a websocket, with this broker if any. -/
  | socket (broker : Option Broker)

instance : Inhabited TreeBody := ⟨.empty⟩

abbrev Answered := Except Panic (HttpResponse TreeBody)

def treeRequest (req : HttpRequest Incoming) : TreeRequest :=
  { method := if req.method = "GET".toList then .get else .other
    path := req.body.path
    isUpgrade := req.body.isUpgrade
    upgrades := req.body.handshake.isSome
    websocket := req.body.websocket }

def respond (req : HttpRequest Incoming) : TreeAnswer → HttpResponse TreeBody
  | .response status none => { status, headers := [], body := .empty }
  | .response status (some fhs) =>
      { status
        headers := [("content-type", .ofStr "application/json".toList)]
        body := .listing fhs }
  | .switches broker =>
      { status := 101, headers := req.body.handshake.getD [], body := .socket broker }

/-- `EntryFn` with `entry`. -/
def EntryFn.call (rfc3339 : OffsetDateTime → Option Str) (m : BucketMap)
    (req : HttpRequest Incoming) : Answered := do
  let answer ← entry rfc3339 m (treeRequest req)
  return respond req answer

namespace AuthLayer

section

variable {Key C ReqBody ResBody : Type} [Inhabited ResBody]

def refuse (status : Nat) : HttpResponse ResBody := { status, headers := [], body := default }

/-- A content type that is no text passes as well. -/
def unsupported (headers : HeaderMap) : Bool :=
  (headers.get "content-type").any fun x => x.toStr.any fun text =>
    text ≠ "application/json".toList

def call (jwt : Jwt Key C) (keyFile : Option (List UInt8))
    (inner : C → HttpRequest ReqBody → Except Panic (HttpResponse ResBody))
    (req : HttpRequest ReqBody) : Except Panic (HttpResponse ResBody) :=
  if unsupported req.headers then .ok (refuse 415)
  else
    match JwtBoth.search req.headers with
    | none => .ok (refuse 401)
    | some token =>
        match verifyToken jwt keyFile token with
        | .error panic => .error panic
        | .ok (.error _) => .ok (refuse 401)
        | .ok (.ok claims) => inner claims req

/-- What the layer answers by itself. -/
inductive Refuses : Except Panic (HttpResponse ResBody) → Prop
  | refuse (status : Nat) : Refuses (.ok (refuse status))
  | panic (panic : Panic) : Refuses (.error panic)

theorem Refuses.eq_refuse {resp : HttpResponse ResBody} (hrefuses : Refuses (.ok resp)) :
    ∃ status, resp = AuthLayer.refuse status := by
  cases hrefuses with
  | refuse status => exact ⟨status, rfl⟩

variable (ResBody)

/-- A request is either handed on with the claims of its token, or answered whatever the
layer behind does. -/
theorem call_cases (jwt : Jwt Key C) (keyFile : Option (List UInt8)) (req : HttpRequest ReqBody) :
    (∃ answer : Except Panic (HttpResponse ResBody), Refuses answer ∧
      ∀ inner, call jwt keyFile inner req = answer) ∨
    ∃ token claims, JwtBoth.search req.headers = some token ∧
      Verifies jwt keyFile token claims ∧
      ∀ inner : C → HttpRequest ReqBody → Except Panic (HttpResponse ResBody),
        call jwt keyFile inner req = inner claims req := by
  unfold call
  split_ifs with htype
  · exact .inl ⟨_, .refuse 415, fun _ => rfl⟩
  · cases htoken : JwtBoth.search req.headers with
    | none => exact .inl ⟨_, .refuse 401, fun _ => rfl⟩
    | some token =>
        dsimp only
        by_cases hverifies : ∃ claims, Verifies jwt keyFile token claims
        · obtain ⟨claims, hclaims⟩ := hverifies
          rw [verifyToken_of_verifies hclaims]
          exact .inr ⟨token, claims, rfl, hclaims, fun _ => rfl⟩
        · obtain ⟨panic, hpanics⟩ := verifyToken_panics (not_exists.1 hverifies)
          rw [hpanics]
          exact .inl ⟨_, .panic panic, fun _ => rfl⟩

theorem call_of_no_token {jwt : Jwt Key C} {keyFile : Option (List UInt8)}
    {req : HttpRequest ReqBody} (htoken : JwtBoth.search req.headers = none) :
    ∃ status, ∀ inner : C → HttpRequest ReqBody → Except Panic (HttpResponse ResBody),
      call jwt keyFile inner req = .ok (refuse status) := by
  unfold call
  split_ifs with htype
  · exact ⟨415, fun _ => rfl⟩
  · rw [htoken]
    exact ⟨401, fun _ => rfl⟩

end

end AuthLayer

def localOrigin : Str := "http://localhost:8080".toList

def corsBuilder : Except Panic (CorsBuilder Origin) := do
  let builder ← CorsBuilder.new.allowFirstOrigin localOrigin
  let builder := builder.allowMethod "PUT".toList
  let builder := builder.allowMethod "GET".toList
  let builder := builder.allowMethod "OPTIONS".toList
  let builder := builder.allowMethod "PATCH".toList
  let builder := builder.allowHeader (HeaderValue.ofStr "content-type".toList)
  let builder := builder.allowHeader (HeaderValue.ofStr "cookie".toList)
  let builder := builder.allowHeader (HeaderValue.ofStr "authorization".toList)
  return builder.credentials true

def corsOfMain : Except Panic Cors := do
  let builder ← corsBuilder
  builder.finish

theorem exists_corsOfMain : ∃ cors, corsOfMain = .ok cors := ⟨_, rfl⟩

/-- What the token is read with: the service takes the subject for a number. -/
abbrev Claims := Claim Int

section Stack

variable {Key : Type}

structure Layers (Key : Type) where
  cors : Cors
  jwt : Jwt Key Claims
  keyFile : Option (List UInt8)
  rfc3339 : OffsetDateTime → Option Str
  built : corsOfMain = .ok cors

def Layers.auth (layers : Layers Key) (m : BucketMap) (req : HttpRequest Incoming) : Answered :=
  AuthLayer.call layers.jwt layers.keyFile (fun _ req => EntryFn.call layers.rfc3339 m req) req

/-- A request to the service, whose tree is `m`. -/
def Layers.call (layers : Layers Key) (m : BucketMap) (req : HttpRequest Incoming) : Answered :=
  layers.cors.call (layers.auth m) req

/-- The request carries a token of the claims. -/
def Layers.Carries (layers : Layers Key) (req : HttpRequest Incoming) (claims : Claims) : Prop :=
  ∃ token, JwtBoth.search req.headers = some token ∧
    Verifies layers.jwt layers.keyFile token claims

def IsPreflight (req : HttpRequest Incoming) : Prop :=
  req.headers.get "origin" = some (.ofStr localOrigin) ∧ req.method = "OPTIONS".toList

/-! ## Who sees the tree -/

/-- The tree is shown to requests with a token only, and of it no more than the entry that is
asked for. -/
structure Guarded (layers : Layers Key) : Prop where
  secret : ∀ req, (∀ claims, ¬layers.Carries req claims) →
    ∀ m m', layers.call m req = layers.call m' req
  listed : ∀ m req resp fhs, layers.call m req = .ok resp → resp.body = .listing fhs →
    (∃ claims, layers.Carries req claims) ∧ resp.status = 200 ∧ req.method = "GET".toList ∧
      ∃ path found, stripTree req.body.path = some path ∧
        m.getEntry (addressed path).1 (addressed path).2 = some found ∧ fhs = .ofEntry found
  /-- Without a token there is an answer all the same. -/
  answered : ∀ req, JwtBoth.search req.headers = none ∨ IsPreflight req →
    ∃ resp, resp.body = .empty ∧ ∀ m, layers.call m req = .ok resp
  /-- The origin may read every answer it gets, refusals too, and no other origin may. -/
  readable : ∀ m req resp, (∀ handshake ∈ req.body.handshake,
      handshake.get "access-control-allow-origin" = none) →
    layers.call m req = .ok resp → ∀ origin,
      (resp.headers.get "access-control-allow-origin" = some origin ↔
        origin = .ofStr localOrigin ∧ req.headers.get "origin" = some origin)

section Answers

variable {layers : Layers Key} {m : BucketMap} {req : HttpRequest Incoming}
  {resp : HttpResponse TreeBody}

theorem Layers.exists_layer (layers : Layers Key) :
    ∃ layer : CorsLayer, layer.intoLayer = .ok layers.cors ∧ layer.origin = [localOrigin] := by
  obtain ⟨builder, hbuilder, hfinish⟩ := bind_eq_ok layers.built
  obtain ⟨layer, hlayer, horigin⟩ := CorsBuilder.exists_layer_of_finish hfinish
  refine ⟨layer, hlayer, horigin.trans ?_⟩
  obtain rfl := Except.ok.inj hbuilder
  rfl

theorem Layers.origin (layers : Layers Key) : layers.cors.origin = [localOrigin] := by
  obtain ⟨layer, hlayer, horigin⟩ := layers.exists_layer
  rw [(Cors.of_intoLayer hlayer).1, horigin]

theorem call_of_other (horigin : req.headers.get "origin" ≠ some (.ofStr localOrigin)) :
    layers.call m req = layers.auth m req := by
  rw [Layers.call, Cors.call, layers.origin]
  cases hvalue : req.headers.get "origin" with
  | none => rfl
  | some value =>
      have hne : HeaderValue.ofStr localOrigin ≠ value := by
        rintro rfl
        exact horigin hvalue
      have hfilter : (some value).filter
          (fun x => [localOrigin].any fun y => HeaderValue.ofStr y == x) = none :=
        if_neg (by simp [hne])
      rw [hfilter]

theorem call_of_preflight (hpreflight : IsPreflight req) :
    layers.call m req = .ok {
      status := 200
      headers := HeaderMap.extend [] (layers.cors.preflightMap (.ofStr localOrigin))
      body := .empty } := by
  have hmem : localOrigin ∈ layers.cors.origin := by simp [layers.origin]
  rw [Layers.call, Cors.call_of_mem _ hmem hpreflight.1, if_pos hpreflight.2]
  rfl

theorem call_of_local (horigin : req.headers.get "origin" = some (.ofStr localOrigin))
    (hmethod : req.method ≠ "OPTIONS".toList) :
    layers.call m req = (layers.auth m req).map fun x =>
      { x with headers := x.headers.extend (layers.cors.headerMap (.ofStr localOrigin)) } := by
  have hmem : localOrigin ∈ layers.cors.origin := by simp [layers.origin]
  rw [Layers.call, Cors.call_of_mem _ hmem horigin, if_neg hmethod]

theorem auth_cases (layers : Layers Key) (req : HttpRequest Incoming) :
    (∃ answer, AuthLayer.Refuses answer ∧ ∀ m, layers.auth m req = answer) ∨
      ∃ claims, layers.Carries req claims ∧
        ∀ m, layers.auth m req = EntryFn.call layers.rfc3339 m req := by
  rcases AuthLayer.call_cases TreeBody layers.jwt layers.keyFile req with
    ⟨answer, hrefuses, hanswer⟩ | ⟨token, claims, htoken, hverifies, hanswer⟩
  · exact .inl ⟨answer, hrefuses, fun m => hanswer _⟩
  · exact .inr ⟨claims, ⟨token, htoken, hverifies⟩, fun m => hanswer _⟩

theorem auth_of_no_token (layers : Layers Key) (htoken : JwtBoth.search req.headers = none) :
    ∃ status, ∀ m, layers.auth m req = .ok (AuthLayer.refuse status) := by
  obtain ⟨status, hanswer⟩ := AuthLayer.call_of_no_token TreeBody htoken
  exact ⟨status, fun m => hanswer _⟩

/-- Every answer is a preflight's, or one of the layers behind with more headers at most. -/
theorem call_eq_ok (hcall : layers.call m req = .ok resp) :
    resp.body = .empty ∨ ∃ headers, layers.auth m req = .ok { resp with headers } := by
  by_cases horigin : req.headers.get "origin" = some (.ofStr localOrigin)
  · by_cases hmethod : req.method = "OPTIONS".toList
    · rw [call_of_preflight ⟨horigin, hmethod⟩] at hcall
      obtain rfl := Except.ok.inj hcall
      exact .inl rfl
    · rw [call_of_local horigin hmethod] at hcall
      cases hauth : layers.auth m req with
      | error panic =>
          rw [hauth] at hcall
          cases hcall
      | ok inner =>
          rw [hauth] at hcall
          obtain rfl := Except.ok.inj hcall
          exact .inr ⟨inner.headers, rfl⟩
  · rw [call_of_other horigin] at hcall
    exact .inr ⟨resp.headers, hcall⟩

theorem call_congr {m' : BucketMap} (hauth : layers.auth m req = layers.auth m' req) :
    layers.call m req = layers.call m' req := by
  by_cases horigin : req.headers.get "origin" = some (.ofStr localOrigin)
  · by_cases hmethod : req.method = "OPTIONS".toList
    · rw [call_of_preflight ⟨horigin, hmethod⟩, call_of_preflight ⟨horigin, hmethod⟩]
    · rw [call_of_local horigin hmethod, call_of_local horigin hmethod, hauth]
  · rw [call_of_other horigin, call_of_other horigin, hauth]

theorem listed_of_entryFn {rfc3339 : OffsetDateTime → Option Str} {fhs : Fhs}
    (hcall : EntryFn.call rfc3339 m req = .ok resp) (hbody : resp.body = .listing fhs) :
    resp.status = 200 ∧ req.method = "GET".toList ∧
      ∃ path found, stripTree req.body.path = some path ∧
        m.getEntry (addressed path).1 (addressed path).2 = some found ∧ fhs = .ofEntry found := by
  obtain ⟨answer, hentry, hresp⟩ := bind_eq_ok hcall
  obtain rfl := Except.ok.inj hresp
  unfold entry at hentry
  split at hentry
  case h_1 =>
      obtain rfl := Except.ok.inj hentry
      cases hbody
  case h_2 path hpath =>
      split_ifs at hentry with hmethod hempty hupgrade hupgrades
      · obtain rfl := Except.ok.inj hentry
        cases hbody
      · obtain ⟨broker, -, hentry⟩ := bind_eq_ok hentry
        obtain rfl := Except.ok.inj hentry
        cases hbody
      · obtain ⟨found, hfound, hentry⟩ := bind_eq_ok hentry
        obtain ⟨body, hjson, hentry⟩ := bind_eq_ok hentry
        obtain rfl := Except.ok.inj hentry
        have hget : req.method = "GET".toList := by
          by_contra hother
          rw [treeRequest, if_neg hother] at hmethod
          exact hmethod nofun
        obtain rfl : fhs = .ofEntry found := by
          unfold json at hjson
          split_ifs at hjson
          obtain rfl := Except.ok.inj hjson
          exact (TreeBody.listing.inj hbody).symm
        exact ⟨rfl, hget, path, found, hpath, unwrap_eq_ok_iff.1 hfound, rfl⟩

theorem get_of_auth (hhandshake : ∀ handshake ∈ req.body.handshake,
    handshake.get "access-control-allow-origin" = none) (hauth : layers.auth m req = .ok resp) :
    resp.headers.get "access-control-allow-origin" = none := by
  rcases auth_cases layers req with ⟨answer, hrefuses, hanswer⟩ | ⟨claims, -, hanswer⟩
  · obtain rfl := (hanswer m).symm.trans hauth
    obtain ⟨status, rfl⟩ := hrefuses.eq_refuse
    rfl
  · rw [hanswer] at hauth
    obtain ⟨answer, -, hresp⟩ := bind_eq_ok hauth
    obtain rfl := Except.ok.inj hresp
    cases answer with
    | response status body => cases body <;> rfl
    | switches broker =>
        cases hheaders : req.body.handshake with
        | none => simp [respond, hheaders, HeaderMap.get]
        | some handshake => simp [respond, hheaders, hhandshake handshake hheaders]

theorem get_of_call (hhandshake : ∀ handshake ∈ req.body.handshake,
    handshake.get "access-control-allow-origin" = none) (hcall : layers.call m req = .ok resp) :
    resp.headers.get "access-control-allow-origin" =
      if req.headers.get "origin" = some (.ofStr localOrigin) then some (.ofStr localOrigin)
      else none := by
  obtain ⟨layer, hlayer, -⟩ := layers.exists_layer
  split_ifs with horigin
  · by_cases hmethod : req.method = "OPTIONS".toList
    · rw [call_of_preflight ⟨horigin, hmethod⟩] at hcall
      obtain rfl := Except.ok.inj hcall
      rw [HeaderMap.get_extend (Cors.nodup_preflightMap _ _), Cors.get_preflightMap_origin hlayer]
      rfl
    · rw [call_of_local horigin hmethod] at hcall
      cases hauth : layers.auth m req with
      | error panic =>
          rw [hauth] at hcall
          cases hcall
      | ok inner =>
          rw [hauth] at hcall
          obtain rfl := Except.ok.inj hcall
          rw [HeaderMap.get_extend (Cors.nodup_headerMap _ _), Cors.get_headerMap_origin hlayer]
          rfl
  · rw [call_of_other horigin] at hcall
    exact get_of_auth hhandshake hcall

end Answers

/-- The layers of `main` guard the tree, whatever the keys and the tokens are. -/
theorem guarded (layers : Layers Key) : Guarded layers where
  secret req hcarries m m' := by
    refine call_congr ?_
    rcases auth_cases layers req with ⟨answer, -, hanswer⟩ | ⟨claims, hclaims, -⟩
    · rw [hanswer, hanswer]
    · exact absurd hclaims (hcarries claims)
  listed m req resp fhs hcall hbody := by
    rcases call_eq_ok hcall with hempty | ⟨headers, hauth⟩
    · rw [hbody] at hempty
      cases hempty
    · rcases auth_cases layers req with ⟨answer, hrefuses, hanswer⟩ | ⟨claims, hclaims, hanswer⟩
      · obtain rfl := (hanswer m).symm.trans hauth
        obtain ⟨status, hrefused⟩ := hrefuses.eq_refuse
        cases (show resp.body = .empty from congrArg HttpResponse.body hrefused).symm.trans hbody
      · rw [hanswer] at hauth
        obtain ⟨hstatus, hmethod, hfound⟩ := listed_of_entryFn hauth hbody
        exact ⟨⟨claims, hclaims⟩, hstatus, hmethod, hfound⟩
  answered req hreq := by
    by_cases hpreflight : IsPreflight req
    · exact ⟨_, rfl, fun m => call_of_preflight hpreflight⟩
    · have htoken := hreq.resolve_right hpreflight
      obtain ⟨status, hanswer⟩ := auth_of_no_token layers htoken
      by_cases horigin : req.headers.get "origin" = some (.ofStr localOrigin)
      · have hmethod : req.method ≠ "OPTIONS".toList := fun h => hpreflight ⟨horigin, h⟩
        exact ⟨_, rfl, fun m => by rw [call_of_local horigin hmethod, hanswer]; rfl⟩
      · exact ⟨_, rfl, fun m => by rw [call_of_other horigin, hanswer]⟩
  readable m req resp hhandshake hcall origin := by
    rw [get_of_call hhandshake hcall]
    split_ifs with horigin
    · rw [horigin, Option.some.injEq]
      exact ⟨fun h => ⟨h.symm, h⟩, And.right⟩
    · refine iff_of_false nofun ?_
      rintro ⟨rfl, hget⟩
      exact horigin hget

/-- The layers with the one token `t`, of the user `1`. -/
theorem exists_guarded_layers : ∃ layers : Layers Unit, layers.keyFile = some [0] ∧
    (∃ claims, layers.jwt.decode ['t'] () = some claims ∧ claims.sub = 1) ∧ Guarded layers := by
  obtain ⟨cors, hcors⟩ := exists_corsOfMain
  let claims : Claims :=
    { iss := none, sub := 1, exp := 0, nbf := none, iat := none, jti := none, aud := none }
  exact ⟨{
    cors
    jwt := {
      fromEcPem := fun _ => some ()
      decode := fun token _ => if token = ['t'] then some claims else none }
    keyFile := some [0]
    rfc3339 := fun _ => none
    built := hcors }, rfl, ⟨claims, rfl, rfl⟩, guarded _⟩

end Stack

end WsHyper.Directory
