import WsHyper.Auth.Entry
import WsHyper.Directory.HttpStack
import WsHyper.UploadFiles.Endpoint

/-!
# Sessions

A login gives a token for six hours.  Here it is followed from the login to the requests that
present it, in a cookie or behind `Bearer`: to this service, which lets them in as the user
that logged in until a minute after the end, and to the other two, which share the public
key.  These read the claims by fields of their own, and no token of a login has them.
-/

namespace WsHyper.Auth

open WsHyper.Lib Utils

/-! ## Tokens of a login -/

/-- What the clock shows at the calls of a login, after the epoch, and what `new_v4` would
give. -/
structure Moment where
  exp : UnixTime
  default : UnixTime
  iat : UnixTime
  newV4 : Uuid
  exp_nonneg : 0 ≤ exp.val

def claimOf (id : Uuid) (moment : Moment) : Except Panic (Utils.Claim Uuid) := do
  let builder ← (ClaimBuilder.default.withSub id).withExp moment.exp (6 * 60 * 60)
  (builder.withIat true).build moment.default moment.iat moment.newV4

/-- `From<User>`. -/
def User.claim (user : User) (moment : Moment) : Except Panic (Utils.Claim Uuid) := do
  let id ← unwrap user.id
  claimOf id moment

theorem claimOf_eq_ok {id : Uuid} {moment : Moment} {claim : Utils.Claim Uuid}
    (hclaim : claimOf id moment = .ok claim) :
    claim.sub = id ∧ claim.exp = moment.exp.val + 21600 ∧ claim.aud = none ∧ claim.Fits := by
  obtain ⟨builder, hbuilder, hbuild⟩ := bind_eq_ok hclaim
  have hfits := ClaimBuilder.fits_of_build hbuild
  obtain ⟨exp, hexp, hbuilder⟩ := bind_eq_ok hbuilder
  obtain rfl := Except.ok.inj hbuilder
  obtain ⟨defaultExp, -, hbuild⟩ := bind_eq_ok hbuild
  obtain rfl := Except.ok.inj hbuild
  refine ⟨rfl, ?_, rfl, hfits⟩
  unfold UnixTime.add at hexp
  split_ifs at hexp
  obtain rfl := Except.ok.inj hexp
  rfl

theorem read_i32 (uuids : UuidText) (claim : Utils.Claim Uuid) :
    Utils.Claim.read uuids Json.i32 (claim.payload uuids uuids.json) = none := by
  have hsub : (claim.payload uuids uuids.json).field "sub" Json.i32 = none := by
    rw [Payload.field, Claim.lookup_sub]
    rfl
  rw [Utils.Claim.read, hsub]
  cases (claim.payload uuids uuids.json).optField "iss" Json.str <;> rfl

theorem read_role (uuids : UuidText) (claim : Utils.Claim Uuid) :
    UploadFiles.Claim.read uuids (claim.payload uuids uuids.json) = none := by
  have hrole : (claim.payload uuids uuids.json).field "role" UploadFiles.Role.read = none := by
    rw [Payload.field, Claim.lookup_eq_none uuids uuids.json claim (by decide)]
    rfl
  rw [UploadFiles.Claim.read, hrole]
  cases (claim.payload uuids uuids.json).field "sub" uuids.read with
  | none => rfl
  | some sub => cases (claim.payload uuids uuids.json).field "exp" Json.i64 <;> rfl

/-- The keys of the service and what else it makes tokens with.  Claims that are signed with
the private key, and end after the epoch, can be read with the public one. -/
structure Issuer (EncodingKey DecodingKey : Type) where
  jwt : JsonWebToken EncodingKey DecodingKey
  uuids : UuidText
  host : Str
  privFile : Option (List UInt8)
  pubFile : List UInt8
  dec : DecodingKey
  opens : jwt.decodingKey pubFile = some dec
  signs : ∀ file payload exp token, privFile = some file →
    payload.lookup "exp" = some (.number exp) → 0 ≤ exp →
      ((jwt.encodingKey file).bind (jwt.encode payload)) = some token →
        jwt.Signed dec payload token

namespace Issuer

variable {EncodingKey DecodingKey : Type} (issuer : Issuer EncodingKey DecodingKey)

def token (moment : Moment) (id : Uuid) : Except Panic (Except JwtHandleError Str) := do
  let claim ← claimOf id moment
  issuer.jwt.genToken issuer.privFile
    ((claim.setIss issuer.host).payload issuer.uuids issuer.uuids.json)

def serviceAt (verify : Str → Str → Bool) (genToken : Uuid → Except String Str) (now : Int) :
    Service DecodingKey :=
  { jwt := issuer.jwt.reading (fun payload =>
      (Utils.Claim.read issuer.uuids issuer.uuids.read payload).map fun claim => ⟨claim.sub⟩) now
    keyFile := some issuer.pubFile
    verify
    genToken }

section Reading

variable {issuer : Issuer EncodingKey DecodingKey} {moment : Moment} {id : Uuid} {token : Str}

structure StandsFor (issuer : Issuer EncodingKey DecodingKey) (moment : Moment) (id : Uuid)
    (token : Str) (claim : Utils.Claim Uuid) : Prop where
  sub : claim.sub = id
  exp : claim.exp = moment.exp.val + 21600
  aud : claim.aud = none
  fits : claim.Fits
  signed : issuer.jwt.Signed issuer.dec (claim.payload issuer.uuids issuer.uuids.json) token

theorem exists_standsFor (htoken : issuer.token moment id = .ok (.ok token)) :
    ∃ claim, StandsFor issuer moment id token claim := by
  obtain ⟨claim, hclaim, hgen⟩ := bind_eq_ok htoken
  obtain ⟨hsub, hexp, haud, hfits⟩ := claimOf_eq_ok hclaim
  obtain ⟨file, hfile, hgen⟩ := bind_eq_ok hgen
  obtain ⟨key, hkey, hgen⟩ := bind_eq_ok hgen
  obtain ⟨text, hencode, htext⟩ := bind_eq_ok hgen
  obtain rfl := Except.ok.inj (Except.ok.inj htext)
  rw [unwrapResult_eq_ok_iff] at hfile hkey hencode
  have hend : 0 ≤ claim.exp := by
    have hnonneg := moment.exp_nonneg
    omega
  refine ⟨claim.setIss issuer.host, hsub, hexp, haud, hfits,
    issuer.signs file _ claim.exp _ hfile (Claim.lookup_exp _ _ _) hend ?_⟩
  rw [hkey, Option.bind_some, hencode]

variable {C : Type} {claim : Utils.Claim Uuid} {now : Int}

/-- How a service with the public key reads the token at a time. -/
theorem verifyToken_reading (hstands : StandsFor issuer moment id token claim)
    (read : Payload → Option C) (hnow : 0 ≤ now) :
    verifyToken (issuer.jwt.reading read now) (some issuer.pubFile) token =
      match (if now ≤ moment.exp.val + 21660 then
          read (claim.payload issuer.uuids issuer.uuids.json) else none) with
      | some claims => .ok (.ok claims)
      | none => .error .unwrapErr := by
  have hdecode := decode_of_signed hstands.signed hstands.aud read hnow
  have hend : claim.exp + 60 = moment.exp.val + 21660 := by
    rw [hstands.exp]
    omega
  rw [hend] at hdecode
  have hopens : (issuer.jwt.reading read now).fromEcPem issuer.pubFile = some issuer.dec :=
    issuer.opens
  have hreads : (issuer.jwt.reading read now).decode token issuer.dec = _ := hdecode
  rw [verifyToken, unwrapResult, ok_bind, hopens, unwrapResult, ok_bind, hreads]
  cases (if now ≤ moment.exp.val + 21660 then
    read (claim.payload issuer.uuids issuer.uuids.json) else none) <;> rfl

theorem verifyToken_serviceAt (hstands : StandsFor issuer moment id token claim)
    (verify : Str → Str → Bool) (genToken : Uuid → Except String Str) (hnow : 0 ≤ now) :
    verifyToken (issuer.serviceAt verify genToken now).jwt (some issuer.pubFile) token =
      if now ≤ moment.exp.val + 21660 then .ok (.ok ⟨id⟩) else .error .unwrapErr := by
  have hread : Utils.Claim.read issuer.uuids issuer.uuids.read
      (claim.payload issuer.uuids issuer.uuids.json) = some claim :=
    Claim.read_payload issuer.uuids issuer.uuids.read_json hstands.fits
  rw [serviceAt, verifyToken_reading hstands _ hnow]
  split_ifs with hend
  · rw [hread, Option.map_some, hstands.sub]
  · rfl

end Reading

end Issuer

/-! ## From the login on -/

section Login

variable {EncodingKey DecodingKey : Type} {issuer : Issuer EncodingKey DecodingKey}
  {moment : Moment} {db : Db} {order : HashOrder} {body : Body} {token : Str}
  {verify : Str → Str → Bool} {genToken : Uuid → Except String Str}

/-- Who gets a token has the password of a user, and the token is one of the user. -/
theorem login_eq_ok (hlogin : login db verify genToken order body = .ok token) :
    ∃ credentials user id, body.login = some credentials ∧
      db.get (userWith "username" (.string credentials.username)) order = .ok user ∧
      verify credentials.password user.passwd = true ∧ user.id = some id ∧
      genToken id = .ok token := by
  obtain ⟨credentials, hparsed, hlogin⟩ := bind_eq_ok hlogin
  have hbody : body.login = some credentials := by
    unfold parsed at hparsed
    split at hparsed
    · next value hvalue =>
        obtain rfl := Except.ok.inj hparsed
        exact hvalue
    · cases hparsed
  cases hget : db.get (userWith "username" (.string credentials.username)) order with
  | error failure =>
      rw [hget] at hlogin
      cases failure <;> cases hlogin
  | ok user =>
      rw [hget] at hlogin
      dsimp only at hlogin
      split_ifs at hlogin with hverify
      cases hid : user.id with
      | none =>
          rw [hid] at hlogin
          cases hlogin
      | some id =>
          rw [hid] at hlogin
          refine ⟨credentials, user, id, hbody, hget, hverify, hid, ?_⟩
          dsimp only [issueToken] at hlogin
          cases hgen : genToken id with
          | ok token' =>
              rw [hgen] at hlogin
              obtain rfl := Except.ok.inj hlogin
              rfl
          | error text =>
              rw [hgen] at hlogin
              cases hlogin

/-- The other services, which have the same public key, never let the token in, as long as it
is good: the directory shows nothing for it, and nothing can be uploaded with it. -/
theorem session_refused_elsewhere
    (hgen : ∀ id token, genToken id = .ok token → issuer.token moment id = .ok (.ok token))
    (hlogin : login db verify genToken order body = .ok token) (now : Int) (hnow : 0 ≤ now) :
    (∀ layers : Directory.Layers DecodingKey,
      layers.jwt = issuer.jwt.reading (Utils.Claim.read issuer.uuids Json.i32) now →
      layers.keyFile = some issuer.pubFile → ∀ m req, Presents token req.headers →
        (layers.auth m req =
          if Directory.AuthLayer.unsupported req.headers then .ok (Directory.AuthLayer.refuse 415)
          else .error .unwrapErr) ∧
        ∀ resp, layers.call m req = .ok resp → resp.body = .empty) ∧
    ∀ peers : UploadFiles.Peers DecodingKey,
      peers.jwt = issuer.jwt.reading (UploadFiles.Claim.read issuer.uuids) now →
      peers.keyFile = some issuer.pubFile → ∀ next request, Presents token request.headers →
        UploadFiles.midllewareToken peers next request =
          some (if (JwtCookie.search request.headers).isSome then .ofResponse (.error .unwrapErr)
            else UploadFiles.refuse 401 (some "Token is not present".toList)) := by
  obtain ⟨credentials, user, id, -, -, -, -, htoken⟩ := login_eq_ok hlogin
  obtain ⟨claim, hstands⟩ := Issuer.exists_standsFor (hgen id token htoken)
  refine ⟨fun layers hjwt hkeyFile m req hpresents => ?_,
    fun peers hjwt hkeyFile next request hpresents => ?_⟩
  · have hverified : verifyToken layers.jwt layers.keyFile token = .error .unwrapErr := by
      rw [hjwt, hkeyFile, Issuer.verifyToken_reading hstands _ hnow, read_i32, ite_self]
    have hauth : layers.auth m req =
        if Directory.AuthLayer.unsupported req.headers then .ok (Directory.AuthLayer.refuse 415)
        else .error .unwrapErr := by
      rw [Directory.Layers.auth, Directory.AuthLayer.call, hpresents.search hstands.signed.chars]
      dsimp only
      rw [hverified]
    refine ⟨hauth, fun resp hcall => ?_⟩
    rcases Directory.call_eq_ok hcall with hempty | ⟨headers, hanswer⟩
    · exact hempty
    · rw [hauth] at hanswer
      split_ifs at hanswer
      exact (congrArg HttpResponse.body (Except.ok.inj hanswer)).symm
  · have hverified : verifyToken peers.jwt peers.keyFile token = .error .unwrapErr := by
      rw [hjwt, hkeyFile, Issuer.verifyToken_reading hstands _ hnow, read_role, ite_self]
    rw [UploadFiles.midllewareToken]
    rcases hpresents.cookie_search hstands.signed.chars with hsearch | hsearch
    · rw [hsearch]
      dsimp only
      rw [hverified]
      rfl
    · rw [hsearch]
      rfl

end Login

/-! ## A login of the user with the nil id -/

def nilUuids : UuidText where
  write id := if id = Uuid.nil then nilText else id.val.map fun b => Char.ofNat b.toNat
  parse text :=
    if text = nilText then some Uuid.nil else Uuid.fromSlice (text.map fun c => UInt8.ofNat c.toNat)
  parse_write id := by
    by_cases hid : id = Uuid.nil
    · rw [if_pos hid, if_pos rfl, hid]
    · have htext : (id.val.map fun b => Char.ofNat b.toNat) ≠ nilText := by
        intro htext
        have hlength := congrArg List.length htext
        rw [List.length_map, id.property] at hlength
        exact absurd hlength (by decide)
      have hbytes : (id.val.map fun b => Char.ofNat b.toNat).map
          (fun c => UInt8.ofNat c.toNat) = id.val := by
        rw [List.map_map]
        conv_rhs => rw [← List.map_id id.val]
        refine List.map_congr_left fun b _ => ?_
        have hvalid : b.toNat.isValidChar := .inl (by have hlt := b.toNat_lt; omega)
        rw [Function.comp_apply, Char.ofNat, dif_pos hvalid]
        exact UInt8.ofNat_toNat
      rw [if_neg hid, if_neg htext, hbytes, Uuid.fromSlice, dif_pos id.property]

def midnight : Moment :=
  { exp := ⟨0, by decide⟩, default := ⟨0, by decide⟩, iat := ⟨0, by decide⟩, newV4 := Uuid.nil
    exp_nonneg := by decide }

/-- What is signed for the nil user at midnight. -/
def nilPayload : Payload :=
  [("iss", .text ['h']), ("sub", .text nilText), ("exp", .number 21600), ("iat", .number 0)]

def smallJwt : JsonWebToken Unit Unit where
  encodingKey _ := some ()
  decodingKey _ := some ()
  encode payload _ := if payload = nilPayload then some ['t'] else none
  decode read now token _ := if token = ['t'] ∧ now ≤ 21660 then read nilPayload else none

def smallIssuer : Issuer Unit Unit where
  jwt := smallJwt
  uuids := nilUuids
  host := ['h']
  privFile := some [0]
  pubFile := [0]
  dec := ()
  opens := rfl
  signs file payload exp token _ _ _ htoken := by
    have hencode : (if payload = nilPayload then some ['t'] else none) = some token := htoken
    split_ifs at hencode with hpayload
    obtain rfl := Option.some.inj hencode
    subst hpayload
    have hvalid (now : Int) : Validates now nilPayload ↔ now ≤ 21660 := by
      simp [Validates, nilPayload]
    refine ⟨fun read now _ hgood => ?_, fun read now _ hbad => ?_, fun c hc => ?_⟩
    · exact if_pos ⟨rfl, (hvalid now).1 hgood⟩
    · exact if_neg fun h => hbad ((hvalid now).2 h.2)
    · rw [List.mem_singleton.1 hc]
      exact .inl (by decide)

def nilLogin : Body := { Body.empty with login := some { username := ['a'], password := ['p'] } }

def nilVerify (password passwd : Str) : Bool := password = ['p'] ∧ passwd = ['h']

def nilToken (id : Uuid) : Except String Str :=
  if id = Uuid.nil then .ok ['t'] else .error "Gen Ecds fail"

theorem token_of_nilToken (id : Uuid) (token : Str) (htoken : nilToken id = .ok token) :
    smallIssuer.token midnight id = .ok (.ok token) := by
  unfold nilToken at htoken
  split_ifs at htoken with hid
  obtain rfl := Except.ok.inj htoken
  rw [hid]
  rfl

def nilPeers : UploadFiles.Peers Unit where
  jwt := smallJwt.reading (UploadFiles.Claim.read nilUuids) 0
  keyFile := some [0]
  userInfo _ := none
  protoRole _ := none

/-- The directory shows the bucket `b` to no one who comes with the token behind `Bearer`, and
the service for uploads finds no token. -/
theorem nil_session_sees_nothing :
    (∃ layers : Directory.Layers Unit, layers.keyFile = some [0] ∧
      ∀ req : HttpRequest Directory.Incoming, req.headers = (bearerRequest "t").headers →
        ∀ resp, layers.call Directory.mapOfB req = .ok resp → resp.body = .empty) ∧
    ∀ next (request : UploadFiles.Incoming), request.headers = (bearerRequest "t").headers →
      UploadFiles.midllewareToken nilPeers next request =
        some (UploadFiles.refuse 401 (some "Token is not present".toList)) := by
  have hlogin : login oneUser nilVerify nilToken .inserted nilLogin = .ok ['t'] := rfl
  obtain ⟨hlayers, hpeers⟩ :=
    session_refused_elsewhere token_of_nilToken hlogin 0 (Int.le_refl 0)
  have hpresents {headers : HeaderMap} (hheaders : headers = (bearerRequest "t").headers) :
      Presents ['t'] headers := by
    rw [hheaders]
    exact .bearer rfl rfl
  constructor
  · obtain ⟨cors, hcors⟩ := Directory.exists_corsOfMain
    refine ⟨{
      cors
      jwt := smallJwt.reading (Utils.Claim.read nilUuids Json.i32) 0
      keyFile := some [0]
      rfc3339 := fun _ => none
      built := hcors }, rfl, fun req hheaders => ?_⟩
    exact (hlayers _ rfl rfl Directory.mapOfB req (hpresents hheaders)).2
  · intro next request hheaders
    rw [hpeers nilPeers rfl rfl next request (hpresents hheaders), hheaders]
    rfl

end WsHyper.Auth
