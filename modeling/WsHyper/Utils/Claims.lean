import WsHyper.Lib.AssocMap
import WsHyper.Lib.Sql
import WsHyper.Utils.Tokens

/-!
# Claims

`ClaimBuilder` builds the claims of a token, which are signed as a JSON object.  Each
service reads the object by the fields of a type of its own, so a token that verifies for
one of them need not do so for another.
-/

namespace WsHyper.Utils

open WsHyper.Lib

/-! ## JSON objects -/

/-- A value in the JSON of claims. -/
inductive Json
  | text (text : Str)
  | number (n : Int)
  deriving DecidableEq

abbrev Payload := List (String × Json)

namespace Json

def str : Json → Option Str
  | .text s => some s
  | .number _ => none

def i64 : Json → Option Int
  | .number n => if -9223372036854775808 ≤ n ∧ n < 9223372036854775808 then some n else none
  | .text _ => none

def i32 : Json → Option Int
  | .number n => if -2147483648 ≤ n ∧ n < 2147483648 then some n else none
  | .text _ => none

theorem i64_number {n : Int} (hrange : -9223372036854775808 ≤ n ∧ n < 9223372036854775808) :
    i64 (.number n) = some n := if_pos hrange

end Json

namespace Payload

variable {α : Type}

def field (payload : Payload) (name : String) (read : Json → Option α) : Option α :=
  (payload.lookup name).bind read

def optField (payload : Payload) (name : String) (read : Json → Option α) : Option (Option α) :=
  match payload.lookup name with
  | none => some none
  | some value => (read value).map some

/-- `skip_serializing_if = "Option::is_none"`. -/
def optEntry (name : String) (write : α → Json) (value : Option α) : Payload :=
  value.toList.map fun value => (name, write value)

@[simp] theorem lookup_optEntry_self (name : String) (write : α → Json) (value : Option α) :
    (optEntry name write value).lookup name = value.map write := by
  cases value <;> simp [optEntry]

theorem lookup_optEntry_of_ne {name other : String} (hne : other ≠ name) (write : α → Json)
    (value : Option α) : (optEntry name write value).lookup other = none := by
  cases value with
  | none => rfl
  | some value => simp [optEntry, Ne.symm hne]

theorem optField_of_lookup {payload : Payload} {name : String} {write : α → Json}
    {read : Json → Option α} {value : Option α} (hlookup : payload.lookup name = value.map write)
    (hread : ∀ x ∈ value, read (write x) = some x) : payload.optField name read = some value := by
  rw [optField, hlookup]
  cases value with
  | none => rfl
  | some x =>
      rw [Option.map_some]
      dsimp only
      rw [hread x rfl]
      rfl

end Payload

/-- How identifiers are written in JSON, as the crate `uuid` has it. -/
structure UuidText where
  write : Uuid → Str
  parse : Str → Option Uuid
  parse_write : ∀ id, parse (write id) = some id

namespace UuidText

variable (uuids : UuidText)

def json (id : Uuid) : Json := .text (uuids.write id)

def read (value : Json) : Option Uuid := value.str.bind uuids.parse

@[simp] theorem read_json (id : Uuid) : uuids.read (uuids.json id) = some id := by
  simp [read, json, Json.str, uuids.parse_write]

end UuidText

/-! ## Claims -/

structure Claim (T : Type) where
  iss : Option Str
  sub : T
  exp : Int
  nbf : Option Int
  iat : Option Int
  jti : Option Uuid
  aud : Option Str

namespace Claim

variable {T : Type} (uuids : UuidText)

def setIss (claim : Claim T) (iss : Str) : Claim T := { claim with iss := some iss }

/-- `Serialize`. -/
def payload (write : T → Json) (claim : Claim T) : Payload :=
  Payload.optEntry "iss" .text claim.iss ++ [("sub", write claim.sub)] ++
    [("exp", .number claim.exp)] ++ Payload.optEntry "nbf" .number claim.nbf ++
    Payload.optEntry "iat" .number claim.iat ++ Payload.optEntry "jti" uuids.json claim.jti ++
    Payload.optEntry "aud" .text claim.aud

section Lookup

variable (write : T → Json) (claim : Claim T)

@[simp] theorem lookup_iss : (claim.payload uuids write).lookup "iss" = claim.iss.map .text := by
  simp [payload, List.lookup_append, Payload.lookup_optEntry_of_ne]

@[simp] theorem lookup_sub :
    (claim.payload uuids write).lookup "sub" = some (write claim.sub) := by
  simp [payload, List.lookup_append, Payload.lookup_optEntry_of_ne]

@[simp] theorem lookup_exp :
    (claim.payload uuids write).lookup "exp" = some (.number claim.exp) := by
  simp [payload, List.lookup_append, Payload.lookup_optEntry_of_ne]

@[simp] theorem lookup_nbf : (claim.payload uuids write).lookup "nbf" = claim.nbf.map .number := by
  simp [payload, List.lookup_append, Payload.lookup_optEntry_of_ne]

@[simp] theorem lookup_iat : (claim.payload uuids write).lookup "iat" = claim.iat.map .number := by
  simp [payload, List.lookup_append, Payload.lookup_optEntry_of_ne]

@[simp] theorem lookup_jti :
    (claim.payload uuids write).lookup "jti" = claim.jti.map uuids.json := by
  simp [payload, List.lookup_append, Payload.lookup_optEntry_of_ne]

@[simp] theorem lookup_aud : (claim.payload uuids write).lookup "aud" = claim.aud.map .text := by
  simp [payload, List.lookup_append, Payload.lookup_optEntry_of_ne]

theorem lookup_eq_none {name : String}
    (hname : name ∉ ["iss", "sub", "exp", "nbf", "iat", "jti", "aud"]) :
    (claim.payload uuids write).lookup name = none := by
  simp only [List.mem_cons, List.not_mem_nil, or_false, not_or] at hname
  simp [payload, List.lookup_append, Payload.lookup_optEntry_of_ne, hname, Ne.symm hname.2.1,
    Ne.symm hname.2.2.1]

end Lookup

/-- `Deserialize`; other fields are skipped. -/
def read (readSub : Json → Option T) (payload : Payload) : Option (Claim T) := do
  let iss ← payload.optField "iss" Json.str
  let sub ← payload.field "sub" readSub
  let exp ← payload.field "exp" Json.i64
  let nbf ← payload.optField "nbf" Json.i64
  let iat ← payload.optField "iat" Json.i64
  let jti ← payload.optField "jti" uuids.read
  let aud ← payload.optField "aud" Json.str
  return { iss, sub, exp, nbf, iat, jti, aud }

/-- The times are ones that an `i64` holds. -/
def Fits (claim : Claim T) : Prop :=
  ∀ time ∈ some claim.exp :: [claim.nbf, claim.iat], ∀ t ∈ time,
    -9223372036854775808 ≤ t ∧ t < 9223372036854775808

/-- What is written is read again. -/
theorem read_payload {write : T → Json} {readSub : Json → Option T}
    (hsub : ∀ sub, readSub (write sub) = some sub) {claim : Claim T} (hfits : claim.Fits) :
    read uuids readSub (claim.payload uuids write) = some claim := by
  have hexp : Json.i64 (.number claim.exp) = some claim.exp :=
    Json.i64_number (hfits _ (by simp) _ rfl)
  have hnbf : (claim.payload uuids write).optField "nbf" Json.i64 = some claim.nbf :=
    Payload.optField_of_lookup (lookup_nbf uuids write claim) fun t ht =>
      Json.i64_number (hfits claim.nbf (by simp) t ht)
  have hiat : (claim.payload uuids write).optField "iat" Json.i64 = some claim.iat :=
    Payload.optField_of_lookup (lookup_iat uuids write claim) fun t ht =>
      Json.i64_number (hfits claim.iat (by simp) t ht)
  have hiss : (claim.payload uuids write).optField "iss" Json.str = some claim.iss :=
    Payload.optField_of_lookup (lookup_iss uuids write claim) fun _ _ => rfl
  have hjti : (claim.payload uuids write).optField "jti" uuids.read = some claim.jti :=
    Payload.optField_of_lookup (lookup_jti uuids write claim) fun id _ => uuids.read_json id
  have haud : (claim.payload uuids write).optField "aud" Json.str = some claim.aud :=
    Payload.optField_of_lookup (lookup_aud uuids write claim) fun _ _ => rfl
  simp [read, hiss, hnbf, hiat, hjti, haud, Payload.field, hsub, hexp]

end Claim

/-! ## The builder -/

/-- A time, in seconds after the Unix epoch; there is none after the year 9999. -/
abbrev UnixTime := { t : Int // -377705116800 ≤ t ∧ t ≤ 253402300799 }

/-- `OffsetDateTime + Duration`. -/
def UnixTime.add (now : UnixTime) (duration : Nat) : Except Panic UnixTime :=
  if h : now.val + duration ≤ 253402300799 then
    .ok ⟨now.val + duration, by omega, h⟩
  else .error .unwrapNone

namespace ClaimBuilder

structure Id (T : Type) where
  sub : T

structure NoId

def defaultExpMins : Nat := 15

end ClaimBuilder

/-- Without metadata, which no claims of this repository have. -/
structure ClaimBuilder (I : Type) where
  jti : Bool
  nbf : Option UnixTime
  sub : I
  exp : Option UnixTime
  iss : Option Str
  iat : Bool
  aud : Option Str

namespace ClaimBuilder

def default : ClaimBuilder NoId :=
  { jti := false
    nbf := none
    sub := {}
    exp := none
    iss := none
    iat := false
    aud := none }

variable {I T : Type}

/-- `sub`, which a builder takes once. -/
def withSub (builder : ClaimBuilder NoId) (sub : T) : ClaimBuilder (Id T) :=
  { jti := builder.jti
    nbf := builder.nbf
    sub := { sub }
    exp := builder.exp
    iss := builder.iss
    iat := builder.iat
    aud := builder.aud }

/-- `exp`, from the time of the call on. -/
def withExp (builder : ClaimBuilder I) (now : UnixTime) (duration : Nat) :
    Except Panic (ClaimBuilder I) := do
  let exp ← now.add duration
  return { builder with exp := some exp }

def withIat (builder : ClaimBuilder I) (iat : Bool) : ClaimBuilder I := { builder with iat }

/-- The clock is read for the default time, which is worked out even where it is not used,
and again for `iat`. -/
def build (builder : ClaimBuilder (Id T)) (now nowIat : UnixTime) (newV4 : Uuid) :
    Except Panic (Claim T) := do
  let defaultExp ← now.add (defaultExpMins * 60)
  return {
    iss := builder.iss
    sub := builder.sub.sub
    exp := (builder.exp.getD defaultExp).val
    nbf := builder.nbf.map Subtype.val
    iat := if builder.iat then some nowIat.val else none
    jti := if builder.jti then some newV4 else none
    aud := builder.aud }

theorem fits_of_build {builder : ClaimBuilder (Id T)} {now nowIat : UnixTime} {newV4 : Uuid}
    {claim : Claim T} (hbuild : builder.build now nowIat newV4 = .ok claim) : claim.Fits := by
  obtain ⟨defaultExp, -, hclaim⟩ := bind_eq_ok hbuild
  obtain rfl := Except.ok.inj hclaim
  have hfits (time : UnixTime) :
      -9223372036854775808 ≤ time.val ∧ time.val < 9223372036854775808 := by
    have hrange := time.property
    omega
  intro time htime t ht
  simp only [List.mem_cons, List.not_mem_nil, or_false] at htime
  rcases htime with rfl | rfl | rfl
  · obtain rfl := Option.some.inj ht
    exact hfits _
  · obtain ⟨nbf, -, rfl⟩ := Option.map_eq_some_iff.1 ht
    exact hfits nbf
  · split_ifs at ht with hiat
    · obtain rfl := Option.some.inj ht
      exact hfits nowIat
    · cases ht

end ClaimBuilder

/-! ## Signed tokens -/

/-- `jsonwebtoken` with ES256: keys from files, and tokens that are signed with the one key
and checked with the other at a time. -/
structure JsonWebToken (EncodingKey DecodingKey : Type) where
  encodingKey : List UInt8 → Option EncodingKey
  decodingKey : List UInt8 → Option DecodingKey
  encode : Payload → EncodingKey → Option Str
  decode : ∀ {C : Type}, (Payload → Option C) → Int → Str → DecodingKey → Option C

/-- `Validation::new`: a token is good for a minute longer than it says, and for no audience. -/
def Validates (now : Int) (payload : Payload) : Prop :=
  (∃ exp, payload.lookup "exp" = some (.number exp) ∧ now ≤ exp + 60) ∧
    payload.lookup "aud" = none

def IsTokenChar (c : Char) : Prop := c.isAlphanum ∨ c = '-' ∨ c = '_' ∨ c = '.'

instance (c : Char) : Decidable (IsTokenChar c) :=
  inferInstanceAs (Decidable (_ ∨ _ ∨ _ ∨ _))

theorem IsTokenChar.visible {c : Char} (hc : IsTokenChar c) : IsVisibleChar c := by
  rcases hc with halnum | rfl | rfl | rfl
  · change (decide (c.val ≥ 'A'.val ∧ c.val ≤ 'Z'.val) ||
      (decide (c.val ≥ 'a'.val) && decide (c.val ≤ 'z'.val)) ||
      (decide (c.val ≥ '0'.val) && decide (c.val ≤ '9'.val))) = true at halnum
    simp [UInt32.le_iff_toNat_le] at halnum
    unfold IsVisibleChar
    omega
  · decide
  · decide
  · decide

theorem IsTokenChar.ne_equals {c : Char} (hc : IsTokenChar c) : c ≠ '=' := by
  rintro rfl
  exact absurd hc (by decide)

namespace JsonWebToken

variable {EncodingKey DecodingKey : Type} (jwt : JsonWebToken EncodingKey DecodingKey)

def reading {C : Type} (read : Payload → Option C) (now : Int) : Jwt DecodingKey C :=
  { fromEcPem := jwt.decodingKey, decode := jwt.decode read now }

/-- `gen_token`, where `keyFile` is what can be read of the private key. -/
def genToken (keyFile : Option (List UInt8)) (payload : Payload) :
    Except Panic (Except JwtHandleError Str) := do
  let privKey ← unwrapResult keyFile
  let privKey ← unwrapResult (jwt.encodingKey privKey)
  let token ← unwrapResult (jwt.encode payload privKey)
  return .ok token

/-- What is known of a token that was signed: under the public key it is read as long as the
payload is valid, by a clock that shows a time after the epoch. -/
structure Signed (dec : DecodingKey) (payload : Payload) (token : Str) : Prop where
  reads : ∀ {C : Type} (read : Payload → Option C) now, 0 ≤ now → Validates now payload →
    jwt.decode read now token dec = read payload
  expires : ∀ {C : Type} (read : Payload → Option C) now, 0 ≤ now → ¬Validates now payload →
    jwt.decode read now token dec = none
  chars : ∀ c ∈ token, IsTokenChar c

end JsonWebToken

section Signed

variable {EncodingKey DecodingKey T C : Type} {jwt : JsonWebToken EncodingKey DecodingKey}
  {dec : DecodingKey} {uuids : UuidText} {write : T → Json} {claim : Claim T} {token : Str}

theorem validates_payload_iff {now : Int} :
    Validates now (claim.payload uuids write) ↔ now ≤ claim.exp + 60 ∧ claim.aud = none := by
  simp [Validates]

/-- A token that was signed is read by the fields that the reader asks for, and until a minute
after its end. -/
theorem decode_of_signed (hsigned : jwt.Signed dec (claim.payload uuids write) token)
    (haud : claim.aud = none) (read : Payload → Option C) {now : Int} (hnow : 0 ≤ now) :
    jwt.decode read now token dec =
      if now ≤ claim.exp + 60 then read (claim.payload uuids write) else none := by
  split_ifs with hend
  · exact hsigned.reads read now hnow (validates_payload_iff.2 ⟨hend, haud⟩)
  · exact hsigned.expires read now hnow fun hvalid => hend (validates_payload_iff.1 hvalid).1

end Signed

/-! ## Presenting a token -/

/-- The headers present a token: in the first cookie that the search comes to, or behind
`Bearer` where it finds none. -/
inductive Presents (token : Str) (headers : HeaderMap) : Prop
  | cookie (cookies : List Cookie) (cookie : Cookie)
      (hvisible : IsVisibleText (Cookie.render cookies))
      (hheader : headers.get "cookie" = some (.ofStr (Cookie.render cookies)))
      (hfound : Cookie.found cookies = some cookie) (hvalue : cookie.value = token)
  | bearer (hcookie : JwtCookie.search headers = none)
      (hheader : headers.get "authorization" = some (.ofStr (bearer ++ token)))

section Presents

variable {token : Str} {headers : HeaderMap}

theorem search_of_cookie (hchars : ∀ c ∈ token, IsTokenChar c) {cookies : List Cookie}
    {cookie : Cookie} (hvisible : IsVisibleText (Cookie.render cookies))
    (hheader : headers.get "cookie" = some (.ofStr (Cookie.render cookies)))
    (hfound : Cookie.found cookies = some cookie) (hvalue : cookie.value = token) :
    JwtCookie.search headers = some token := by
  rw [Cookie.search_of_visible hvisible hheader, hfound, Option.map_some, Cookie.valueToEquals,
    hvalue, List.takeWhile_eq_self_iff.2]
  intro c hc
  exact decide_eq_true (hchars c hc).ne_equals

theorem search_of_bearer (hchars : ∀ c ∈ token, IsTokenChar c)
    (hheader : headers.get "authorization" = some (.ofStr (bearer ++ token))) :
    JwtHeader.search headers = some token := by
  have hvisible : IsVisibleText (bearer ++ token) := by
    intro c hc
    rcases List.mem_append.1 hc with hc | hc
    · exact (show IsVisibleText bearer by decide) c hc
    · exact (hchars c hc).visible
  rw [JwtHeader.search, hheader, Option.bind_some, HeaderValue.toStr_ofStr hvisible,
    Option.bind_some, if_pos (List.prefix_append _ _), List.drop_left]

theorem Presents.search (hpresents : Presents token headers)
    (hchars : ∀ c ∈ token, IsTokenChar c) : JwtBoth.search headers = some token := by
  cases hpresents with
  | cookie cookies cookie hvisible hheader hfound hvalue =>
      rw [JwtBoth.search, search_of_cookie hchars hvisible hheader hfound hvalue]
      rfl
  | bearer hcookie hheader =>
      rw [JwtBoth.search, hcookie, search_of_bearer hchars hheader]
      rfl

/-- In the cookies there is the token or none. -/
theorem Presents.cookie_search (hpresents : Presents token headers)
    (hchars : ∀ c ∈ token, IsTokenChar c) :
    JwtCookie.search headers = some token ∨ JwtCookie.search headers = none := by
  cases hpresents with
  | cookie cookies cookie hvisible hheader hfound hvalue =>
      exact .inl (search_of_cookie hchars hvisible hheader hfound hvalue)
  | bearer hcookie hheader => exact .inr hcookie

end Presents

end WsHyper.Utils
