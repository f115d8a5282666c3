import WsHyper.Lib.HeaderText
import WsHyper.Lib.Panic
import WsHyper.Lib.Text

/-!
# Tokens from requests

`JwtCookie` takes the token from the cookies, `JwtHeader` from the `Authorization`
header, and `JwtBoth` from the header only if the cookies have none.  `verifyToken`
checks a token against the public key.
-/

namespace WsHyper.Utils

open WsHyper.Lib

def jwtIdentified : Str := "JWT".toList

def JwtCookie.search (headers : HeaderMap) : Option Str :=
  (headers.get "cookie").bind fun value => value.toStr.bind fun text =>
    (((text.splitOn ';').map Whitespace.trim).find? (jwtIdentified <+: ·)).bind
      fun pair => (pair.splitOn '=')[1]?

def bearer : Str := "Bearer ".toList

def JwtHeader.search (headers : HeaderMap) : Option Str :=
  (headers.get "authorization").bind fun value => value.toStr.bind fun text =>
    if bearer <+: text then some (text.drop bearer.length) else none

def JwtBoth.search (headers : HeaderMap) : Option Str :=
  (JwtCookie.search headers).or (JwtHeader.search headers)

/-! ## Verification -/

/-- What `jsonwebtoken` gives for a key file and for a token; there is nothing for a file
that is no key, and for a token that does not verify or whose claims are of another shape. -/
structure Jwt (Key Claim : Type) where
  fromEcPem : List UInt8 → Option Key
  decode : Str → Key → Option Claim

inductive JwtHandleError
  | envNotFound
  | genEc
  deriving DecidableEq

def JwtHandleError.text : JwtHandleError → String
  | envNotFound => "Var Environment not found"
  | genEc => "Gen Ecds fail"

section Verification

variable {Key Claim : Type}

/-- `verify_token`, where `keyFile` is what can be read of the public key. -/
def verifyToken (jwt : Jwt Key Claim) (keyFile : Option (List UInt8)) (token : Str) :
    Except Panic (Except JwtHandleError Claim) := do
  let pemKey ← unwrapResult keyFile
  let dec ← unwrapResult (jwt.fromEcPem pemKey)
  let claims ← unwrapResult (jwt.decode token dec)
  .ok (.ok claims)

/-- The token verifies under the public key. -/
def Verifies (jwt : Jwt Key Claim) (keyFile : Option (List UInt8)) (token : Str) (claim : Claim) :
    Prop :=
  ∃ pemKey dec, keyFile = some pemKey ∧ jwt.fromEcPem pemKey = some dec ∧
    jwt.decode token dec = some claim

variable {jwt : Jwt Key Claim} {keyFile : Option (List UInt8)} {token : Str}

theorem verifyToken_of_verifies {claim : Claim} (h : Verifies jwt keyFile token claim) :
    verifyToken jwt keyFile token = .ok (.ok claim) := by
  obtain ⟨pemKey, dec, hfile, hkey, hclaim⟩ := h
  rw [verifyToken, hfile, unwrapResult, ok_bind, hkey, unwrapResult, ok_bind, hclaim]
  rfl

/-- There is no error: a token that does not verify makes the call panic. -/
theorem verifyToken_panics (h : ∀ claim, ¬Verifies jwt keyFile token claim) :
    ∃ panic, verifyToken jwt keyFile token = .error panic := by
  cases hresult : verifyToken jwt keyFile token with
  | error panic => exact ⟨panic, rfl⟩
  | ok result =>
      obtain ⟨pemKey, hfile, hresult⟩ := bind_eq_ok hresult
      obtain ⟨dec, hkey, hresult⟩ := bind_eq_ok hresult
      obtain ⟨claim, hclaim, -⟩ := bind_eq_ok hresult
      rw [unwrapResult_eq_ok_iff] at hfile hkey hclaim
      exact absurd ⟨pemKey, dec, hfile, hkey, hclaim⟩ (h claim)

end Verification

/-! ## Cookies -/

structure Cookie where
  name : Str
  value : Str
  name_clean : ∀ c ∈ ['=', ';', ' ', '\t'], c ∉ name
  value_clean : ∀ c ∈ [';', ' ', '\t'], c ∉ value

namespace Cookie

def text (cookie : Cookie) : Str := cookie.name ++ '=' :: cookie.value

/-- `n1=v1; n2=v2`. -/
def render (cookies : List Cookie) : Str := "; ".toList.intercalate (cookies.map text)

def token (cookies : List Cookie) : Option Str :=
  (cookies.find? (·.name = jwtIdentified)).map value

def found (cookies : List Cookie) : Option Cookie :=
  cookies.find? (jwtIdentified <+: ·.name)

def valueToEquals (cookie : Cookie) : Str := cookie.value.takeWhile (· ≠ '=')

variable {cookies : List Cookie} {cookie : Cookie}

theorem semicolon_not_mem_text (cookie : Cookie) : ';' ∉ cookie.text := by
  rw [text, List.mem_append, List.mem_cons, not_or, not_or]
  exact ⟨cookie.name_clean _ (by simp), by decide, cookie.value_clean _ (by simp)⟩

theorem not_whitespace_of_visible (hvisible : IsVisibleText cookie.text) :
    ∀ c ∈ cookie.text, Whitespace.isWhitespace c = false := by
  intro c hc
  have hblank : ∀ blank ∈ [' ', '\t'], c ≠ blank := by
    rintro blank hblank rfl
    have hname : c ∉ cookie.name := cookie.name_clean c (by simp_all)
    have hvalue : c ∉ cookie.value := cookie.value_clean c (by simp_all)
    rw [text, List.mem_append, List.mem_cons] at hc
    rcases hc with hc | rfl | hc
    · exact hname hc
    · exact absurd hblank (by decide)
    · exact hvalue hc
  have hspace : c.toNat ≠ 32 := fun heq => hblank ' ' (by simp) (Char.toNat_inj.1 heq)
  have htab : c.toNat ≠ 9 := fun heq => hblank '\t' (by simp) (Char.toNat_inj.1 heq)
  have hrange := hvisible c hc
  unfold IsVisibleChar at hrange
  simp only [Whitespace.isWhitespace, List.mem_cons, List.not_mem_nil, or_false,
    decide_eq_false_iff_not]
  omega

theorem trim_text (hvisible : IsVisibleText (render cookies)) (hmem : cookie ∈ cookies)
    {front : Str} (hfront : Whitespace.IsBlank front) :
    Whitespace.trim (front ++ cookie.text) = cookie.text := by
  have hvisible' : IsVisibleText cookie.text := fun c hc =>
    hvisible c (Text.mem_intercalate.2 (.inl ⟨_, List.mem_map_of_mem hmem, hc⟩))
  have hback : Whitespace.IsBlank [] := List.forall_mem_nil _
  have htrim := Whitespace.trim_append hfront hback
    (.of_not_mem (not_whitespace_of_visible hvisible'))
  rwa [List.append_nil] at htrim

theorem map_trim_splitOn_render (hcookies : cookies ≠ [])
    (hvisible : IsVisibleText (render cookies)) :
    ((render cookies).splitOn ';').map Whitespace.trim = cookies.map text := by
  obtain ⟨cookie, rest, rfl⟩ := List.exists_cons_of_ne_nil hcookies
  have hpieces : render (cookie :: rest) =
      [';'].intercalate (cookie.text :: rest.map fun cookie => ' ' :: cookie.text) := by
    have hcons := Text.intercalate_cons_sep ';' [' '] cookie.text (rest.map text)
    rw [List.map_map] at hcons
    exact hcons
  have hsep : ∀ piece ∈ cookie.text :: rest.map (fun cookie => ' ' :: cookie.text),
      ';' ∉ piece := by
    intro piece hpiece
    rcases List.mem_cons.1 hpiece with rfl | hpiece
    · exact semicolon_not_mem_text cookie
    · obtain ⟨other, -, rfl⟩ := List.mem_map.1 hpiece
      rw [List.mem_cons, not_or]
      exact ⟨by decide, semicolon_not_mem_text other⟩
  have hnone : Whitespace.IsBlank [] := by simp [Whitespace.IsBlank]
  have hblank : Whitespace.IsBlank [' '] := by
    intro c hc
    rw [List.mem_singleton.1 hc]
    rfl
  rw [hpieces, List.splitOn_intercalate _ hsep (by simp), List.map_cons, List.map_cons,
    List.map_map]
  congr 1
  · exact trim_text hvisible List.mem_cons_self hnone
  · exact List.map_congr_left fun other hother =>
      trim_text hvisible (List.mem_cons_of_mem _ hother) hblank

theorem equals_not_mem_name (cookie : Cookie) : '=' ∉ cookie.name :=
  cookie.name_clean _ (by simp)

theorem jwt_prefix_text_iff (cookie : Cookie) :
    jwtIdentified <+: cookie.text ↔ jwtIdentified <+: cookie.name :=
  Text.prefix_append_cons_iff (by decide)

theorem splitOn_text_getElem (cookie : Cookie) :
    (cookie.text.splitOn '=')[1]? = some cookie.valueToEquals := by
  rw [text, List.splitOn_append_cons_self_of_not_mem (equals_not_mem_name cookie),
    List.getElem?_cons_succ, Text.splitOn_head, valueToEquals]

theorem search_of_visible {headers : HeaderMap} (hvisible : IsVisibleText (render cookies))
    (hcookie : headers.get "cookie" = some (.ofStr (render cookies))) :
    JwtCookie.search headers = (found cookies).map valueToEquals := by
  rw [JwtCookie.search, hcookie, Option.bind_some, HeaderValue.toStr_ofStr hvisible,
    Option.bind_some]
  by_cases hcookies : cookies = []
  · rw [hcookies]
    rfl
  · rw [map_trim_splitOn_render hcookies hvisible, List.find?_map, found]
    have hsame : (fun text => decide (jwtIdentified <+: text)) ∘ text =
        fun cookie : Cookie => decide (jwtIdentified <+: cookie.name) := by
      funext cookie
      rw [Function.comp_apply, decide_eq_decide]
      exact jwt_prefix_text_iff cookie
    rw [hsame]
    cases cookies.find? fun cookie => decide (jwtIdentified <+: cookie.name) with
    | none => rfl
    | some cookie => exact splitOn_text_getElem cookie

theorem search_of_not_visible {headers : HeaderMap} (hvisible : ¬IsVisibleText (render cookies))
    (hcookie : headers.get "cookie" = some (.ofStr (render cookies))) :
    JwtCookie.search headers = none := by
  rw [JwtCookie.search, hcookie, Option.bind_some, HeaderValue.toStr_ofStr_eq_none hvisible]
  rfl

end Cookie

/-- The search finds the cookie by its exact name, and the header is looked at exactly if
there is none. -/
def SearchesByName (cookies : List Cookie) (headers : HeaderMap) : Prop :=
  JwtCookie.search headers = Cookie.token cookies ∧
    JwtBoth.search headers = match Cookie.token cookies with
      | some token => some token
      | none => JwtHeader.search headers

/-- Where the header is visible text, the first cookie whose name begins like the name of the
token has, up to its first `=`, the value of the token; where it is not, there is no token. -/
def TokenFirst (cookies : List Cookie) : Prop :=
  if IsVisibleText (Cookie.render cookies) then
    ∀ cookie, Cookie.found cookies = some cookie →
      Cookie.token cookies = some cookie.valueToEquals
  else ∀ cookie ∈ cookies, cookie.name ≠ jwtIdentified

namespace Cookie

variable {cookies : List Cookie}

theorem token_eq_none_iff :
    token cookies = none ↔ ∀ cookie ∈ cookies, cookie.name ≠ jwtIdentified := by
  simp [token]

theorem token_eq_none_of_found (hfound : found cookies = none) : token cookies = none := by
  rw [token_eq_none_iff]
  intro cookie hmem hname
  have hstarts := List.find?_eq_none.1 hfound cookie hmem
  rw [hname] at hstarts
  exact hstarts (by decide)

end Cookie

theorem searchesByName_iff_search (cookies : List Cookie) (headers : HeaderMap) :
    SearchesByName cookies headers ↔ JwtCookie.search headers = Cookie.token cookies := by
  refine ⟨And.left, fun hsearch => ⟨hsearch, ?_⟩⟩
  rw [JwtBoth.search, hsearch]
  cases Cookie.token cookies <;> rfl

/-- The search is by name exactly if the first candidate has the value of the token. -/
theorem searchesByName_iff (cookies : List Cookie) (headers : HeaderMap)
    (hcookie : headers.get "cookie" = some (.ofStr (Cookie.render cookies))) :
    SearchesByName cookies headers ↔ TokenFirst cookies := by
  rw [searchesByName_iff_search, TokenFirst]
  split_ifs with hvisible
  · rw [Cookie.search_of_visible hvisible hcookie]
    cases hfound : Cookie.found cookies with
    | none => simp [Cookie.token_eq_none_of_found hfound]
    | some cookie => simp [eq_comm]
  · rw [Cookie.search_of_not_visible hvisible hcookie, eq_comm, Cookie.token_eq_none_iff]

def jwtCookie : Cookie :=
  { name := "JWT".toList
    value := "a".toList
    name_clean := by simp
    value_clean := by simp }

/-- One cookie, which is the token. -/
theorem jwt_searched_by_name :
    SearchesByName [jwtCookie] [("cookie", .ofStr "JWT=a".toList)] := by
  refine (searchesByName_iff [jwtCookie] _ rfl).2 ?_
  rw [TokenFirst, if_pos (by decide)]
  intro cookie hfound
  obtain rfl := Option.some.inj hfound
  decide

def jwtxCookie : Cookie :=
  { name := "JWTX".toList
    value := "b".toList
    name_clean := by simp
    value_clean := by simp }

/-- A cookie whose name only begins like the one of the token is taken for it. -/
theorem jwtx_taken_for_token :
    JwtCookie.search [("cookie", .ofStr (Cookie.render [jwtxCookie, jwtCookie]))] =
        some "b".toList ∧
      ¬SearchesByName [jwtxCookie, jwtCookie]
        [("cookie", .ofStr (Cookie.render [jwtxCookie, jwtCookie]))] := by
  refine ⟨by decide, fun hsearches => ?_⟩
  exact absurd hsearches.1 (by decide)

end WsHyper.Utils
