import WsHyper.Auth.Panics
import WsHyper.Utils.Tokens

/-!
# The entry point

`EPoint` answers `/login`, and lets requests for the API through whose token verifies.
-/

namespace WsHyper.Auth

open WsHyper.Lib Utils

structure Claim where
  sub : Uuid

structure EntryRequest where
  method : Method
  path : Str
  headers : HeaderMap
  body : Body

inductive EntryResponse
  | api (response : Response)
  | token (token : Str)

structure Service (Key : Type) where
  jwt : Jwt Key Claim
  keyFile : Option (List UInt8)
  /-- `bcrypt::verify`. -/
  verify : Str → Str → Bool
  genToken : Uuid → Except String Str

section Entry

variable {Key : Type} (service : Service Key) (chance : Chance) (db : Db)

/-- A request for the API, which is handed on with its claim. -/
def EPoint.enter (api : Claim → Handled) (request : EntryRequest) : Handled :=
  match JwtBoth.search request.headers with
  | none => refuse "Token not found" 401
  | some token =>
      match verifyToken service.jwt service.keyFile token with
      | .error panic => .error (.panics panic)
      | .ok (.error error) => refuse error.text 401
      | .ok (.ok claim) => api claim

def EPoint.call (api : Claim → Handled) (request : EntryRequest) :
    Result ResponseErr (EntryResponse × Db) :=
  if request.path = "/login".toList ∧ request.method = .post then do
    let token ← login db service.verify service.genToken chance.order request.body
    .ok (.token token, db)
  else if prefixPath <+: request.path then do
    let (response, db) ← EPoint.enter service api request
    .ok (.api response, db)
  else refuse "Path not found" 400

/-! ## Who gets in -/

def EntryRequest.claimed (request : EntryRequest) (claim : Claim) : Request :=
  { method := request.method
    path := request.path
    body := request.body
    claim := some claim.sub }

def entered (handled : Handled) : Result ResponseErr (EntryResponse × Db) := do
  let (response, db) ← handled
  .ok (.api response, db)

def Carries (request : EntryRequest) (claim : Claim) : Prop :=
  ∃ token, JwtBoth.search request.headers = some token ∧
    Verifies service.jwt service.keyFile token claim

/-- `api` gets a request exactly if its token verifies; any other is answered with 401, which
leaves the database alone; and there always is an answer. -/
structure AnswersVerified (parseUuid : Str → Option Uuid) (request : EntryRequest) : Prop where
  reaches : ∀ claim, Carries service request claim →
    ∀ api, EPoint.call service chance db api request = entered (api claim)
  refuses : (∀ claim, ¬Carries service request claim) → ∃ error, error.status = 401 ∧
    ∀ api, EPoint.call service chance db api request = .error (.fails error)
  answers : ¬Panicked (EPoint.call service chance db
    (fun claim => api parseUuid chance db (request.claimed claim)) request)

variable {service chance db} {api : Claim → Handled} {request : EntryRequest} {claim : Claim}

theorem call_eq (hstarts : prefixPath <+: request.path) :
    EPoint.call service chance db api request = entered (EPoint.enter service api request) := by
  have hlogin : request.path ≠ "/login".toList := by
    intro hpath
    rw [hpath] at hstarts
    exact absurd hstarts (by decide)
  rw [EPoint.call, if_neg fun h => hlogin h.1, if_pos hstarts]
  rfl

theorem enter_of_carries (hcarries : Carries service request claim) :
    EPoint.enter service api request = api claim := by
  obtain ⟨token, htoken, hverifies⟩ := hcarries
  rw [EPoint.enter, htoken]
  dsimp only
  rw [verifyToken_of_verifies hverifies]

theorem enter_of_no_token (htoken : JwtBoth.search request.headers = none) :
    EPoint.enter service api request = refuse "Token not found" 401 := by
  rw [EPoint.enter, htoken]

theorem enter_panics {token : Str} (htoken : JwtBoth.search request.headers = some token)
    (hcarries : ∀ claim, ¬Carries service request claim) :
    ∃ panic, EPoint.enter service api request = .error (.panics panic) := by
  obtain ⟨panic, hpanics⟩ := verifyToken_panics fun claim hverifies =>
    hcarries claim ⟨token, htoken, hverifies⟩
  refine ⟨panic, ?_⟩
  rw [EPoint.enter, htoken]
  dsimp only
  rw [hpanics]

theorem panicked_entered {handled : Handled} : Panicked (entered handled) ↔ Panicked handled := by
  rw [entered, panicked_bind]
  simp

/-- A token that verifies, and a request that `api` has an answer for; or no token. -/
def TokenAnswered (service : Service Key) (chance : Chance) (db : Db)
    (parseUuid : Str → Option Uuid) (request : EntryRequest) (path : Str) : Prop :=
  JwtBoth.search request.headers = none ∨ ∃ claim, Carries service request claim ∧
    ApiAnswers parseUuid chance db request.method path request.body claim.sub

section Answered

variable {parseUuid : Str → Option Uuid} {path : Str}

theorem panicked_api_claimed (hpath : request.path = prefixPath ++ path) :
    Panicked (Auth.api parseUuid chance db (request.claimed claim)) ↔
      ¬ApiAnswers parseUuid chance db request.method path request.body claim.sub := by
  have hclaimed : (request.claimed claim).path = prefixPath ++ path := hpath
  exact panicked_api hclaimed rfl

/-- Without a token the answer is a refusal, and no claim is there to be handed on. -/
theorem answersVerified_of_no_token (hstarts : prefixPath <+: request.path)
    (htoken : JwtBoth.search request.headers = none) :
    AnswersVerified service chance db parseUuid request := by
  have hcall : ∀ api, EPoint.call service chance db api request =
      refuse "Token not found" 401 := by
    intro api
    rw [call_eq hstarts, enter_of_no_token htoken]
    rfl
  refine ⟨?_, fun _ => ⟨_, rfl, hcall⟩, ?_⟩
  · rintro claim ⟨token, hsome, -⟩
    rw [htoken] at hsome
    cases hsome
  · rw [hcall]
    exact not_panicked_fails _

theorem answersVerified_of_carries (hpath : request.path = prefixPath ++ path)
    (hcarries : Carries service request claim)
    (hanswered : ApiAnswers parseUuid chance db request.method path request.body claim.sub) :
    AnswersVerified service chance db parseUuid request := by
  have hstarts : prefixPath <+: request.path := ⟨path, hpath.symm⟩
  refine ⟨fun claim' hcarries' api => ?_, fun hnone => absurd hcarries (hnone claim), ?_⟩
  · rw [call_eq hstarts, enter_of_carries hcarries']
  · rw [call_eq hstarts, panicked_entered, enter_of_carries hcarries,
      panicked_api_claimed hpath, not_not]
    exact hanswered

end Answered

/-- Exactly the requests without a token, or with one that verifies and an answer of `api`,
are handled as they should. -/
theorem answersVerified_iff (service : Service Key) (chance : Chance) (db : Db)
    (parseUuid : Str → Option Uuid) (request : EntryRequest) (path : Str)
    (hpath : request.path = prefixPath ++ path) :
    AnswersVerified service chance db parseUuid request ↔
      TokenAnswered service chance db parseUuid request path := by
  have hstarts : prefixPath <+: request.path := ⟨path, hpath.symm⟩
  constructor
  · rintro ⟨-, -, hanswers⟩
    cases htoken : JwtBoth.search request.headers with
    | none => exact .inl htoken
    | some token =>
        rw [call_eq hstarts, panicked_entered] at hanswers
        by_cases hcarries : ∃ claim, Carries service request claim
        · obtain ⟨claim, hcarries⟩ := hcarries
          rw [enter_of_carries hcarries, panicked_api_claimed hpath, not_not] at hanswers
          exact .inr ⟨claim, hcarries, hanswers⟩
        · exact absurd (enter_panics htoken (not_exists.1 hcarries)) hanswers
  · rintro (htoken | ⟨claim, hcarries, hanswered⟩)
    · exact answersVerified_of_no_token hstarts htoken
    · exact answersVerified_of_carries hpath hcarries hanswered

end Entry

def smallService : Service Unit :=
  { jwt := {
      fromEcPem := fun _ => some ()
      decode := fun token _ => if token = ['t'] then some { sub := Uuid.nil } else none }
    keyFile := some [0]
    verify := fun _ _ => false
    genToken := fun _ => .ok ['t'] }

def bearerRequest (token : String) : EntryRequest :=
  { method := .get
    path := prefixPath ++ "/user".toList
    headers := [("authorization", .ofStr ("Bearer ".toList ++ token.toList))]
    body := .empty }

/-- A user asks for itself. -/
theorem own_request_answered :
    AnswersVerified smallService stillChance oneUser parseNil (bearerRequest "t") := by
  refine (answersVerified_iff smallService stillChance oneUser parseNil (bearerRequest "t")
    "/user".toList rfl).2
      (.inr ⟨{ sub := Uuid.nil }, ⟨['t'], by decide, [0], (), rfl, rfl, rfl⟩, ?_⟩)
  rw [ApiAnswers, if_pos rfl]
  intro route hroute
  obtain rfl := Except.ok.inj hroute
  trivial

/-- A token that does not verify ends the request with a panic. -/
theorem bad_token_panics :
    EPoint.call smallService stillChance oneUser
        (fun claim => api parseNil stillChance oneUser ((bearerRequest "x").claimed claim))
        (bearerRequest "x") = .error (.panics .unwrapErr) ∧
      ¬AnswersVerified smallService stillChance oneUser parseNil (bearerRequest "x") := by
  have hpanics : EPoint.call smallService stillChance oneUser
      (fun claim => api parseNil stillChance oneUser ((bearerRequest "x").claimed claim))
      (bearerRequest "x") = .error (.panics .unwrapErr) := rfl
  exact ⟨hpanics, fun hanswers => hanswers.answers ⟨_, hpanics⟩⟩

end WsHyper.Auth
