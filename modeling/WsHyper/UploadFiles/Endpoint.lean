import WsHyper.Utils.Claims
import WsHyper.UploadFiles.UploadVideo

/-!
# Who may upload

`midlleware_token` asks for a token in the cookies, and `upload` for a path that ends in a
channel and a program; both have to stand side by side in the resources that the user has.
Only then the body is read.
-/

namespace WsHyper.UploadFiles

open WsHyper.Lib Utils

/-! ## The endpoint -/

inductive Role
  | superUs
  | administrator
  | productor
  | operador
  deriving DecidableEq

def Role.read (value : Json) : Option Role :=
  match value with
  | .text s =>
      if s = "SuperUs".toList then some .superUs
      else if s = "Administrator".toList then some .administrator
      else if s = "Productor".toList then some .productor
      else if s = "Operador".toList then some .operador
      else none
  | .number _ => none

structure Claim where
  sub : Uuid
  exp : Int
  role : Role

/-- `Deserialize`. -/
def Claim.read (uuids : UuidText) (payload : Payload) : Option Claim := do
  let sub ← payload.field "sub" uuids.read
  let exp ← payload.field "exp" Json.i64
  let role ← payload.field "role" Role.read
  return { sub, exp, role }

structure UserInfoReply where
  username : Str
  role : Int
  resources : Str

structure Incoming where
  method : Str
  /-- The whole address, and its path. -/
  uri : Str
  path : Str
  headers : HeaderMap
  /-- The extension that tells of the peer. -/
  peer : Option Str
  /-- What there is to read behind a boundary. -/
  body : Str → Multipart

def Incoming.upload (request : Incoming) : Request :=
  { peer := request.peer, contentType := request.headers.get "content-type", body := request.body }

/-- What the endpoint asks others for: the key file and the tokens, the users, and the roles
of the protocol. -/
structure Peers (Key : Type) where
  jwt : Jwt Key Claim
  keyFile : Option (List UInt8)
  userInfo : Uuid → Option UserInfoReply
  protoRole : Int → Option Role

def Handling.ofResponse (response : Except Panic (Except ResponseError Response)) : Handling :=
  { response, items := [], files := [] }

def refuse (status : Nat) (detail : Option Str) : Handling :=
  .ofResponse (.ok (.error { status, detail }))

def fileMarker : Str := "api/v1/file/".toList

/-- `split("api/v1/file/").nth(1)`. -/
def filePiece (path : Str) : Option Str :=
  (Text.splitOnce fileMarker path).map fun parts =>
    match Text.splitOnce fileMarker parts.2 with
    | none => parts.2
    | some (before, _) => before

/-- `chunks(2)` of full length. -/
def pairs : List Str → List (Str × Str)
  | ch :: programa :: rest => (ch, programa) :: pairs rest
  | _ => []

/-- The user has the resource. -/
def UserInfoReply.grants (user : UserInfoReply) (ch programa : Str) : Bool :=
  (pairs (user.resources.splitOn ',')).any fun pair => pair.1 = ch ∧ pair.2 = programa

/-- `cors`. -/
def cors : Response := { status := 204 }

section Endpoint

variable {Key : Type} (peers : Peers Key) (next : Str → Str → Str → Role → Option Handling)

/-- `upload`, where `next` is `upload_video`. -/
def upload (claim : Claim) (request : Incoming) : Option Handling :=
  match ((filePiece request.path).map fun piece => piece.splitOn '/').getD [] with
  | [ch, programa] =>
      if request.method = "OPTIONS".toList then some (.ofResponse (.ok (.ok cors)))
      else if request.method = "POST".toList then
        match peers.userInfo claim.sub with
        | none => some (.ofResponse (.error .unwrapErr))
        | some user =>
            if user.grants ch programa then
              match peers.protoRole user.role with
              | none => some (.ofResponse (.error .unwrapErr))
              | some role => next ch programa user.username role
            else some (refuse 401 (some "You don't have authority above this resource".toList))
      else some (refuse 404 (some ("Entpoint ".toList ++ request.uri ++ " not found".toList)))
  | _ => some (refuse StatusCode.badRequest (some "Path".toList))

def midllewareToken (request : Incoming) : Option Handling :=
  match JwtCookie.search request.headers with
  | none => some (refuse 401 (some "Token is not present".toList))
  | some token =>
      match verifyToken peers.jwt peers.keyFile token with
      | .error panic => some (.ofResponse (.error panic))
      | .ok (.error _) => some (refuse 401 none)
      | .ok (.ok claim) => upload peers next claim request

/-- The endpoint with `upload_video`, which logs the channel, the program and the user. -/
def entry (parseBoundary : Str → Except Str Str) (nowLocal : Nat → Bool) (dirs : Dirs)
    (answers : List Answer) (fuel : Nat) (request : Incoming) : Option Handling :=
  midllewareToken peers (fun _ _ _ _ =>
    uploadVideo parseBoundary nowLocal dirs request.upload answers fuel) request

end Endpoint

/-! ## What a path addresses -/

def Addresses (path ch programa : Str) : Prop :=
  filePiece path = some (ch ++ '/' :: programa) ∧ '/' ∉ ch ∧ '/' ∉ programa

theorem splitOn_eq_pair_iff {text ch programa : Str} :
    text.splitOn '/' = [ch, programa] ↔
      text = ch ++ '/' :: programa ∧ '/' ∉ ch ∧ '/' ∉ programa := by
  have hpair : ['/'].intercalate [ch, programa] = ch ++ '/' :: programa := by
    simp [List.intercalate]
  constructor
  · intro hsplit
    have hjoin : ['/'].intercalate (text.splitOn '/') = text := List.intercalate_splitOn '/'
    have hmem : ∀ name ∈ [ch, programa], '/' ∉ name := by
      intro name hname
      rw [← hsplit] at hname
      exact Text.not_mem_of_mem_splitOn hname
    rw [hsplit, hpair] at hjoin
    exact ⟨hjoin.symm, hmem _ (by simp), hmem _ (by simp)⟩
  · rintro ⟨rfl, hch, hprograma⟩
    rw [← hpair]
    refine List.splitOn_intercalate '/' ?_ (by simp)
    intro name hname
    simp only [List.mem_cons, List.not_mem_nil, or_false] at hname
    rcases hname with rfl | rfl
    · exact hch
    · exact hprograma

theorem pieces_eq_pair_iff {path ch programa : Str} :
    ((filePiece path).map fun piece => piece.splitOn '/').getD [] = [ch, programa] ↔
      Addresses path ch programa := by
  rw [Addresses]
  cases filePiece path with
  | none => simp
  | some piece => simp [splitOn_eq_pair_iff]

theorem addresses_file {ch programa : Str} (hch : '/' ∉ ch) (hprograma : '/' ∉ programa) :
    Addresses ("/api/v1/file/".toList ++ (ch ++ '/' :: programa)) ch programa := by
  refine ⟨?_, hch, hprograma⟩
  have hfirst := Text.splitOnce_append (ch ++ '/' :: programa)
    (show Text.splitOnce fileMarker "/api/v1/file/".toList = some (['/'], []) by decide)
  have hrest : Text.splitOnce fileMarker (ch ++ '/' :: programa) = none := by
    rw [Text.splitOnce_eq_none_iff]
    intro hinfix
    have hcount := hinfix.sublist.count_le '/'
    have hmarker : fileMarker.count '/' = 3 := by decide
    rw [hmarker, List.count_append, List.count_cons_self, List.count_eq_zero.2 hch,
      List.count_eq_zero.2 hprograma] at hcount
    omega
  rw [filePiece, hfirst, Option.map_some]
  simp [hrest]

/-! ## What a user has -/

def render (grants : List (Str × Str)) : Str :=
  [','].intercalate (grants.flatMap fun grant => [grant.1, grant.2])

theorem pairs_flatMap (grants : List (Str × Str)) :
    pairs (grants.flatMap fun grant => [grant.1, grant.2]) = grants := by
  induction grants with
  | nil => rfl
  | cons grant grants ih =>
      rw [List.flatMap_cons, List.cons_append, List.cons_append, List.nil_append, pairs, ih]

/-- Names without commas are read as they were listed. -/
theorem grants_render {user : UserInfoReply} {grants : List (Str × Str)}
    (hclean : ∀ grant ∈ grants, ',' ∉ grant.1 ∧ ',' ∉ grant.2)
    (hresources : user.resources = render grants) (ch programa : Str) :
    user.grants ch programa = true ↔ (ch, programa) ∈ grants := by
  have hpairs : pairs (user.resources.splitOn ',') = grants := by
    rw [hresources, render]
    by_cases hgrants : grants = []
    · rw [hgrants]
      rfl
    · rw [List.splitOn_intercalate ',' ?_ ?_, pairs_flatMap]
      · intro name hname
        obtain ⟨grant, hgrant, hname⟩ := List.mem_flatMap.1 hname
        simp only [List.mem_cons, List.not_mem_nil, or_false] at hname
        rcases hname with rfl | rfl
        · exact (hclean grant hgrant).1
        · exact (hclean grant hgrant).2
      · obtain ⟨grant, rest, rfl⟩ := List.exists_cons_of_ne_nil hgrants
        simp
  rw [UserInfoReply.grants, hpairs, List.any_eq_true]
  constructor
  · rintro ⟨⟨ch', programa'⟩, hmem, heq⟩
    obtain ⟨rfl, rfl⟩ := of_decide_eq_true heq
    exact hmem
  · intro hmem
    exact ⟨(ch, programa), hmem, by simp⟩

/-! ## Who may upload -/

section Permitted

variable {Key : Type} (peers : Peers Key) (request : Incoming)

/-- All that has to be so for the body to be read. -/
structure Permitted (claim : Claim) (user : UserInfoReply) (role : Role) (ch programa : Str) :
    Prop where
  token : ∃ token, JwtCookie.search request.headers = some token ∧
    Verifies peers.jwt peers.keyFile token claim
  post : request.method = "POST".toList
  addresses : Addresses request.path ch programa
  known : peers.userInfo claim.sub = some user
  granted : user.grants ch programa = true
  role : peers.protoRole user.role = some role

variable {peers request} {next : Str → Str → Str → Role → Option Handling} {claim : Claim}
  {user : UserInfoReply} {role : Role} {ch programa : Str}

theorem midllewareToken_of_verifies (htoken : ∃ token, JwtCookie.search request.headers =
    some token ∧ Verifies peers.jwt peers.keyFile token claim) :
    midllewareToken peers next request = upload peers next claim request := by
  obtain ⟨token, hsearch, hverifies⟩ := htoken
  rw [midllewareToken, hsearch]
  dsimp only
  rw [verifyToken_of_verifies hverifies]

theorem upload_of_post (hpost : request.method = "POST".toList)
    (haddresses : Addresses request.path ch programa)
    (hknown : peers.userInfo claim.sub = some user) :
    upload peers next claim request =
      if user.grants ch programa then
        match peers.protoRole user.role with
        | none => some (.ofResponse (.error .unwrapErr))
        | some role => next ch programa user.username role
      else some (refuse 401 (some "You don't have authority above this resource".toList)) := by
  rw [upload, pieces_eq_pair_iff.2 haddresses]
  dsimp only
  rw [if_neg (by rw [hpost]; decide), if_pos hpost, hknown]

/-- Nothing was read, and no upload is reported. -/
structure Handling.Idle (handling : Handling) : Prop where
  items : handling.items = []
  files : handling.files = []
  status : handling.status ≠ some StatusCode.created

theorem idle_of_panic (panic : Panic) : (Handling.ofResponse (.error panic)).Idle :=
  ⟨rfl, rfl, nofun⟩

theorem idle_refuse {status : Nat} (hstatus : status ≠ StatusCode.created)
    (detail : Option Str) : (refuse status detail).Idle :=
  ⟨rfl, rfl, fun h => hstatus (Option.some.inj h)⟩

/-- Where something is missing, the endpoint answers itself, whatever the body is. -/
theorem upload_of_not_permitted
    (htoken : ∃ token, JwtCookie.search request.headers = some token ∧
      Verifies peers.jwt peers.keyFile token claim)
    (hnot : ∀ user role ch programa, ¬Permitted peers request claim user role ch programa) :
    ∃ handling : Handling, handling.Idle ∧
      ∀ next, upload peers next claim request = some handling := by
  unfold upload
  split
  case h_1 ch programa hpieces =>
      split_ifs with hoptions hpost
      · exact ⟨_, ⟨rfl, rfl, by decide⟩, fun _ => rfl⟩
      · cases hknown : peers.userInfo claim.sub with
        | none => exact ⟨_, idle_of_panic _, fun _ => rfl⟩
        | some user =>
            dsimp only
            split_ifs with hgranted
            · cases hrole : peers.protoRole user.role with
              | none => exact ⟨_, idle_of_panic _, fun _ => rfl⟩
              | some role =>
                  exact absurd ⟨htoken, hpost, pieces_eq_pair_iff.1 hpieces, hknown, hgranted,
                    hrole⟩ (hnot user role ch programa)
            · exact ⟨_, idle_refuse (by decide) _, fun _ => rfl⟩
      · exact ⟨_, idle_refuse (by decide) _, fun _ => rfl⟩
  case h_2 => exact ⟨_, idle_refuse (by decide) _, fun _ => rfl⟩

theorem midllewareToken_of_not_permitted
    (hnot : ∀ claim user role ch programa, ¬Permitted peers request claim user role ch programa) :
    ∃ handling : Handling, handling.Idle ∧
      ∀ next, midllewareToken peers next request = some handling := by
  unfold midllewareToken
  cases htoken : JwtCookie.search request.headers with
  | none => exact ⟨_, idle_refuse (by decide) _, fun _ => rfl⟩
  | some token =>
      dsimp only
      by_cases hverifies : ∃ claim, Verifies peers.jwt peers.keyFile token claim
      · obtain ⟨claim, hclaim⟩ := hverifies
        rw [verifyToken_of_verifies hclaim]
        exact upload_of_not_permitted ⟨token, htoken, hclaim⟩ (hnot claim)
      · obtain ⟨panic, hpanics⟩ := verifyToken_panics (not_exists.1 hverifies)
        rw [hpanics]
        exact ⟨_, idle_of_panic panic, fun _ => rfl⟩

end Permitted

/-- Nothing is read, logged or written but for a post of a user whose token verifies, to a
resource that the user has; and with resources whose names have no comma, a post is handed on
exactly for those. -/
theorem uploads_permitted {Key : Type} (peers : Peers Key)
    (parseBoundary : Str → Except Str Str) (nowLocal : Nat → Bool) (dirs : Dirs)
    (answers : List Answer) (fuel : Nat) (request : Incoming) :
    (∀ handling, entry peers parseBoundary nowLocal dirs answers fuel request = some handling →
      handling.status = some StatusCode.created ∨ handling.items ≠ [] ∨ handling.files ≠ [] →
        ∃ claim user role ch programa, Permitted peers request claim user role ch programa) ∧
    ∀ claim user role grants ch programa,
      (∃ token, JwtCookie.search request.headers = some token ∧
        Verifies peers.jwt peers.keyFile token claim) →
      request.method = "POST".toList → '/' ∉ ch → '/' ∉ programa →
      request.path = "/api/v1/file/".toList ++ (ch ++ '/' :: programa) →
      peers.userInfo claim.sub = some user → peers.protoRole user.role = some role →
      (∀ grant ∈ grants, ',' ∉ grant.1 ∧ ',' ∉ grant.2) → user.resources = render grants →
        entry peers parseBoundary nowLocal dirs answers fuel request =
          if (ch, programa) ∈ grants then
            uploadVideo parseBoundary nowLocal dirs request.upload answers fuel
          else
            some (refuse 401 (some "You don't have authority above this resource".toList)) := by
  constructor
  · intro handling hentry hdone
    by_contra hnot
    simp only [not_exists] at hnot
    obtain ⟨idle, hidle, hanswers⟩ := midllewareToken_of_not_permitted hnot
    obtain rfl := Option.some.inj ((hanswers _).symm.trans hentry)
    rcases hdone with hstatus | hitems | hfiles
    · exact hidle.status hstatus
    · exact hitems hidle.items
    · exact hfiles hidle.files
  · intro claim user role grants ch programa htoken hpost hch hprograma hpath hknown hrole hclean
      hresources
    have haddresses : Addresses request.path ch programa := by
      rw [hpath]
      exact addresses_file hch hprograma
    rw [entry, midllewareToken_of_verifies htoken, upload_of_post hpost haddresses hknown, hrole]
    simp only [grants_render hclean hresources]

def smallUser : UserInfoReply := { username := ['u'], role := 2, resources := "c,p".toList }

def smallPeers : Peers Unit :=
  { jwt := {
      fromEcPem := fun _ => some ()
      decode := fun token _ =>
        if token = ['t'] then some { sub := Uuid.nil, exp := 0, role := .productor } else none }
    keyFile := some [0]
    userInfo := fun _ => some smallUser
    protoRole := fun _ => some .productor }

def postVideo (path : String) : Incoming :=
  { method := "POST".toList
    uri := path.toList
    path := path.toList
    headers := [("cookie", .ofStr "JWT=t".toList), ("content-type", [120])]
    peer := some ['p']
    body := (oneField "video").body }

/-- The user uploads to its program, and to no other. -/
theorem video_uploaded_to_own_program :
    entry smallPeers .ok (fun _ => true) { programs := ['p'], icons := ['i'] }
        (.replicate 7 .done) 2 (postVideo "/api/v1/file/c/p") =
      uploadVideo .ok (fun _ => true) { programs := ['p'], icons := ['i'] }
        (postVideo "/api/v1/file/c/p").upload (.replicate 7 .done) 2 ∧
    entry smallPeers .ok (fun _ => true) { programs := ['p'], icons := ['i'] }
        (.replicate 7 .done) 2 (postVideo "/api/v1/file/c/q") =
      some (refuse 401 (some "You don't have authority above this resource".toList)) := by
  have hpost (programa : Str) := fun path =>
    (uploads_permitted smallPeers .ok (fun _ => true) { programs := ['p'], icons := ['i'] }
      (.replicate 7 .done) 2 (postVideo path)).2
      { sub := Uuid.nil, exp := 0, role := .productor } smallUser .productor [(['c'], ['p'])] ['c']
      programa ⟨['t'], rfl, [0], (), rfl, rfl, rfl⟩ rfl
  exact ⟨hpost ['p'] "/api/v1/file/c/p" (by decide) (by decide) rfl rfl rfl (by decide) rfl,
    hpost ['q'] "/api/v1/file/c/q" (by decide) (by decide) rfl rfl rfl (by decide) rfl⟩

end WsHyper.UploadFiles
