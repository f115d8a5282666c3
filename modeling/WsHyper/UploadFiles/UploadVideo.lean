import WsHyper.Lib.HeaderText
import WsHyper.Lib.Panic
import WsHyper.UploadFiles.SharedFiles
import WsHyper.UploadFiles.SoundBody

/-!
# The handler of uploads

`upload_video` refuses a request without a peer or a boundary.  Of any other it drains
the upload, logs each item, and answers that the upload was created once there are no
more.  An item that is an error is logged like the others, so the answer is true only
if there is none, and if no field was lost to another one in its file.
-/

namespace WsHyper.UploadFiles

open WsHyper.Lib

/-! ## The handler -/

structure ResponseError where
  status : Nat
  detail : Option Str

structure Response where
  status : Nat

def StatusCode.created : Nat := 201

def StatusCode.badRequest : Nat := 400

def StatusCode.internalServerError : Nat := 500

structure Request where
  /-- The extension that tells of the peer. -/
  peer : Option Str
  contentType : Option HeaderValue
  /-- What there is to read behind a boundary. -/
  body : Str → Multipart

def getExtention (ext : Option Str) : Except ResponseError Str :=
  match ext with
  | some ext => .ok ext
  | none => .error { status := StatusCode.internalServerError, detail := none }

def getBoundary (contentType : Option HeaderValue) : Except ResponseError Str :=
  match contentType with
  | none =>
      .error {
        status := StatusCode.badRequest, detail := some "Content-Type not found".toList }
  | some value =>
      match value.toStr with
      | some text => .ok text
      | none =>
          .error { status := StatusCode.badRequest, detail := some "Boundary parse error".toList }

/-- The part of the handler before the body is read; `parseBoundary` is multer's. -/
def Request.multipart (request : Request) (parseBoundary : Str → Except Str Str) :
    Except ResponseError Multipart := do
  let _ ← getExtention request.peer
  let contentType ← getBoundary request.contentType
  match parseBoundary contentType with
  | .ok boundary => .ok (request.body boundary)
  | .error e => .error { status := StatusCode.badRequest, detail := some e }

def allowedMimes : List MimeAllowed := [.mediaType "video".toList, .mediaType "image".toList]

/-- The two directories, which are read from the environment once. -/
structure Dirs where
  programs : PathBuf
  icons : PathBuf

def Dirs.path (dirs : Dirs) (mime : Mime) : PathBuf :=
  if mime.type_ = "video".toList then dirs.programs else dirs.icons

abbrev Item := Except UploadError UploadResult

/-- What the handler has come to: its answer, what it has logged and the files. -/
structure Handling where
  response : Except Panic (Except ResponseError Response)
  items : List Item
  files : Files

/-- The loop of the handler, with so many polls at most; each log needs the local time,
which there may be or not. -/
def drain (nowLocal : Nat → Bool) : Nat → Machine → List Item → Option Handling
  | 0, _, _ => none
  | fuel + 1, machine, items =>
      match machine.1.pollNext machine.2 with
      | (.ends (.ready (some item)), machine) =>
          if nowLocal items.length then drain nowLocal fuel machine (items ++ [item])
          else some {
            response := .error .unwrapErr, items := items ++ [item], files := machine.2.files }
      | (.ends (.ready none), machine) =>
          some {
            response := .ok (.ok { status := StatusCode.created }), items
            files := machine.2.files }
      | (.ends .pending, machine) => drain nowLocal fuel machine items
      | (.panics, machine) =>
          some { response := .error .unwrapNone, items, files := machine.2.files }
      | (.again, _) => none

/-- `upload_video`, on a body and files that answer as given. -/
def uploadVideo (parseBoundary : Str → Except Str Str) (nowLocal : Nat → Bool) (dirs : Dirs)
    (request : Request) (answers : List Answer) (fuel : Nat) : Option Handling :=
  match request.multipart parseBoundary with
  | .error e => some { response := .ok (.error e), items := [], files := [] }
  | .ok body => drain nowLocal fuel (.start body allowedMimes dirs.path answers) []

def Handling.status (handling : Handling) : Option Nat :=
  match handling.response with
  | .ok (.ok response) => some response.status
  | .ok (.error e) => some e.status
  | .error _ => none

/-! ## What the answer is to say -/

def okOf : Item → Option UploadResult
  | .ok result => some result
  | .error _ => none

/-- The body could be read, and each of its fields was told and is found in its file. -/
def StoredCompletely (body : Multipart) (path : Mime → PathBuf) (inode : PathBuf → Nat)
    (handling : Handling) : Prop :=
  body.failure = none ∧ (handling.items.filterMap okOf).length = body.fields.length ∧
    AllStored body path (handling.items.filterMap okOf) (handling.files.inPlace inode)

/-- `Created` is answered only if it was, and an error otherwise. -/
def Handling.Truthful (handling : Handling) (body : Except ResponseError Multipart)
    (path : Mime → PathBuf) (inode : PathBuf → Nat) : Prop :=
  (handling.status = some StatusCode.created →
      ∃ multipart, body = .ok multipart ∧ StoredCompletely multipart path inode handling) ∧
    (handling.status ≠ some StatusCode.created →
      ∃ status, handling.status = some status ∧ 400 ≤ status)

theorem status_of_multipart {request : Request} {parseBoundary : Str → Except Str Str}
    {e : ResponseError} (h : request.multipart parseBoundary = .error e) :
    e.status = StatusCode.badRequest ∨ e.status = StatusCode.internalServerError := by
  unfold Request.multipart getExtention getBoundary at h
  split at h
  · split at h
    · cases h
      exact .inl rfl
    · split at h
      · simp only [ok_bind] at h
        split at h
        · cases h
        · cases h
          exact .inl rfl
      · cases h
        exact .inl rfl
  · cases h
    exact .inr rfl

/-! ## The last item of an upload -/

section Turns

variable {body : Multipart} {k : Nat} {upload upload' : Upload} {world world' : World}
  {polled : Polled}

theorem StreamUpload.failure_pollNext (stream : StreamUpload) (waits : Bool) :
    (stream.pollNext waits).2.multipart.failure = stream.multipart.failure := by
  unfold pollNext openField
  split
  · rfl
  · split_ifs
    · rfl
    · split
      · simp only
        split
        · rfl
        · split
          · rfl
          · split_ifs <;> rfl
      · split <;> rfl
  · split_ifs
    · rfl
    · split
      · rfl
      · split <;> rfl

theorem failure_turn : (upload.turn world).2.1.stream.multipart.failure =
    upload.stream.multipart.failure := by
  rcases stream_turn_cases upload world with hsame | ⟨waits, hnext, -⟩
  · rw [hsame]
  · rw [hnext, StreamUpload.failure_pollNext]

theorem lt_length_of_getElem?_eq_some {field : Field} (hfield : body.fields[k]? = some field) :
    k < body.fields.length := (List.getElem?_eq_some_iff.1 hfield).1

theorem Phase.lt_or_failure_of_error {e : UploadError}
    (hphase : Phase body k upload world.files)
    (hends : upload.turn world = (.ends (.ready (some (.error e))), upload', world')) :
    k < body.fields.length ∨ upload.stream.multipart.failure ≠ none := by
  cases hphase with
  | creating field _ hfield _ _ _ _ _ _ _ _ => exact .inl (lt_length_of_getElem?_eq_some hfield)
  | reading _ _ _ _ _ _ _ _ hfilling => exact .inl (lt_length_of_getElem?_eq_some hfilling.field_eq)
  | writting _ _ _ _ _ _ _ _ _ hfilling =>
      exact .inl (lt_length_of_getElem?_eq_some hfilling.field_eq)
  | flushing _ _ _ _ _ _ _ hfilling => exact .inl (lt_length_of_getElem?_eq_some hfilling.field_eq)
  | stopped hstate _ =>
      rw [Upload.turn, hstate] at hends
      cases hends
  | between hstate hstream hfields _ _ =>
      by_cases hlt : k < body.fields.length
      · exact .inl hlt
      · refine .inr fun hfailure => ?_
        rw [List.drop_of_length_le (Nat.not_lt.1 hlt)] at hfields
        rw [Upload.turn, hstate] at hends
        simp only [Upload.turnReading, StreamUpload.pollNext, hstream, hfields, hfailure] at hends
        split_ifs at hends <;> cases hends

theorem StreamUpload.waiting_of_end {stream : StreamUpload} {waits : Bool}
    (hend : (stream.pollNext waits).1 = .ready none) (hne : stream.state ≠ .done) :
    stream.state = .waitingField ∧ stream.multipart.fields = [] ∧
      stream.multipart.failure = none := by
  unfold pollNext at hend
  cases hstate : stream.state with
  | done => exact absurd hstate hne
  | waitingField =>
      simp only [hstate] at hend
      split_ifs at hend
      cases hfields : stream.multipart.fields with
      | cons field fields =>
          rw [hfields] at hend
          cases hend
      | nil =>
          cases hfailure : stream.multipart.failure with
          | some text =>
              rw [hfields, hfailure] at hend
              cases hend
          | none => exact ⟨rfl, rfl, rfl⟩
  | readingField left =>
      simp only [hstate] at hend
      split_ifs at hend
      cases hchunks : left.chunks with
      | cons chunk chunks =>
          rw [hchunks] at hend
          cases hend
      | nil =>
          cases hfailure : left.failure with
          | some text =>
              rw [hchunks, hfailure] at hend
              cases hend
          | none =>
              rw [hchunks, hfailure] at hend
              cases hend

theorem end_of_turn (hne : upload.state ≠ .done)
    (hends : upload.turn world = (.ends (.ready none), upload', world')) :
    upload.state = .reading ∧ ∃ waits, (upload.stream.pollNext waits).1 = .ready none := by
  unfold Upload.turn at hends
  cases hstate : upload.state with
  | done => exact absurd hstate hne
  | writting buf =>
      simp only [hstate, Upload.turnWritting] at hends
      split at hends
      · cases hends
      · split at hends <;> cases hends
  | create path =>
      simp only [hstate, Upload.turnCreate] at hends
      split at hends <;> cases hends
  | flush =>
      simp only [hstate, Upload.turnFlush] at hends
      split at hends
      · cases hends
      · split at hends <;> cases hends
  | reading =>
      refine ⟨rfl, (Answer.next world.answers).1.waits, ?_⟩
      simp only [hstate, Upload.turnReading] at hends
      generalize upload.stream.pollNext (Answer.next world.answers).1.waits = next at hends
      obtain ⟨polled, stream⟩ := next
      cases polled with
      | pending => cases hends
      | ready item =>
          simp only [Upload.read] at hends
          split at hends
          · cases hends
          · cases hends
          · cases hends
          · cases hends
          · rfl

/-- The body ends after all of its fields, with nothing left that could fail. -/
theorem Phase.length_le_of_end (hphase : Phase body k upload world.files)
    (hne : upload.state ≠ .done)
    (hends : upload.turn world = (.ends (.ready none), upload', world')) :
    body.fields.length ≤ k ∧ upload.stream.multipart.failure = none ∧ upload.stream.Sound := by
  obtain ⟨hreading, waits, hend⟩ := end_of_turn hne hends
  cases hphase with
  | between hstate hstream hfields _ _ =>
      obtain ⟨-, hnil, hfailure⟩ := StreamUpload.waiting_of_end hend (by simp [hstream])
      have hsound : upload.stream.Sound := by
        rw [StreamUpload.sound_iff_of_ne (by simp [hstream])]
        exact ⟨by simp [hnil], hfailure⟩
      rw [hnil, eq_comm, List.drop_eq_nil_iff] at hfields
      exact ⟨hfields, hfailure, hsound⟩
  | reading _ _ _ _ _ _ hstream _ _ =>
      obtain ⟨hwaiting, -⟩ := StreamUpload.waiting_of_end hend (by simp [hstream])
      rw [hstream] at hwaiting
      cases hwaiting
  | creating _ _ _ _ _ hstate _ _ _ _ _ => simp [hstate] at hreading
  | writting _ _ _ _ _ _ hstate _ _ _ => simp [hstate] at hreading
  | flushing _ _ _ _ hstate _ _ _ => simp [hstate] at hreading
  | stopped hstate _ => exact absurd hstate hne

end Turns

/-! ## Draining -/

section Draining

variable {body : Multipart} {path : Mime → PathBuf} {items : List Item}
  {machine machine' : Machine} {polled : Polled}

def itemOf : Polled → Option Item
  | .ready item => item
  | .pending => none

theorem resultOf_eq (polled : Polled) : resultOf polled = (itemOf polled).bind okOf := by
  cases polled with
  | pending => rfl
  | ready item =>
      cases item with
      | none => rfl
      | some item => cases item <;> rfl

/-- What there is to say of a machine that has given these items: it goes on after
successes only, and when it fails not all fields have been told. -/
structure Draining (body : Multipart) (path : Mime → PathBuf) (items : List Item)
    (machine : Machine) : Prop where
  progress : Progress body path (items.filterMap okOf) machine
  failure : machine.1.stream.multipart.failure = body.failure
  goesOn : (∀ e, .error e ∉ items) → machine.1.state ≠ .done
  stops : ∀ e, .error e ∈ items → machine.1.state = .done ∧
    ((items.filterMap okOf).length < body.fields.length ∨ body.failure ≠ none)

theorem Draining.start (body : Multipart) (allowed : List MimeAllowed) (path : Mime → PathBuf)
    (answers : List Answer) : Draining body path [] (.start body allowed path answers) where
  progress := .start body allowed path answers
  failure := rfl
  goesOn _ := by simp [Machine.start, Upload.new]
  stops e he := by cases he

theorem Draining.exists_last_turn (hdraining : Draining body path items machine)
    (hpolls : Polls machine polled machine') : ∃ last lastWorld,
      Phase body (items.filterMap okOf).length last lastWorld.files ∧
        ((last.stream.Sound ↔ machine.1.stream.Sound) ∧
          last.stream.multipart.failure = body.failure ∧
            (machine.1.state ≠ .done → last.state ≠ .done)) ∧
        last.turn lastWorld = (.ends polled, machine') := by
  refine hdraining.progress.phase.exists_last_turn
    (J := fun next => (next.stream.Sound ↔ machine.1.stream.Sound) ∧
      next.stream.multipart.failure = body.failure ∧
        (machine.1.state ≠ .done → next.state ≠ .done))
    (fun upload world upload' world' hagain h => ?_)
    ⟨Iff.rfl, hdraining.failure, fun h => h⟩ hpolls
  refine ⟨(sound_again_iff hagain).trans h.1, ?_, fun _ => ne_done_of_again hagain⟩
  have hkept : (upload.turn world).2.1.stream.multipart.failure =
      upload.stream.multipart.failure := failure_turn
  rw [hagain] at hkept
  exact hkept.trans h.2.1

theorem Draining.polls (hdraining : Draining body path items machine)
    (hpolls : Polls machine polled machine') (hgoes : polled ≠ .ready none) :
    Draining body path (items ++ (itemOf polled).toList) machine' := by
  obtain ⟨last, lastWorld, hphase, ⟨-, hfailure, -⟩, hends⟩ := hdraining.exists_last_turn hpolls
  have hprogress := hdraining.progress.of_polls hpolls
  have hresults : (items ++ (itemOf polled).toList).filterMap okOf =
      items.filterMap okOf ++ (resultOf polled).toList := by
    rw [List.filterMap_append, resultOf_eq]
    cases itemOf polled with
    | none => rfl
    | some item => cases item <;> rfl
  have hkept : (last.turn lastWorld).2.1.stream.multipart.failure =
      last.stream.multipart.failure := failure_turn
  rw [hends] at hkept
  refine ⟨by rwa [hresults], hkept.trans hfailure, fun hclean => ?_, fun e he => ?_⟩
  · rw [ne_eq, done_iff_of_turn hends]
    cases polled with
    | pending => simp [Stops]
    | ready item =>
        cases item with
        | none => exact absurd rfl hgoes
        | some item =>
            cases item with
            | ok result => simp [Stops]
            | error e =>
                exact absurd (List.mem_append_right _ (List.mem_singleton_self _)) (hclean e)
  · rcases List.mem_append.1 he with he | he
    · -- a machine that has failed gives nothing but the end
      have hdone := (hdraining.stops e he).1
      rw [Polls, pollNext_of_done hdone, Prod.mk.injEq, Flow.ends.injEq] at hpolls
      exact absurd hpolls.1.symm hgoes
    · cases polled with
      | pending => cases he
      | ready item =>
          cases item with
          | none => exact absurd rfl hgoes
          | some item =>
              obtain rfl : .error e = item := List.mem_singleton.1 he
              refine ⟨(done_iff_of_turn hends).2 rfl, ?_⟩
              have htold := hphase.lt_or_failure_of_error hends
              have hnone : resultOf (.ready (some (.error e))) = none := rfl
              rwa [hresults, hnone, Option.toList_none, List.append_nil, ← hfailure]

theorem Draining.run {polls : List Polled} (hdraining : Draining body path items machine)
    (hrun : Run Polls machine polls machine') (hgoes : .ready none ∉ polls) :
    Draining body path (items ++ polls.filterMap itemOf) machine' := by
  induction hrun generalizing items with
  | nil machine =>
      rw [List.filterMap_nil, List.append_nil]
      exact hdraining
  | @cons machine _ _ polled polls hpolls _ ih =>
      have hne : polled ≠ .ready none := by
        rintro rfl
        exact hgoes List.mem_cons_self
      have hlater := ih (hdraining.polls hpolls hne) fun hmem => hgoes (List.mem_cons_of_mem _ hmem)
      have hitems : (polled :: polls).filterMap itemOf =
          (itemOf polled).toList ++ polls.filterMap itemOf := by
        rw [List.filterMap_cons]
        cases itemOf polled <;> rfl
      rwa [hitems, ← List.append_assoc]

theorem AllStored.length_le {results : List UploadResult} {files : Files}
    (hstored : AllStored body path results files) : results.length ≤ body.fields.length := by
  by_contra hlt
  have hresult := List.getElem?_eq_getElem (Nat.not_le.1 hlt)
  obtain ⟨field, file, hfield, -⟩ := hstored body.fields.length _ hresult
  rw [List.getElem?_eq_none le_rfl] at hfield
  cases hfield

/-- When there are no more items, all is stored exactly if there was no error. -/
theorem Draining.complete_iff (hdraining : Draining body path items machine)
    (hpolls : Polls machine (.ready none) machine') :
    (body.failure = none ∧ (items.filterMap okOf).length = body.fields.length) ↔
      ∀ e, .error e ∉ items := by
  constructor
  · rintro ⟨hfailure, hlength⟩ e he
    rcases (hdraining.stops e he).2 with hlt | hne
    · omega
    · exact hne hfailure
  · intro hclean
    obtain ⟨last, lastWorld, hphase, ⟨-, hfailure, hlast⟩, hends⟩ :=
      hdraining.exists_last_turn hpolls
    obtain ⟨hle, hnone, -⟩ := hphase.length_le_of_end (hlast (hdraining.goesOn hclean)) hends
    have hle' := hdraining.progress.stored.length_le
    exact ⟨hfailure.symm.trans hnone, by omega⟩

theorem Draining.sound_of_end (hdraining : Draining body path items machine)
    (hclean : ∀ e, .error e ∉ items) (hpolls : Polls machine (.ready none) machine') :
    machine.1.stream.Sound := by
  obtain ⟨last, lastWorld, hphase, ⟨hsound, -, hlast⟩, hends⟩ :=
    hdraining.exists_last_turn hpolls
  obtain ⟨-, -, hlastSound⟩ := hphase.length_le_of_end (hlast (hdraining.goesOn hclean)) hends
  exact hsound.1 hlastSound

/-! ## The loop of the handler -/

inductive Drains (nowLocal : Nat → Bool) (machine : Machine) (items : List Item)
    (handling : Handling) : Prop
  | created (polls : List Polled) (last machine' : Machine)
      (hrun : Run Polls machine polls last) (hgoes : .ready none ∉ polls)
      (hend : Polls last (.ready none) machine')
      (hresponse : handling.response = .ok (.ok { status := StatusCode.created }))
      (hitems : handling.items = items ++ polls.filterMap itemOf)
      (hfiles : handling.files = machine'.2.files)
      (hclock : ∀ i, items.length ≤ i → i < handling.items.length → nowLocal i)
  | panics (polls : List Polled) (last machine' : Machine) (item : Item)
      (hrun : Run Polls machine polls last) (hgoes : .ready none ∉ polls)
      (hlog : Polls last (.ready (some item)) machine')
      (hresponse : handling.response = .error .unwrapErr)
      (hclock : nowLocal (items ++ polls.filterMap itemOf).length = false)

theorem Drains.cons {nowLocal : Nat → Bool} {handling : Handling}
    (hpolls : Polls machine polled machine') (hgoes : polled ≠ .ready none)
    (hclock : ∀ i, items.length ≤ i → i < (items ++ (itemOf polled).toList).length → nowLocal i)
    (hlater : Drains nowLocal machine' (items ++ (itemOf polled).toList) handling) :
    Drains nowLocal machine items handling := by
  have hitems (polls : List Polled) : (items ++ (itemOf polled).toList) ++ polls.filterMap itemOf =
      items ++ (polled :: polls).filterMap itemOf := by
    rw [List.filterMap_cons, List.append_assoc]
    cases itemOf polled <;> rfl
  have hgoes' {polls : List Polled} (hlater : .ready none ∉ polls) :
      .ready none ∉ polled :: polls := by
    intro hmem
    rcases List.mem_cons.1 hmem with heq | hmem
    · exact hgoes heq.symm
    · exact hlater hmem
  cases hlater with
  | created polls last end_ hrun hrest hend hresponse hresult hfiles hticks =>
      refine .created (polled :: polls) last end_ (.cons hpolls hrun) (hgoes' hrest) hend hresponse
        (by rw [hresult, hitems]) hfiles fun i hi hlt => ?_
      by_cases hfirst : i < (items ++ (itemOf polled).toList).length
      · exact hclock i hi hfirst
      · exact hticks i (Nat.not_lt.1 hfirst) hlt
  | panics polls last end_ item hrun hrest hlog hresponse hstops =>
      rw [hitems] at hstops
      exact .panics (polled :: polls) last end_ item (.cons hpolls hrun) (hgoes' hrest) hlog
        hresponse hstops

theorem drains_of_drain {nowLocal : Nat → Bool} {fuel : Nat} {handling : Handling}
    {results : List UploadResult} (hprogress : Progress body path results machine)
    (hdrain : drain nowLocal fuel machine items = some handling) :
    Drains nowLocal machine items handling := by
  induction fuel generalizing machine items results with
  | zero => cases hdrain
  | succ fuel ih =>
      obtain ⟨polled, machine', hpolls, hprogress'⟩ := hprogress.pollNext
      have hnext : machine.1.pollNext machine.2 = (.ends polled, machine') := hpolls
      rw [drain, hnext] at hdrain
      cases polled with
      | pending =>
          have hsame : items ++ (itemOf .pending).toList = items := List.append_nil items
          refine .cons hpolls (by simp) (fun i hi hlt => ?_) ?_
          · rw [hsame] at hlt
            omega
          · rw [hsame]
            exact ih hprogress' hdrain
      | ready item =>
          cases item with
          | none =>
              obtain rfl := Option.some.inj hdrain
              exact .created [] machine machine' (.nil machine) List.not_mem_nil hpolls rfl
                (List.append_nil items).symm rfl fun i hi hlt => absurd hlt (Nat.not_lt.2 hi)
          | some item =>
              simp only at hdrain
              split_ifs at hdrain with hclock
              · refine .cons hpolls (by simp) (fun i hi hlt => ?_) (ih hprogress' hdrain)
                have hlength : (items ++ (itemOf (.ready (some item))).toList).length =
                    items.length + 1 := List.length_append
                obtain rfl : i = items.length := by omega
                exact hclock
              · obtain rfl := Option.some.inj hdrain
                refine .panics [] machine machine' item (.nil machine) List.not_mem_nil hpolls
                  rfl ?_
                rw [List.filterMap_nil, List.append_nil]
                simpa using hclock

end Draining

/-! ## Whether the answer is true -/

/-- The upload of this body gives no error, and there is a time to log each field. -/
def Untroubled (nowLocal : Nat → Bool) (dirs : Dirs) (answers : List Answer) (body : Multipart) :
    Prop :=
  (∀ polls machine, Run Polls (.start body allowedMimes dirs.path answers) polls machine →
      ∀ e, .ready (some (.error e)) ∉ polls) ∧
    ∀ i < body.fields.length, nowLocal i

/-- Fields of the body that share a file have the same to put there. -/
def SharesAlike (dirs : Dirs) (inode : PathBuf → Nat) (body : Multipart) : Prop :=
  (body.placed allowedMimes dirs.path).Pairwise fun field later =>
    inode field.2 = inode later.2 → field.1.content = later.1.content

/-- No file that the body is uploaded to refuses to be created, written or flushed. -/
def FilesServe (dirs : Dirs) (answers : List Answer) (body : Multipart) : Prop :=
  ∀ polls machine, Run Polls (.start body allowedMimes dirs.path answers) polls machine →
    ∀ io, .ready (some (.error (.ofIo io))) ∉ polls

section Answer

variable {nowLocal : Nat → Bool} {dirs : Dirs} {inode : PathBuf → Nat} {answers : List Answer}
  {body : Multipart} {handling : Handling}

theorem length_filterMap_okOf {items : List Item} (hclean : ∀ e, .error e ∉ items) :
    (items.filterMap okOf).length = items.length := by
  induction items with
  | nil => rfl
  | cons item items ih =>
      have hlater := ih fun e he => hclean e (List.mem_cons_of_mem _ he)
      cases item with
      | ok result => simpa [okOf] using hlater
      | error e => exact absurd List.mem_cons_self (hclean e)

theorem error_mem_items {polls : List Polled} {e : UploadError} :
    .error e ∈ polls.filterMap itemOf ↔ .ready (some (.error e)) ∈ polls := by
  rw [List.mem_filterMap]
  constructor
  · rintro ⟨polled, hmem, hitem⟩
    cases polled with
    | pending => cases hitem
    | ready item =>
        obtain rfl : item = some (.error e) := hitem
        exact hmem
  · intro hmem
    exact ⟨_, hmem, rfl⟩

/-- Of a machine that has come to its end, all runs give the same errors. -/
theorem error_mem_of_run {start last machine' machine : Machine} {polls polls' : List Polled}
    {e : UploadError} (hrun : Run Polls start polls last) (hend : Polls last (.ready none) machine')
    (hrun' : Run Polls start polls' machine) (hmem : .ready (some (.error e)) ∈ polls') :
    .ready (some (.error e)) ∈ polls := by
  have hdet : ∀ (s : Machine) a b t u, Polls s a t → Polls s b u → a = b ∧ t = u := by
    intro s a b t u ht hu
    rw [Polls, ht, Prod.mk.injEq, Flow.ends.injEq] at hu
    exact hu
  rcases run_comparable hdet hrun hrun' with ⟨rest, rfl, hrest⟩ | ⟨rest, rfl, -⟩
  · rcases List.mem_append.1 hmem with hmem | hmem
    · exact hmem
    · cases hrest with
      | nil => cases hmem
      | cons hpolls hrest =>
          obtain ⟨rfl, rfl⟩ := hdet _ _ _ _ _ hend hpolls
          rcases List.mem_cons.1 hmem with heq | hmem
          · cases heq
          · have hdone := (done_iff_of_pollNext hend).2 rfl
            have hnone := ready_none_of_done hdone hrest hmem
            cases hnone
  · exact List.mem_append_left _ hmem

/-- Without an error each item is the result of another field. -/
theorem length_items_lt {polls : List Polled} {last machine' : Machine} {item : Item}
    (hclean : ∀ polls machine,
      Run Polls (.start body allowedMimes dirs.path answers) polls machine →
        ∀ e, .ready (some (.error e)) ∉ polls)
    (hrun : Run Polls (.start body allowedMimes dirs.path answers) polls last)
    (hgoes : .ready none ∉ polls) (hpolls : Polls last (.ready (some item)) machine') :
    (polls.filterMap itemOf).length < body.fields.length := by
  have hrun' := hrun.concat hpolls
  have hgoes' : Poll.ready none ∉ polls ++ [Poll.ready (some item)] := by simpa using hgoes
  have hstart : Draining body dirs.path [] (.start body allowedMimes dirs.path answers) :=
    .start body allowedMimes dirs.path answers
  have hdraining := hstart.run hrun' hgoes'
  have hclean' : ∀ e, Except.error e ∉ (polls ++ [Poll.ready (some item)]).filterMap itemOf :=
    fun e he => hclean _ _ hrun' e (error_mem_items.1 he)
  have hle := hdraining.progress.stored.length_le
  rw [List.nil_append, length_filterMap_okOf hclean', List.filterMap_append,
    List.length_append] at hle
  have hone : ([Poll.ready (some item)].filterMap itemOf).length = 1 := rfl
  omega

theorem allStored_inPlace_iff {results : List UploadResult} {files : Files}
    (hstored : AllStored body dirs.path results files) (hfed : AllFed body dirs.path files)
    (hle : files.length ≤ (opened allowedMimes body.fields).length)
    (hlength : results.length = body.fields.length) :
    AllStored body dirs.path results (files.inPlace inode) ↔ SharesAlike dirs inode body := by
  have hopened := length_opened_le allowedMimes body.fields
  constructor
  · intro hfound
    refine List.pairwise_iff_getElem.2 fun i j hi hj _ hsame => ?_
    have hplaced := length_placed body allowedMimes dirs.path
    exact hfound.content_eq hfed (by omega) (by omega) (List.getElem?_eq_getElem hi)
      (List.getElem?_eq_getElem hj) hsame
  · intro hagree
    rw [hstored.inPlace_eq_of_agree hfed hle (by omega) hagree]
    exact hstored

theorem Drains.truthful_iff
    (hdrains : Drains nowLocal (.start body allowedMimes dirs.path answers) [] handling) :
    handling.Truthful (.ok body) dirs.path inode ↔
      Untroubled nowLocal dirs answers body ∧ SharesAlike dirs inode body := by
  have hstart : Draining body dirs.path [] (.start body allowedMimes dirs.path answers) :=
    .start body allowedMimes dirs.path answers
  cases hdrains with
  | created polls last machine' hrun hgoes hend hresponse hitems hfiles hclock =>
      have hdraining := hstart.run hrun hgoes
      have hcomplete := hdraining.complete_iff hend
      rw [List.nil_append] at hitems hdraining hcomplete
      have hstatus : handling.status = some StatusCode.created := by
        rw [Handling.status, hresponse]
      have hprogress := hdraining.progress.of_polls hend
      have hnone : resultOf (.ready none) = none := rfl
      rw [hnone, Option.toList_none, List.append_nil, ← hitems] at hprogress
      have hplaced (hlength : (handling.items.filterMap okOf).length = body.fields.length) :
          AllStored body dirs.path (handling.items.filterMap okOf)
              (handling.files.inPlace inode) ↔ SharesAlike dirs inode body := by
        obtain ⟨flows, hrounds, -⟩ := exists_rounds_of_run (hrun.concat hend)
        rw [hfiles]
        exact allStored_inPlace_iff hprogress.stored hprogress.allFed (length_files_le hrounds)
          hlength
      rw [← hitems] at hcomplete
      constructor
      · intro htruthful
        obtain ⟨body', hbody, hfailure, hlength, hfound⟩ := htruthful.1 hstatus
        obtain rfl := Except.ok.inj hbody
        refine ⟨⟨fun polls' machine hrun' e hmem => ?_, fun i hi => ?_⟩,
          (hplaced hlength).1 hfound⟩
        · have hmem' := error_mem_of_run hrun hend hrun' hmem
          rw [← error_mem_items, ← hitems] at hmem'
          exact hcomplete.1 ⟨hfailure, hlength⟩ e hmem'
        · refine hclock i (Nat.zero_le i) ?_
          have hle := List.length_filterMap_le okOf handling.items
          omega
      · rintro ⟨⟨hclean, -⟩, hagree⟩
        have hnone : ∀ e, .error e ∉ handling.items := by
          intro e he
          rw [hitems, error_mem_items] at he
          exact hclean polls last hrun e he
        obtain ⟨hfailure, hlength⟩ := hcomplete.2 hnone
        exact ⟨fun _ => ⟨body, rfl, hfailure, hlength, (hplaced hlength).2 hagree⟩,
          fun hne => absurd hstatus hne⟩
  | panics polls last machine' item hrun hgoes hlog hresponse hstops =>
      have hstatus : handling.status = none := by
        rw [Handling.status, hresponse]
      refine iff_of_false (fun htruthful => ?_) ?_
      · obtain ⟨status, hsome, -⟩ := htruthful.2 (by simp [hstatus])
        rw [hstatus] at hsome
        cases hsome
      · rintro ⟨⟨hclean, hclock⟩, -⟩
        have hlt := length_items_lt hclean hrun hgoes hlog
        rw [List.nil_append, hclock _ hlt] at hstops
        cases hstops

theorem Drains.sound_of_untroubled
    (hdrains : Drains nowLocal (.start body allowedMimes dirs.path answers) [] handling)
    (huntroubled : Untroubled nowLocal dirs answers body) : body.Sound allowedMimes := by
  obtain ⟨hclean, hclock⟩ := huntroubled
  cases hdrains with
  | created polls last machine' hrun hgoes hend _ _ _ _ =>
      have hdraining := (Draining.start body allowedMimes dirs.path answers).run hrun hgoes
      have hnone : ∀ e, .error e ∉ [] ++ polls.filterMap itemOf := by
        intro e he
        exact hclean polls last hrun e (error_mem_items.1 he)
      have hsound := hdraining.sound_of_end hnone hend
      have hprogress := Progress.start body allowedMimes dirs.path answers
      rw [hprogress.sound_iff_of_run hrun (hclean polls last hrun)] at hsound
      exact (sound_start_iff body allowedMimes dirs.path answers).1 hsound
  | panics polls last machine' item hrun hgoes hlog _ hstops =>
      have hlt := length_items_lt hclean hrun hgoes hlog
      rw [List.nil_append, hclock _ hlt] at hstops
      cases hstops

theorem Drains.untroubled_iff
    (hdrains : Drains nowLocal (.start body allowedMimes dirs.path answers) [] handling) :
    Untroubled nowLocal dirs answers body ↔
      body.Sound allowedMimes ∧ FilesServe dirs answers body ∧
        ∀ i < body.fields.length, nowLocal i := by
  constructor
  · intro huntroubled
    exact ⟨hdrains.sound_of_untroubled huntroubled,
      fun polls machine hrun io => huntroubled.1 polls machine hrun (.ofIo io), huntroubled.2⟩
  · rintro ⟨hsound, hfiles, hclock⟩
    refine ⟨fun polls machine hrun e => ?_, hclock⟩
    have hprogress := Progress.start body allowedMimes dirs.path answers
    exact hprogress.not_error_of_run
      ((sound_start_iff body allowedMimes dirs.path answers).2 hsound) hrun
      (hfiles polls machine hrun)

end Answer

/-- Whatever is answered is true, exactly if nothing was read of the body, or the body is
sound, neither the files nor the clock fail, and fields that share a file agree. -/
theorem uploadVideo_truthful_iff (parseBoundary : Str → Except Str Str) (nowLocal : Nat → Bool)
    (dirs : Dirs) (inode : PathBuf → Nat) (request : Request) (answers : List Answer)
    (fuel : Nat) (handling : Handling)
    (hhandled : uploadVideo parseBoundary nowLocal dirs request answers fuel = some handling) :
    handling.Truthful (request.multipart parseBoundary) dirs.path inode ↔
      ∀ body, request.multipart parseBoundary = .ok body →
        body.Sound allowedMimes ∧ FilesServe dirs answers body ∧
          (∀ i < body.fields.length, nowLocal i) ∧ SharesAlike dirs inode body := by
  unfold uploadVideo at hhandled
  cases hbody : request.multipart parseBoundary with
  | error e =>
      rw [hbody] at hhandled
      obtain rfl := Option.some.inj hhandled
      have hle : 400 ≤ e.status ∧ e.status ≠ StatusCode.created := by
        rcases status_of_multipart hbody with hstatus | hstatus
        · rw [hstatus]
          decide
        · rw [hstatus]
          decide
      refine iff_of_true ⟨fun hcreated => ?_, fun _ => ⟨e.status, rfl, hle.1⟩⟩
        fun body h => by cases h
      exact absurd (Option.some.inj hcreated) hle.2
  | ok body =>
      rw [hbody] at hhandled
      have hdrains := drains_of_drain (.start body allowedMimes dirs.path answers) hhandled
      rw [hdrains.truthful_iff, hdrains.untroubled_iff, and_assoc, and_assoc]
      constructor
      · rintro hsound body' h
        obtain rfl := Except.ok.inj h
        exact hsound
      · intro h
        exact h body rfl

def oneField (mediaType : String) : Request :=
  { peer := some ['p']
    contentType := some [120]
    body := fun _ => {
      fields := [{
        fileName := some ['f']
        contentType := some { type_ := mediaType.toList, subtype := ['s'], rest := [] }
        chunks := [[1, 2, 3]]
        failure := none }]
      failure := none } }

/-- A text is refused, and answered with `Created`. -/
theorem text_not_truthful :
    ∃ handling, uploadVideo .ok (fun _ => true) { programs := ['p'], icons := ['i'] }
        (oneField "text") [.done] 2 = some handling ∧
      handling.items = [.error (.mimeNotAllowed ['f']
        { type_ := "text".toList, subtype := ['s'], rest := [] })] ∧
      handling.files = [] ∧
      ∀ inode, ¬handling.Truthful ((oneField "text").multipart .ok)
        (Dirs.path { programs := ['p'], icons := ['i'] }) inode := by
  refine ⟨_, rfl, rfl, rfl, fun inode htruthful => ?_⟩
  obtain ⟨body, hbody, -, hlength, -⟩ := htruthful.1 rfl
  obtain rfl := Except.ok.inj hbody
  cases hlength

/-- A video is stored. -/
theorem video_truthful :
    ∃ handling, uploadVideo .ok (fun _ => true) { programs := ['p'], icons := ['i'] }
        (oneField "video") (.replicate 7 .done) 2 = some handling ∧
      handling.Truthful ((oneField "video").multipart .ok)
        (Dirs.path { programs := ['p'], icons := ['i'] }) List.length := by
  let dirs : Dirs := { programs := ['p'], icons := ['i'] }
  have hhandled : uploadVideo .ok (fun _ => true) dirs (oneField "video") (.replicate 7 .done) 2 =
      some _ := rfl
  refine ⟨_, hhandled, (uploadVideo_truthful_iff _ _ _ _ _ _ _ _ hhandled).2 ?_⟩
  intro body hbody
  obtain rfl := Except.ok.inj hbody
  have hrun : Run Polls (.start ((oneField "video").body ['x']) allowedMimes dirs.path
      (.replicate 7 .done)) [.ready (some (.ok { size := 3, fileName := ['f'] }))] _ :=
    .cons rfl (.nil _)
  refine ⟨⟨?_, rfl⟩, fun polls machine hrun' io hmem => ?_, fun _ _ => rfl,
    List.pairwise_singleton _ _⟩
  · intro field hfield
    obtain rfl := List.mem_singleton.1 hfield
    exact ⟨by simp, ⟨_, rfl, by decide⟩, rfl⟩
  · have hmem' := error_mem_of_run hrun rfl hrun' hmem
    simp at hmem'

end WsHyper.UploadFiles
