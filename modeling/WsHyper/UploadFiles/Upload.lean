import WsHyper.Lib.PathBuf
import WsHyper.Lib.Run
import WsHyper.UploadFiles.StreamUpload

/-!
# The upload machine

`Upload` reads a multipart body and writes each field to a file of its own, at the
path that its type and its name give.  `pollNext` goes round its loop until it has
something to tell or has to wait; the state it is left in is where the next poll
goes on.  One round of the loop is `turn`.
-/

namespace WsHyper.UploadFiles

open WsHyper.Lib

inductive StateUpload
  | writting (buf : Bytes)
  | reading
  | flush
  | create (path : PathBuf)
  | done

structure UploadResult where
  size : Nat
  fileName : Str
  deriving DecidableEq

structure Upload where
  stream : StreamUpload
  buffer : Option Buffer
  state : StateUpload
  written : Nat
  metaFile : Option MetaFile
  path : Mime → PathBuf

/-- A call of `File::create`, for the file with these headers. -/
structure Creation where
  metaFile : MetaFile
  path : PathBuf

/-- The files, the calls of `File::create` so far, and the answers to come. -/
structure World where
  files : Files
  creations : List Creation
  answers : List Answer

abbrev Polled := Poll (Option (Except UploadError UploadResult))

inductive Flow
  | again
  | ends (polled : Polled)
  | panics

namespace Upload

def new (stream : StreamUpload) (conditionalPath : Mime → PathBuf) : Upload :=
  { stream
    buffer := none
    state := .reading
    written := 0
    metaFile := none
    path := conditionalPath }

/-- The upload after an error, which is told once. -/
def fails (upload : Upload) (world : World) (error : UploadError) : Flow × Upload × World :=
  (.ends (.ready (some (.error error))), { upload with state := .done }, world)

def turnWritting (upload : Upload) (world : World) (buf : Bytes) : Flow × Upload × World :=
  match upload.buffer with
  | none => (.panics, upload, world)
  | some buffer =>
      let called := buffer.pollWrite buf world.answers world.files
      let upload := { upload with buffer := some called.buffer }
      let world := { world with files := called.files, answers := called.answers }
      match called.result with
      | .ready (.ok n) =>
          let state := if n < buf.length then .writting (buf.drop n) else .reading
          (.again, { upload with state, written := upload.written + n }, world)
      | .ready (.error e) => upload.fails world (.ofIo e)
      | .pending => (.ends .pending, upload, world)

def read (upload : Upload) (world : World) :
    Option (Except UploadError ResultStream) → Flow × Upload × World
  | some (.ok (.new metaFile)) =>
      let path := (upload.path metaFile.mime).push metaFile.fileName
      (.again, { upload with metaFile := some metaFile, state := .create path },
        { world with creations := world.creations ++ [{ metaFile, path }] })
  | some (.ok (.bytes bytes)) => (.again, { upload with state := .writting bytes }, world)
  | some (.ok .eof) => (.again, { upload with state := .flush }, world)
  | some (.error e) => upload.fails world e
  | none => (.ends (.ready none), { upload with state := .done }, world)

def turnReading (upload : Upload) (world : World) : Flow × Upload × World :=
  let (answer, answers) := Answer.next world.answers
  let (polled, stream) := upload.stream.pollNext answer.waits
  let upload := { upload with stream }
  let world := { world with answers }
  match polled with
  | .ready item => upload.read world item
  | .pending => (.ends .pending, upload, world)

def turnCreate (upload : Upload) (world : World) (path : PathBuf) : Flow × Upload × World :=
  let (answer, answers) := Answer.next world.answers
  let world := { world with answers }
  match answer with
  | .pending => (.ends .pending, upload, world)
  | .failed e => upload.fails world (.ofIo e)
  | .done | .accepted _ =>
      (.again, { upload with buffer := some (.new world.files.length), state := .reading },
        { world with files := world.files.create path })

def turnFlush (upload : Upload) (world : World) : Flow × Upload × World :=
  match upload.buffer with
  | none => upload.fails world .bufferNotDefined
  | some buffer =>
      let called := buffer.pollFlush world.answers world.files
      let upload := { upload with buffer := some called.buffer }
      let world := { world with files := called.files, answers := called.answers }
      match called.result with
      | .ready (.ok ()) =>
          let result := {
            size := upload.written
            fileName := (upload.metaFile.map MetaFile.fileName).getD [] }
          (.ends (.ready (some (.ok result))),
            { upload with state := .reading, written := 0, metaFile := none }, world)
      | .ready (.error e) => upload.fails world (.ofIo e)
      | .pending => (.ends .pending, upload, world)

/-- One round of the loop of `poll_next`. -/
def turn (upload : Upload) (world : World) : Flow × Upload × World :=
  match upload.state with
  | .writting buf => upload.turnWritting world buf
  | .reading => upload.turnReading world
  | .create path => upload.turnCreate world path
  | .flush => upload.turnFlush world
  | .done => (.ends (.ready none), upload, world)

def turns : Nat → Upload → World → Flow × Upload × World
  | 0, upload, world => (.again, upload, world)
  | fuel + 1, upload, world =>
      match upload.turn world with
      | (.again, upload, world) => turns fuel upload world
      | ended => ended

/-- A round of the loop takes an answer, or a chunk into the buffer. -/
def rounds (upload : Upload) (world : World) : Nat :=
  2 * world.answers.length + match upload.state with
    | .writting _ => 1
    | _ => 0

/-- `poll_next`, with as many rounds as there can be. -/
def pollNext (upload : Upload) (world : World) : Flow × Upload × World :=
  upload.turns (upload.rounds world + 1) world

/-! ## The loop comes to an end -/

variable {upload upload' : Upload} {world world' : World}

theorem rounds_turnWritting_lt {buf : Bytes} (hstate : upload.state = .writting buf)
    (hagain : upload.turnWritting world buf = (.again, upload', world')) :
    upload'.rounds world' < upload.rounds world := by
  unfold turnWritting at hagain
  cases hbuffer : upload.buffer with
  | none => simp [hbuffer] at hagain
  | some buffer =>
      have hspends := buffer.pollWrite_spends buf world.answers world.files
      simp only [hbuffer] at hagain
      generalize buffer.pollWrite buf world.answers world.files = called at hagain hspends
      cases hresult : called.result with
      | pending => simp [hresult] at hagain
      | ready outcome =>
          cases outcome with
          | error e => simp [hresult, fails] at hagain
          | ok n =>
              simp only [hresult, Prod.mk.injEq, true_and] at hagain
              obtain ⟨rfl, rfl⟩ := hagain
              simp only [rounds, hstate]
              split_ifs with hpart
              · have := hspends.2 n hpart hresult
                simp only
                omega
              · have := hspends.1
                simp only
                omega

theorem rounds_read_le {item : Option (Except UploadError ResultStream)}
    (hagain : upload.read world item = (.again, upload', world')) :
    upload'.rounds world' ≤ 2 * world.answers.length + 1 := by
  unfold read at hagain
  split at hagain
  all_goals first | cases hagain; simp [rounds] | simp [fails] at hagain

theorem rounds_turnReading_lt (hstate : upload.state = .reading)
    (hagain : upload.turnReading world = (.again, upload', world')) :
    upload'.rounds world' < upload.rounds world := by
  unfold turnReading at hagain
  cases hanswers : world.answers with
  | nil =>
      -- without an answer the stream is pending, or it is done
      simp only [hanswers, Answer.next, Answer.waits, StreamUpload.pollNext] at hagain
      cases hstream : upload.stream.state <;> simp [hstream, read] at hagain
  | cons answer answers =>
      simp only [hanswers, Answer.next] at hagain
      split at hagain
      · have hle := rounds_read_le hagain
        simp only [rounds, hstate, hanswers, List.length_cons] at hle ⊢
        omega
      · simp at hagain

theorem rounds_turnCreate_lt {path : PathBuf} (hstate : upload.state = .create path)
    (hagain : upload.turnCreate world path = (.again, upload', world')) :
    upload'.rounds world' < upload.rounds world := by
  unfold turnCreate at hagain
  cases hanswers : world.answers with
  | nil => simp [hanswers, Answer.next] at hagain
  | cons answer answers =>
      cases answer <;> simp [hanswers, Answer.next, fails] at hagain
      all_goals
        obtain ⟨rfl, rfl⟩ := hagain
        simp [rounds, hstate, hanswers]

theorem not_again_turnFlush : upload.turnFlush world ≠ (.again, upload', world') := by
  unfold turnFlush
  split
  · simp [fails]
  · simp only
    split <;> simp [fails]

theorem rounds_turn_lt (hagain : upload.turn world = (.again, upload', world')) :
    upload'.rounds world' < upload.rounds world := by
  unfold turn at hagain
  cases hstate : upload.state with
  | writting buf =>
      rw [hstate] at hagain
      exact rounds_turnWritting_lt hstate hagain
  | reading =>
      rw [hstate] at hagain
      exact rounds_turnReading_lt hstate hagain
  | create path =>
      rw [hstate] at hagain
      exact rounds_turnCreate_lt hstate hagain
  | flush =>
      rw [hstate] at hagain
      exact absurd hagain not_again_turnFlush
  | done => simp [hstate] at hagain

theorem turns_succ (fuel : Nat) (upload : Upload) (world : World) :
    (∃ upload' world', upload.turn world = (.again, upload', world') ∧
        upload.turns (fuel + 1) world = upload'.turns fuel world') ∨
      ((upload.turn world).1 ≠ .again ∧ upload.turns (fuel + 1) world = upload.turn world) := by
  rw [turns]
  obtain ⟨flow, upload', world'⟩ := upload.turn world
  cases flow with
  | again => exact .inl ⟨upload', world', rfl, rfl⟩
  | ends polled => exact .inr ⟨by simp, rfl⟩
  | panics => exact .inr ⟨by simp, rfl⟩

theorem turns_ne_again {fuel : Nat} (hfuel : upload.rounds world < fuel) :
    (upload.turns fuel world).1 ≠ .again := by
  induction fuel generalizing upload world with
  | zero => cases hfuel
  | succ fuel ih =>
      rcases turns_succ fuel upload world with ⟨upload', world', hagain, hturns⟩ | ⟨hne, hturns⟩
      · rw [hturns]
        have hlt := rounds_turn_lt hagain
        exact ih (by omega)
      · rw [hturns]
        exact hne

/-- More rounds than there can be make no difference. -/
theorem turns_eq {fuel fuel' : Nat} (hfuel : upload.rounds world < fuel)
    (hfuel' : upload.rounds world < fuel') :
    upload.turns fuel world = upload.turns fuel' world := by
  induction fuel generalizing upload world fuel' with
  | zero => cases hfuel
  | succ fuel ih =>
      obtain ⟨fuel', rfl⟩ : ∃ m, fuel' = m + 1 := ⟨fuel' - 1, by omega⟩
      rcases turns_succ fuel upload world with ⟨upload₁, world₁, hagain, hturns⟩ | ⟨hne, hturns⟩
      · rcases turns_succ fuel' upload world with
          ⟨upload₂, world₂, hagain', hturns'⟩ | ⟨hne', -⟩
        · rw [hagain, Prod.mk.injEq, Prod.mk.injEq] at hagain'
          obtain ⟨-, rfl, rfl⟩ := hagain'
          have hlt := rounds_turn_lt hagain
          rw [hturns, hturns']
          exact ih (by omega) (by omega)
        · exact absurd (by rw [hagain]) hne'
      · rcases turns_succ fuel' upload world with
          ⟨upload₂, world₂, hagain', -⟩ | ⟨-, hturns'⟩
        · exact absurd (by rw [hagain']) hne
        · rw [hturns, hturns']

theorem exists_last_turn {I : Upload → World → Prop} {fuel : Nat} {polled : Polled}
    (hkeeps : ∀ upload world upload' world', I upload world →
      upload.turn world = (.again, upload', world') → I upload' world')
    (hfirst : I upload world) (hends : upload.turns fuel world = (.ends polled, upload', world')) :
    ∃ last lastWorld, I last lastWorld ∧ last.turn lastWorld = (.ends polled, upload', world') := by
  induction fuel generalizing upload world with
  | zero => cases hends
  | succ fuel ih =>
      rcases turns_succ fuel upload world with ⟨next, nextWorld, hagain, hturns⟩ | ⟨-, hturns⟩
      · rw [hturns] at hends
        exact ih (hkeeps _ _ _ _ hfirst hagain) hends
      · rw [hturns] at hends
        exact ⟨upload, world, hfirst, hends⟩

theorem pollNext_of_again (hagain : upload.turn world = (.again, upload', world')) :
    upload.pollNext world = upload'.pollNext world' := by
  have hlt := rounds_turn_lt hagain
  rw [pollNext, turns, hagain]
  exact turns_eq hlt (Nat.lt_succ_self _)

theorem pollNext_of_ends {polled : Polled}
    (hends : upload.turn world = (.ends polled, upload', world')) :
    upload.pollNext world = (.ends polled, upload', world') := by
  rw [pollNext, turns, hends]

theorem pollNext_ne_again (upload : Upload) (world : World) :
    (upload.pollNext world).1 ≠ .again :=
  turns_ne_again (Nat.lt_succ_self _)

end Upload

end WsHyper.UploadFiles
