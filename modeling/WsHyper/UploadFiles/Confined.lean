import WsHyper.UploadFiles.Stored

/-!
# Where uploads go

A file is created for each field that the stream tells of, at the name of the field
pushed to the directory of its type.  Every poll creates the next of these files,
and when no call fails all of them are.  So the files stay in their directories
exactly if all these names do.
-/

namespace WsHyper.UploadFiles

open WsHyper.Lib

def StreamUpload.toOpen (stream : StreamUpload) : List MetaFile :=
  match stream.state with
  | .done => []
  | .waitingField => opened stream.allowed stream.multipart.fields
  | .readingField field =>
      if field.failure = none then opened stream.allowed stream.multipart.fields else []

/-- The next field is the one that the stream tells of; the others stay, unless the
stream fails or ends. -/
theorem StreamUpload.toOpen_pollNext (stream : StreamUpload) (waits : Bool) :
    match (stream.pollNext waits).1 with
    | .pending => (stream.pollNext waits).2.toOpen = stream.toOpen
    | .ready (some (.ok (.new metaFile))) =>
        metaFile :: (stream.pollNext waits).2.toOpen = stream.toOpen
    | .ready (some (.ok _)) => (stream.pollNext waits).2.toOpen = stream.toOpen
    | .ready _ => True := by
  obtain ⟨⟨fields, failure⟩, allowed, state⟩ := stream
  cases state with
  | done => trivial
  | waitingField =>
      cases waits with
      | true => rfl
      | false =>
          cases fields with
          | nil => cases failure <;> trivial
          | cons field fields =>
              simp only [pollNext, openField, Bool.false_eq_true, if_false]
              cases hname : field.fileName with
              | none => trivial
              | some name =>
                  cases hmime : field.contentType with
                  | none => trivial
                  | some mime =>
                      simp only
                      split_ifs with hallowed
                      · simp [toOpen, opened, hname, hmime, hallowed]
                      · trivial
  | readingField field =>
      cases waits with
      | true => rfl
      | false =>
          simp only [pollNext, Bool.false_eq_true, if_false]
          cases field.chunks with
          | cons chunk chunks => rfl
          | nil =>
              cases hfailure : field.failure with
              | none => simp [toOpen, hfailure]
              | some text => trivial

namespace Upload

def toOpen (upload : Upload) : List MetaFile :=
  match upload.state with
  | .done => []
  | _ => upload.stream.toOpen

def creation (upload : Upload) (metaFile : MetaFile) : Creation :=
  { metaFile, path := (upload.path metaFile.mime).push metaFile.fileName }

/-- From one machine to the next the files of some fields are created, the next
ones that there are to open. -/
def Opens (upload : Upload) (world : World) (next : Upload × World) : Prop :=
  next.1.path = upload.path ∧ ∃ metaFiles,
    next.2.creations = world.creations ++ metaFiles.map upload.creation ∧
      metaFiles ++ next.1.toOpen <+: upload.toOpen

/-- No field that there was to open is given up. -/
def OpensOn (upload : Upload) (world : World) (next : Upload × World) : Prop :=
  next.1.path = upload.path ∧ ∃ metaFiles,
    next.2.creations = world.creations ++ metaFiles.map upload.creation ∧
      metaFiles ++ next.1.toOpen = upload.toOpen

section Opens

variable {upload upload' : Upload} {world world' : World} {next : Upload × World}

theorem toOpen_of_done (hstate : upload.state = .done) : upload.toOpen = [] := by
  simp [toOpen, hstate]

theorem toOpen_of_ne_done (hstate : upload.state ≠ .done) :
    upload.toOpen = upload.stream.toOpen := by
  unfold toOpen
  split
  · exact absurd ‹_› hstate
  · rfl

theorem OpensOn.of_same (hstate : upload.state ≠ .done) (hstate' : upload'.state ≠ .done)
    (hpath : upload'.path = upload.path) (hstream : upload'.stream = upload.stream)
    (hcreations : world'.creations = world.creations) :
    OpensOn upload world (upload', world') :=
  ⟨hpath, [], by simp [hcreations], by
    simp only [toOpen_of_ne_done hstate, toOpen_of_ne_done hstate', hstream, List.nil_append]⟩

theorem OpensOn.opens (hopens : OpensOn upload world next) : Opens upload world next := by
  obtain ⟨hpath, metaFiles, hcreations, hleft⟩ := hopens
  exact ⟨hpath, metaFiles, hcreations, by rw [hleft]⟩

theorem Opens.of_done (hpath : upload'.path = upload.path)
    (hcreations : world'.creations = world.creations) (hstate : upload'.state = .done) :
    Opens upload world (upload', world') :=
  ⟨hpath, [], by simp [hcreations], by simp [toOpen_of_done hstate]⟩

theorem Opens.trans (hfirst : Opens upload world (upload', world'))
    (hsecond : Opens upload' world' next) : Opens upload world next := by
  obtain ⟨hpath, metaFiles, hcreations, hleft⟩ := hfirst
  obtain ⟨hpath', metaFiles', hcreations', hleft'⟩ := hsecond
  refine ⟨hpath'.trans hpath, metaFiles ++ metaFiles', ?_, ?_⟩
  · have hcreation : upload'.creation = upload.creation := by
      funext metaFile
      simp only at hpath
      simp only [creation, hpath]
    rw [hcreations', hcreations, hcreation, List.map_append, List.append_assoc]
  · rw [List.append_assoc]
    exact ((List.prefix_append_right_inj metaFiles).2 hleft').trans hleft

theorem Opens.refl (upload : Upload) (world : World) : Opens upload world (upload, world) :=
  ⟨rfl, [], by simp, List.prefix_rfl⟩

/-- The machine stops without creating a file. -/
def Stops (upload : Upload) (world : World) (next : Upload × World) : Prop :=
  next.1.path = upload.path ∧ next.2.creations = world.creations ∧ next.1.state = .done

theorem turnWritting_opensOn {buf : Bytes} (hstate : upload.state = .writting buf) :
    OpensOn upload world (upload.turnWritting world buf).2 ∨
      Stops upload world (upload.turnWritting world buf).2 := by
  unfold turnWritting
  cases upload.buffer with
  | none => exact .inl (.of_same (by simp [hstate]) (by simp [hstate]) rfl rfl rfl)
  | some buffer =>
      simp only
      generalize buffer.pollWrite buf world.answers world.files = called
      split
      · refine .inl (.of_same (by simp [hstate]) ?_ rfl rfl rfl)
        simp only
        split_ifs <;> simp
      · exact .inr ⟨rfl, rfl, rfl⟩
      · exact .inl (.of_same (by simp [hstate]) (by simp [hstate]) rfl rfl rfl)

theorem turnReading_opensOn (hstate : upload.state = .reading) :
    OpensOn upload world (upload.turnReading world).2 ∨
      Stops upload world (upload.turnReading world).2 := by
  unfold turnReading
  obtain ⟨answer, answers⟩ := Answer.next world.answers
  have hopen := upload.stream.toOpen_pollNext answer.waits
  simp only
  generalize upload.stream.pollNext answer.waits = polled at hopen
  obtain ⟨polled, stream⟩ := polled
  have hne : upload.state ≠ .done := by simp [hstate]
  cases polled with
  | pending =>
      refine .inl ⟨rfl, [], by simp, ?_⟩
      rw [List.nil_append, toOpen_of_ne_done hne, toOpen_of_ne_done (by simp [hstate])]
      exact hopen
  | ready item =>
      match item with
      | none => exact .inr ⟨rfl, rfl, rfl⟩
      | some (.error e) => exact .inr ⟨rfl, rfl, rfl⟩
      | some (.ok (.new metaFile)) =>
          refine .inl ⟨rfl, [metaFile], rfl, ?_⟩
          rw [toOpen_of_ne_done hne, toOpen_of_ne_done (by simp [read])]
          exact hopen
      | some (.ok (.bytes bytes)) =>
          refine .inl ⟨rfl, [], by simp [read], ?_⟩
          rw [List.nil_append, toOpen_of_ne_done hne, toOpen_of_ne_done (by simp [read])]
          exact hopen
      | some (.ok .eof) =>
          refine .inl ⟨rfl, [], by simp [read], ?_⟩
          rw [List.nil_append, toOpen_of_ne_done hne, toOpen_of_ne_done (by simp [read])]
          exact hopen

theorem turnCreate_opensOn {path : PathBuf} (hstate : upload.state = .create path) :
    OpensOn upload world (upload.turnCreate world path).2 ∨
      Stops upload world (upload.turnCreate world path).2 := by
  unfold turnCreate
  obtain ⟨answer, answers⟩ := Answer.next world.answers
  cases answer with
  | pending => exact .inl (.of_same (by simp [hstate]) (by simp [hstate]) rfl rfl rfl)
  | failed e => exact .inr ⟨rfl, rfl, rfl⟩
  | done => exact .inl (.of_same (by simp [hstate]) (by simp) rfl rfl rfl)
  | accepted n => exact .inl (.of_same (by simp [hstate]) (by simp) rfl rfl rfl)

theorem turnFlush_opensOn (hstate : upload.state = .flush) :
    OpensOn upload world (upload.turnFlush world).2 ∨
      Stops upload world (upload.turnFlush world).2 := by
  unfold turnFlush
  cases upload.buffer with
  | none => exact .inr ⟨rfl, rfl, rfl⟩
  | some buffer =>
      simp only
      generalize buffer.pollFlush world.answers world.files = called
      split
      · exact .inl (.of_same (by simp [hstate]) (by simp) rfl rfl rfl)
      · exact .inr ⟨rfl, rfl, rfl⟩
      · exact .inl (.of_same (by simp [hstate]) (by simp [hstate]) rfl rfl rfl)

theorem turn_opensOn (upload : Upload) (world : World) :
    OpensOn upload world (upload.turn world).2 ∨ Stops upload world (upload.turn world).2 := by
  unfold turn
  cases hstate : upload.state with
  | writting buf => exact turnWritting_opensOn hstate
  | reading => exact turnReading_opensOn hstate
  | create path => exact turnCreate_opensOn hstate
  | flush => exact turnFlush_opensOn hstate
  | done => exact .inr ⟨rfl, rfl, hstate⟩

theorem turn_opens (upload : Upload) (world : World) :
    Opens upload world (upload.turn world).2 := by
  rcases turn_opensOn upload world with hopens | ⟨hpath, hcreations, hstate⟩
  · exact hopens.opens
  · exact .of_done hpath hcreations hstate

theorem turns_opens (fuel : Nat) (upload : Upload) (world : World) :
    Opens upload world (upload.turns fuel world).2 := by
  induction fuel generalizing upload world with
  | zero => exact .refl upload world
  | succ fuel ih =>
      have hopens := turn_opens upload world
      rcases turns_succ fuel upload world with ⟨upload', world', hagain, hturns⟩ | ⟨-, hturns⟩
      · rw [hagain] at hopens
        rw [hturns]
        exact hopens.trans (ih upload' world')
      · rw [hturns]
        exact hopens

end Opens

end Upload

/-! ## When no call fails -/

def fieldsNeed : List Field → Nat
  | [] => 0
  | field :: fields => 3 * field.chunks.length + 5 + fieldsNeed fields

def StreamUpload.needs (stream : StreamUpload) : Nat :=
  match stream.state with
  | .done => 0
  | .waitingField => fieldsNeed stream.multipart.fields
  | .readingField field => 3 * field.chunks.length + 3 + fieldsNeed stream.multipart.fields

/-- The stream has something to tell that is no error. -/
def StreamUpload.GoesOn (stream : StreamUpload) : Prop :=
  match stream.state with
  | .done => False
  | .waitingField => opened stream.allowed stream.multipart.fields ≠ []
  | .readingField field => field.chunks = [] → field.failure = none

theorem StreamUpload.goesOn_of_toOpen {stream : StreamUpload} (hopen : stream.toOpen ≠ []) :
    stream.GoesOn := by
  unfold GoesOn
  unfold toOpen at hopen
  cases hstate : stream.state with
  | done =>
      rw [hstate] at hopen
      exact hopen rfl
  | waitingField =>
      rw [hstate] at hopen
      exact hopen
  | readingField field =>
      rw [hstate] at hopen
      intro _
      by_contra hfailure
      exact hopen (if_neg hfailure)

namespace Upload

/-- So many answers are enough to come to the end of the body. -/
def needs (upload : Upload) : Nat :=
  match upload.state with
  | .done => 0
  | .reading => upload.stream.needs
  | .create _ => upload.stream.needs + 1
  | .writting _ | .flush => upload.stream.needs + 2

structure Works (upload : Upload) (next : Upload × World) : Prop where
  state : next.1.state ≠ .done
  answers : ∃ m, next.1.needs ≤ m ∧ next.2.answers = .replicate m .done
  needs : next.1.needs < upload.needs

section Works

variable {upload : Upload} {world : World} {n : Nat}

theorem turnReading_works_of_waitingField (hstate : upload.state = .reading)
    (hstream : upload.stream.state = .waitingField)
    (hanswers : world.answers = .replicate n .done) (hn : upload.needs ≤ n)
    (hopen : opened upload.stream.allowed upload.stream.multipart.fields ≠ []) :
    Works upload (upload.turnReading world).2 := by
  simp only [needs, hstate, StreamUpload.needs, hstream] at hn
  unfold turnReading
  rw [hanswers]
  cases hfields : upload.stream.multipart.fields with
  | nil => simp [hfields, opened] at hopen
  | cons field fields =>
      simp only [hfields, fieldsNeed] at hn
      obtain ⟨n, rfl⟩ : ∃ m, n = m + 1 := ⟨n - 1, by omega⟩
      simp only [hfields, opened] at hopen
      cases hname : field.fileName with
      | none => simp [hname] at hopen
      | some name =>
          cases hmime : field.contentType with
          | none => simp [hname, hmime] at hopen
          | some mime =>
              have hallowed : upload.stream.allowed.any (·.matches mime) = true := by
                by_contra hrefused
                simp [hname, hmime, hrefused] at hopen
              simp only [List.replicate_succ, Answer.next, Answer.waits,
                StreamUpload.pollNext, hstream, hfields, StreamUpload.openField, hname, hmime,
                hallowed, Bool.false_eq_true, if_false, if_true, read]
              refine ⟨by simp, ⟨n, ?_, rfl⟩, ?_⟩
              · simp only [needs, StreamUpload.needs]
                omega
              · simp only [needs, hstate, StreamUpload.needs, hstream, hfields, fieldsNeed]
                omega

theorem turnReading_works_of_readingField {field : Field} (hstate : upload.state = .reading)
    (hstream : upload.stream.state = .readingField field)
    (hanswers : world.answers = .replicate n .done) (hn : upload.needs ≤ n)
    (hwhole : field.chunks = [] → field.failure = none) :
    Works upload (upload.turnReading world).2 := by
  simp only [needs, hstate, StreamUpload.needs, hstream] at hn
  unfold turnReading
  rw [hanswers]
  obtain ⟨n, rfl⟩ : ∃ m, n = m + 1 := ⟨n - 1, by omega⟩
  cases hchunks : field.chunks with
  | cons chunk chunks =>
      simp only [hchunks, List.length_cons] at hn
      simp only [List.replicate_succ, Answer.next, Answer.waits, StreamUpload.pollNext,
        hstream, hchunks, Bool.false_eq_true, if_false, read]
      refine ⟨by simp, ⟨n, ?_, rfl⟩, ?_⟩
      · simp only [needs, StreamUpload.needs]
        omega
      · simp only [needs, hstate, StreamUpload.needs, hstream, hchunks, List.length_cons]
        omega
  | nil =>
      have hfailure := hwhole hchunks
      simp only [hchunks, List.length_nil] at hn
      simp only [List.replicate_succ, Answer.next, Answer.waits, StreamUpload.pollNext,
        hstream, hchunks, hfailure, Bool.false_eq_true, if_false, read]
      refine ⟨by simp, ⟨n, ?_, rfl⟩, ?_⟩
      · simp only [needs, StreamUpload.needs]
        omega
      · simp only [needs, hstate, StreamUpload.needs, hstream, hchunks, List.length_nil]
        omega

theorem turnReading_works (hstate : upload.state = .reading)
    (hanswers : world.answers = .replicate n .done) (hn : upload.needs ≤ n)
    (hgoes : upload.stream.GoesOn) : Works upload (upload.turnReading world).2 := by
  unfold StreamUpload.GoesOn at hgoes
  cases hstream : upload.stream.state with
  | waitingField =>
      rw [hstream] at hgoes
      exact turnReading_works_of_waitingField hstate hstream hanswers hn hgoes
  | readingField field =>
      rw [hstream] at hgoes
      exact turnReading_works_of_readingField hstate hstream hanswers hn hgoes
  | done =>
      rw [hstream] at hgoes
      exact hgoes.elim

theorem turnCreate_works {path : PathBuf} (hstate : upload.state = .create path)
    (hanswers : world.answers = .replicate n .done) (hn : upload.needs ≤ n) :
    Works upload (upload.turnCreate world path).2 := by
  simp only [needs, hstate] at hn
  obtain ⟨n, rfl⟩ : ∃ m, n = m + 1 := ⟨n - 1, by omega⟩
  unfold turnCreate
  rw [hanswers]
  refine ⟨by simp [List.replicate_succ, Answer.next], ⟨n, ?_, rfl⟩, ?_⟩
  · simp only [List.replicate_succ, Answer.next, needs]
    omega
  · simp only [List.replicate_succ, Answer.next, needs, hstate]
    omega

theorem turnWritting_works {buf : Bytes} {buffer : Buffer} (hstate : upload.state = .writting buf)
    (hbuffer : upload.buffer = some buffer) (hanswers : world.answers = .replicate n .done)
    (hn : upload.needs ≤ n) : Works upload (upload.turnWritting world buf).2 := by
  simp only [needs, hstate] at hn
  obtain ⟨n, rfl⟩ : ∃ m, n = m + 2 := ⟨n - 2, by omega⟩
  obtain ⟨m, hm, hresult, hleft⟩ := Buffer.pollWrite_done n buf buffer world.files
  unfold turnWritting
  simp only [hbuffer, hanswers, hresult, lt_irrefl, if_false]
  refine ⟨by simp, ⟨m, ?_, hleft⟩, ?_⟩
  · simp only [needs]
    omega
  · simp only [needs, hstate]
    omega

theorem turnFlush_works {buffer : Buffer} (hstate : upload.state = .flush)
    (hbuffer : upload.buffer = some buffer) (hanswers : world.answers = .replicate n .done)
    (hn : upload.needs ≤ n) : Works upload (upload.turnFlush world).2 := by
  simp only [needs, hstate] at hn
  obtain ⟨n, rfl⟩ : ∃ m, n = m + 2 := ⟨n - 2, by omega⟩
  obtain ⟨m, hm, hresult, hleft⟩ := Buffer.pollFlush_done n buffer world.files
  unfold turnFlush
  simp only [hbuffer, hanswers, hresult]
  refine ⟨by simp, ⟨m, ?_, hleft⟩, ?_⟩
  · simp only [needs]
    omega
  · simp only [needs, hstate]
    omega

/-- Where the machine writes or flushes, it has a buffer. -/
theorem turn_works {body : Multipart} {k : Nat} (hphase : Phase body k upload world.files)
    (hanswers : world.answers = .replicate n .done) (hn : upload.needs ≤ n)
    (hnot : upload.state ≠ .done) (hgoes : upload.state = .reading → upload.stream.GoesOn) :
    Works upload (upload.turn world).2 := by
  unfold turn
  cases hphase with
  | between hstate _ _ _ _ =>
      rw [hstate]
      exact turnReading_works hstate hanswers hn (hgoes hstate)
  | creating _ _ _ _ _ hstate _ _ _ _ _ =>
      rw [hstate]
      exact turnCreate_works hstate hanswers hn
  | reading _ _ _ _ _ hstate _ _ _ =>
      rw [hstate]
      exact turnReading_works hstate hanswers hn (hgoes hstate)
  | writting _ _ _ _ _ _ hstate _ _ hfilling =>
      rw [hstate]
      exact turnWritting_works hstate hfilling.buffer_eq hanswers hn
  | flushing _ _ _ _ hstate _ _ hfilling =>
      rw [hstate]
      exact turnFlush_works hstate hfilling.buffer_eq hanswers hn
  | stopped hstate _ => exact absurd hstate hnot

end Works

end Upload

section Runs

variable {machine machine' : Machine} {polled : Polled} {polls : List Polled}

theorem Polls.opens (hpolls : Polls machine polled machine') :
    Upload.Opens machine.1 machine.2 machine' := by
  have hopens := Upload.turns_opens (machine.1.rounds machine.2 + 1) machine.1 machine.2
  rw [Polls, Upload.pollNext] at hpolls
  rw [hpolls] at hopens
  exact hopens

theorem opens_run (hrun : Run Polls machine polls machine') :
    Upload.Opens machine.1 machine.2 machine' := by
  induction hrun with
  | nil machine => exact .refl _ _
  | cons hstep _ ih => exact hstep.opens.trans ih

/-- A poll that goes on from a machine is a poll of the one before. -/
theorem exists_run_of_again {body : Multipart} {k : Nat}
    (hagain : machine.1.turn machine.2 = (.again, machine'))
    (hphase : Phase body k machine'.1 machine'.2.files) {last : Machine}
    (hrun : Run Polls machine' polls last) :
    ∃ polls' last', Run Polls machine polls' last' ∧ last.2.creations <+: last'.2.creations := by
  have hpoll := Upload.pollNext_of_again hagain
  cases hrun with
  | nil =>
      -- the run has stopped in the middle of a poll, which now ends
      obtain ⟨polled, last, hnext, -⟩ := hphase.advances_pollNext
      have hpolled : Polls machine' polled last := hnext
      refine ⟨[polled], last, .cons (hpoll.trans hnext) (.nil last), ?_⟩
      obtain ⟨-, metaFiles, hcreations, -⟩ := hpolled.opens
      rw [hcreations]
      exact List.prefix_append _ _
  | cons hstep hrun =>
      exact ⟨_, last, .cons (hpoll.trans hstep) hrun, List.prefix_rfl⟩

theorem exists_run_opens {body : Multipart} {k n : Nat}
    (hphase : Phase body k machine.1 machine.2.files)
    (hanswers : machine.2.answers = .replicate n .done) (hn : machine.1.needs ≤ n) :
    ∃ polls last, Run Polls machine polls last ∧
      machine.2.creations ++ machine.1.toOpen.map machine.1.creation <+: last.2.creations := by
  induction hsize : machine.1.needs using Nat.strong_induction_on generalizing machine k n with
  | _ size ih =>
    subst hsize
    by_cases hopen : machine.1.toOpen = []
    · exact ⟨[], machine, .nil machine, by simp [hopen]⟩
    · have hnot : machine.1.state ≠ .done := fun hdone => hopen (Upload.toOpen_of_done hdone)
      have hgoes : machine.1.stream.GoesOn := by
        rw [Upload.toOpen_of_ne_done hnot] at hopen
        exact StreamUpload.goesOn_of_toOpen hopen
      obtain ⟨hstate, ⟨m, hm, hanswers'⟩, hless⟩ :=
        Upload.turn_works hphase hanswers hn hnot fun _ => hgoes
      rcases Upload.turn_opensOn machine.1 machine.2 with
        ⟨hpath, metaFiles, hcreations, hleft⟩ | ⟨-, -, hdone⟩
      · have hadvances := hphase.advances
        -- from the next machine on all the rest is opened
        have hlater {k' : Nat} (hphase' : Phase body k' (machine.1.turn machine.2).2.1
            (machine.1.turn machine.2).2.2.files) := ih _ hless hphase' hanswers' hm rfl
        have hcreation : (machine.1.turn machine.2).2.1.creation = machine.1.creation := by
          funext metaFile
          simp only [Upload.creation, hpath]
        rw [hcreation, hcreations, List.append_assoc, ← List.map_append, hleft] at hlater
        generalize hturn : machine.1.turn machine.2 = next at hadvances hlater
        cases hadvances with
        | goesOn _ _ hphase' =>
            obtain ⟨polls, last, hrun, hpre⟩ := hlater hphase'
            obtain ⟨polls', last', hrun', hpre'⟩ := exists_run_of_again hturn hphase' hrun
            exact ⟨polls', last', hrun', hpre.trans hpre'⟩
        | pauses _ _ _ hphase' =>
            obtain ⟨polls, last, hrun, hpre⟩ := hlater hphase'
            exact ⟨_, last, .cons (Upload.pollNext_of_ends hturn) hrun, hpre⟩
        | tells _ _ _ _ _ _ _ hphase' =>
            obtain ⟨polls, last, hrun, hpre⟩ := hlater hphase'
            exact ⟨_, last, .cons (Upload.pollNext_of_ends hturn) hrun, hpre⟩
      · exact absurd hdone hstate

end Runs

/-- All files that any run creates lie in the directories of their types exactly if
no field that is opened has a name that leads elsewhere. -/
theorem uploads_confined_iff (body : Multipart) (allowed : List MimeAllowed)
    (path : Mime → PathBuf) :
    (∀ answers polls machine, Run Polls (.start body allowed path answers) polls machine →
        ∀ creation ∈ machine.2.creations,
          (path creation.metaFile.mime).DirectChild creation.path) ↔
      ∀ metaFile ∈ opened allowed body.fields,
        (path metaFile.mime).StaysIn metaFile.fileName := by
  constructor
  · intro hconfined metaFile hmem
    let answers : List Answer := .replicate (fieldsNeed body.fields) .done
    obtain ⟨polls, last, hrun, hpre⟩ :=
      exists_run_opens (Progress.start body allowed path answers).phase rfl le_rfl
    have hcreated : (Machine.start body allowed path answers).1.creation metaFile ∈
        last.2.creations := by
      refine hpre.mem (List.mem_append_right _ (List.mem_map_of_mem ?_))
      exact hmem
    exact PathBuf.directChild_push_iff.1 (hconfined answers polls last hrun _ hcreated)
  · intro hstays answers polls machine hrun creation hmem
    obtain ⟨-, metaFiles, hcreations, hleft⟩ := opens_run hrun
    have hopened : metaFiles <+: opened allowed body.fields :=
      (List.prefix_append metaFiles _).trans hleft
    rw [hcreations] at hmem
    rcases List.mem_append.1 hmem with hbefore | hmem
    · cases hbefore
    obtain ⟨metaFile, hmetaFile, rfl⟩ := List.mem_map.1 hmem
    exact PathBuf.directChild_push_iff.2 (hstays metaFile (hopened.mem hmetaFile))

/-- A video that is called `../x` is put beside the directory `d`. -/
theorem upload_beside_directory :
    ∃ (body : Multipart) (answers : List Answer) (polls : List Polled) (machine : Machine),
      Run Polls (.start body [.mediaType ['v']] (fun _ => ['d']) answers) polls machine ∧
        ∃ creation ∈ machine.2.creations,
          creation.path = ['d', '/', '.', '.', '/', 'x'] ∧
          ¬ PathBuf.DirectChild ['d'] creation.path := by
  let mime : Mime := { type_ := ['v'], subtype := ['m'], rest := [] }
  refine ⟨{
      fields := [{
        fileName := some ['.', '.', '/', 'x']
        contentType := some mime
        chunks := []
        failure := none }]
      failure := none }, [.done], [.pending], _, .cons rfl (.nil _),
    { metaFile := { fileName := ['.', '.', '/', 'x'], mime }
      path := ['d', '/', '.', '.', '/', 'x'] }, List.mem_singleton.2 rfl, rfl, ?_⟩
  rintro ⟨-, name, -, hpieces⟩
  have hlength := congrArg List.length hpieces
  rw [List.length_append, List.length_singleton] at hlength
  exact absurd hlength (by decide)

end WsHyper.UploadFiles
