import WsHyper.UploadFiles.Confined

/-!
# Fields that share a file

A file is created for each field, at a path that the client names.  Where two of these
paths lead to one file, the later `File::create` empties it, and what is sent of the later
field ends up in the file of the earlier one.  What is found in the files is right all
along exactly if no two fields that are opened share one, or none of them has anything to
send.
-/

namespace WsHyper.UploadFiles

open WsHyper.Lib

/-! ## Round by round -/

def Flow.result : Flow → Option UploadResult
  | .ends polled => resultOf polled
  | .again | .panics => none

/-- A round of the loop, by how it ends. -/
def Rounds (machine : Machine) (flow : Flow) (machine' : Machine) : Prop :=
  machine.1.turn machine.2 = (flow, machine')

section Rounds

variable {body : Multipart} {path : Mime → PathBuf} {results : List UploadResult}
  {machine machine' : Machine} {flow : Flow} {flows : List Flow} {polled : Polled}
  {polls : List Polled}

theorem Rounds.turn_eq (hround : Rounds machine flow machine') :
    machine.1.turn machine.2 = (flow, machine') :=
  hround

theorem Progress.of_round (hprogress : Progress body path results machine)
    (hround : Rounds machine flow machine') :
    Progress body path (results ++ flow.result.toList) machine' := by
  have hadvances := hprogress.phase.advances
  rw [hround.turn_eq] at hadvances
  cases flow with
  | ends polled => exact hprogress.of_advances hadvances
  | again =>
      cases hadvances with
      | goesOn hpath hsame hphase =>
          rw [Flow.result, Option.toList_none, List.append_nil]
          exact ⟨hpath.trans hprogress.path_eq, hprogress.stored.of_same hsame,
            hprogress.whole, hphase⟩
  | panics => cases hadvances

theorem Progress.rounds (hprogress : Progress body path results machine)
    (hrun : Run Rounds machine flows machine') :
    Progress body path (results ++ flows.filterMap Flow.result) machine' := by
  induction hrun generalizing results with
  | nil machine =>
      rw [List.filterMap_nil, List.append_nil]
      exact hprogress
  | @cons machine _ _ flow flows hround _ ih =>
      have hlater := ih (hprogress.of_round hround)
      have hresults : (flow :: flows).filterMap Flow.result =
          flow.result.toList ++ flows.filterMap Flow.result := by
        rw [List.filterMap_cons]
        cases flow.result <;> rfl
      rw [hresults, ← List.append_assoc]
      exact hlater

/-- A poll is made of rounds, of which the last may tell a result. -/
theorem exists_rounds_of_turns {fuel : Nat} {upload : Upload} {world : World}
    (hends : upload.turns fuel world = (.ends polled, machine')) :
    ∃ flows, Run Rounds (upload, world) flows machine' ∧
      flows.filterMap Flow.result = (resultOf polled).toList := by
  induction fuel generalizing upload world with
  | zero => cases hends
  | succ fuel ih =>
      rcases Upload.turns_succ fuel upload world with
        ⟨upload', world', hagain, hturns⟩ | ⟨-, hturns⟩
      · rw [hturns] at hends
        obtain ⟨flows, hrun, hresults⟩ := ih hends
        exact ⟨.again :: flows, .cons hagain hrun, hresults⟩
      · rw [hturns] at hends
        refine ⟨[.ends polled], .cons hends (.nil _), ?_⟩
        rw [List.filterMap_cons, List.filterMap_nil, Flow.result]
        cases resultOf polled <;> rfl

theorem exists_rounds_of_run (hrun : Run Polls machine polls machine') :
    ∃ flows, Run Rounds machine flows machine' ∧
      flows.filterMap Flow.result = polls.filterMap resultOf := by
  induction hrun with
  | nil machine => exact ⟨[], .nil machine, rfl⟩
  | @cons machine _ _ polled polls hpoll _ ih =>
      obtain ⟨flows, hfirst, hresults⟩ := exists_rounds_of_turns hpoll
      obtain ⟨flows', hlater, hresults'⟩ := ih
      refine ⟨flows ++ flows', run_append_iff.2 ⟨_, hfirst, hlater⟩, ?_⟩
      rw [List.filterMap_append, hresults, hresults', List.filterMap_cons]
      cases resultOf polled <;> rfl

theorem opens_rounds (hrun : Run Rounds machine flows machine') :
    Upload.Opens machine.1 machine.2 machine' := by
  induction hrun with
  | nil machine => exact .refl _ _
  | @cons machine next _ flow flows hround _ ih =>
      have hopens := Upload.turn_opens machine.1 machine.2
      rw [hround.turn_eq] at hopens
      exact hopens.trans ih

end Rounds

/-! ## A file for each call -/

/-- How many calls of `File::create` the machine waits for. -/
def Upload.creating (upload : Upload) : Nat :=
  match upload.state with
  | .create _ => 1
  | _ => 0

/-- Each file is from a call, and the only other call is the one that the machine waits for,
unless this one has failed. -/
def Counted (machine : Machine) : Prop :=
  machine.2.creations.length = machine.2.files.length + machine.1.creating ∨
    machine.1.state = .done ∧ machine.2.files.length ≤ machine.2.creations.length

section Counting

variable {upload upload' : Upload} {world world' : World} {machine machine' : Machine}
  {flows : List Flow}

theorem Buffer.Passes.length_files {α : Type} {buffer : Buffer} {files : Files}
    {called : Called α} {added : Bytes} (hpasses : Buffer.Passes buffer files called added) :
    called.files.length = files.length := by
  obtain ⟨sent, hfiles, -⟩ := hpasses.sent
  rw [hfiles, Sinks.length_receive]

theorem length_files_pollWrite (buf : Bytes) (answers : List Answer) (buffer : Buffer)
    (files : Files) : (buffer.pollWrite buf answers files).files.length = files.length := by
  cases Buffer.pollWrite_reports buf answers buffer files with
  | took _ _ _ hpasses => exact hpasses.length_files
  | nothing _ hpasses => exact hpasses.length_files

theorem length_files_pollFlush (answers : List Answer) (buffer : Buffer) (files : Files) :
    (Buffer.pollFlush answers buffer files).files.length = files.length := by
  rcases Buffer.pollFlush_passes answers buffer files with ⟨-, -, hfiles⟩ | ⟨-, hpasses⟩
  · rw [hfiles, Sinks.length_flush, Sinks.length_receive]
  · exact hpasses.length_files

structure Counts (machine machine' : Machine) : Prop where
  counted : Counted machine → Counted machine'
  length : machine'.2.files.length ≤ machine.2.files.length + machine.1.creating

theorem Counts.of_same (hlength : world'.files.length = world.files.length)
    (hcreations : world'.creations = world.creations)
    (hcreating : upload'.creating = upload.creating) (hstate : upload.state ≠ .done) :
    Counts (upload, world) (upload', world') where
  counted := by
    rintro (hcalls | ⟨hdone, -⟩)
    · exact .inl (by rw [hcreations, hlength, hcreating, hcalls])
    · exact absurd hdone hstate
  length := by simp [hlength]

theorem Counts.of_done (hlength : world'.files.length = world.files.length)
    (hcreations : world'.creations = world.creations) (hstate : upload'.state = .done) :
    Counts (upload, world) (upload', world') where
  counted := by
    rintro (hcalls | ⟨-, hle⟩)
    · exact .inr ⟨hstate, by simp only [hcreations, hlength, hcalls]; omega⟩
    · exact .inr ⟨hstate, by simp only [hcreations, hlength]; exact hle⟩
  length := by simp [hlength]

theorem counts_turnWritting {buf : Bytes} (hstate : upload.state = .writting buf) :
    Counts (upload, world) (upload.turnWritting world buf).2 := by
  unfold Upload.turnWritting
  cases upload.buffer with
  | none => exact .of_same rfl rfl rfl (by simp [hstate])
  | some buffer =>
      have hlength := length_files_pollWrite buf world.answers buffer world.files
      simp only
      generalize buffer.pollWrite buf world.answers world.files = called at hlength
      split
      · refine .of_same hlength rfl ?_ (by simp [hstate])
        simp only [Upload.creating, hstate]
        split_ifs <;> rfl
      · exact .of_done hlength rfl rfl
      · exact .of_same hlength rfl rfl (by simp [hstate])

theorem counts_turnReading (hstate : upload.state = .reading) :
    Counts (upload, world) (upload.turnReading world).2 := by
  unfold Upload.turnReading
  obtain ⟨answer, answers⟩ := Answer.next world.answers
  simp only
  generalize upload.stream.pollNext answer.waits = polled
  obtain ⟨polled, stream⟩ := polled
  have hne : upload.state ≠ .done := by simp [hstate]
  have hcreating : upload.creating = 0 := by rw [Upload.creating, hstate]
  cases polled with
  | pending => exact .of_same rfl rfl rfl hne
  | ready item =>
      match item with
      | none => exact .of_done rfl rfl rfl
      | some (.error e) => exact .of_done rfl rfl rfl
      | some (.ok (.new metaFile)) =>
          refine ⟨fun hcounted => .inl ?_, Nat.le_add_right _ _⟩
          have hcalls := hcounted.resolve_right fun hdone => hne hdone.1
          simp only [hcreating] at hcalls
          simp [Upload.read, Upload.creating, hcalls]
      | some (.ok (.bytes bytes)) => exact .of_same rfl rfl hcreating.symm hne
      | some (.ok .eof) => exact .of_same rfl rfl hcreating.symm hne

theorem counts_turnCreate {path : PathBuf} (hstate : upload.state = .create path) :
    Counts (upload, world) (upload.turnCreate world path).2 := by
  have hne : upload.state ≠ .done := by simp [hstate]
  have hcreating : upload.creating = 1 := by rw [Upload.creating, hstate]
  have hcreated (answers : List Answer) : Counts (upload, world)
      ({ upload with buffer := some (.new world.files.length), state := .reading },
        { world with files := world.files.create path, answers }) := by
    refine ⟨fun hcounted => .inl ?_, ?_⟩
    · have hcalls := hcounted.resolve_right fun hdone => hne hdone.1
      simp only [hcreating] at hcalls
      simp [Upload.creating, hcalls]
    · simp [hcreating]
  unfold Upload.turnCreate
  obtain ⟨answer, answers⟩ := Answer.next world.answers
  cases answer with
  | pending => exact .of_same rfl rfl rfl hne
  | failed e => exact .of_done rfl rfl rfl
  | done => exact hcreated answers
  | accepted n => exact hcreated answers

theorem counts_turnFlush (hstate : upload.state = .flush) :
    Counts (upload, world) (upload.turnFlush world).2 := by
  have hne : upload.state ≠ .done := by simp [hstate]
  have hcreating : upload.creating = 0 := by rw [Upload.creating, hstate]
  unfold Upload.turnFlush
  cases upload.buffer with
  | none => exact .of_done rfl rfl rfl
  | some buffer =>
      have hlength := length_files_pollFlush world.answers buffer world.files
      simp only
      generalize buffer.pollFlush world.answers world.files = called at hlength
      split
      · exact .of_same hlength rfl hcreating.symm hne
      · exact .of_done hlength rfl rfl
      · exact .of_same hlength rfl rfl hne

theorem counts_turn (machine : Machine) : Counts machine (machine.1.turn machine.2).2 := by
  obtain ⟨upload, world⟩ := machine
  unfold Upload.turn
  cases hstate : upload.state with
  | writting buf => exact counts_turnWritting hstate
  | reading => exact counts_turnReading hstate
  | create path => exact counts_turnCreate hstate
  | flush => exact counts_turnFlush hstate
  | done => exact .of_done rfl rfl hstate

theorem Counted.rounds (hcounted : Counted machine) (hrun : Run Rounds machine flows machine') :
    Counted machine' := by
  induction hrun with
  | nil machine => exact hcounted
  | @cons machine next _ flow flows hround _ ih =>
      refine ih ?_
      have hcounts := counts_turn machine
      rw [hround.turn_eq] at hcounts
      exact hcounts.counted hcounted

theorem Counted.start (body : Multipart) (allowed : List MimeAllowed) (path : Mime → PathBuf)
    (answers : List Answer) : Counted (.start body allowed path answers) :=
  .inl rfl

theorem Counted.length_le (hcounted : Counted machine) :
    machine.2.files.length ≤ machine.2.creations.length := by
  rcases hcounted with hcalls | ⟨-, hle⟩
  · omega
  · exact hle

end Counting

/-! ## Which fields share a file -/

/-- The fields that are opened, each with the path of its file. -/
def Multipart.placed (body : Multipart) (allowed : List MimeAllowed) (path : Mime → PathBuf) :
    List (Field × PathBuf) :=
  body.fields.zip <| (opened allowed body.fields).map fun metaFile =>
    (path metaFile.mime).push metaFile.fileName

/-- Something of the field reaches its file, if no call fails: a field that is cut off is
not flushed, and what it has before may all be in the buffer. -/
def Field.Spills (field : Field) : Prop :=
  field.content ≠ [] ∧ (field.failure = none ∨ Buffer.defaultBuffer ≤ field.content.length)

section Placed

variable {body : Multipart} {allowed : List MimeAllowed} {path : Mime → PathBuf}
  {fields : List Field} {field : Field} {metaFile : MetaFile} {file : Sink Str UInt8}
  {files : Files} {inode : PathBuf → Nat} {place : PathBuf} {i : Nat} {machine : Machine}
  {flows : List Flow}

theorem exists_of_opened (hopened : (opened allowed fields)[i]? = some metaFile) :
    ∃ field, fields[i]? = some field ∧ field.fileName = some metaFile.fileName ∧
      field.contentType = some metaFile.mime := by
  induction fields generalizing i with
  | nil => cases hopened
  | cons field fields ih =>
      unfold opened at hopened
      cases hname : field.fileName with
      | none => simp [hname] at hopened
      | some name =>
          cases hmime : field.contentType with
          | none => simp [hname, hmime] at hopened
          | some mime =>
              simp only [hname, hmime] at hopened
              split_ifs at hopened with hallowed hwhole
              · cases i with
                | zero =>
                    obtain rfl := Option.some.inj hopened
                    exact ⟨field, rfl, hname, hmime⟩
                | succ i => exact ih hopened
              · cases i with
                | zero =>
                    obtain rfl := Option.some.inj hopened
                    exact ⟨field, rfl, hname, hmime⟩
                | succ i => cases hopened
              · cases hopened

theorem exists_of_placed (hplaced : (body.placed allowed path)[i]? = some (field, place)) :
    ∃ metaFile, (opened allowed body.fields)[i]? = some metaFile ∧
      body.fields[i]? = some field ∧ field.fileName = some metaFile.fileName ∧
      field.contentType = some metaFile.mime ∧
      place = (path metaFile.mime).push metaFile.fileName := by
  rw [Multipart.placed, List.getElem?_zip_eq_some, List.getElem?_map,
    Option.map_eq_some_iff] at hplaced
  obtain ⟨hfield, metaFile, hopened, hplace⟩ := hplaced
  obtain ⟨field', hfield', hname, hmime⟩ := exists_of_opened hopened
  rw [hfield, Option.some.injEq] at hfield'
  subst hfield'
  exact ⟨metaFile, hopened, hfield, hname, hmime, hplace.symm⟩

theorem length_opened_le (allowed : List MimeAllowed) (fields : List Field) :
    (opened allowed fields).length ≤ fields.length := by
  refine Nat.le_of_not_lt fun hlt => ?_
  obtain ⟨field, hfield, -⟩ := exists_of_opened (List.getElem?_eq_getElem hlt)
  rw [List.getElem?_eq_none le_rfl] at hfield
  cases hfield

theorem length_placed (body : Multipart) (allowed : List MimeAllowed) (path : Mime → PathBuf) :
    (body.placed allowed path).length = (opened allowed body.fields).length := by
  rw [Multipart.placed, List.length_zip, List.length_map]
  exact min_eq_right (length_opened_le allowed body.fields)

theorem AllFed.label_eq (hfed : AllFed body path files) (hfile : files[i]? = some file)
    (hplaced : (body.placed allowed path)[i]? = some (field, place)) : file.label = place := by
  obtain ⟨metaFile, -, hfield, hname, hmime, rfl⟩ := exists_of_placed hplaced
  obtain ⟨field', hfield', ⟨metaFile', hname', hmime', hlabel⟩, -⟩ := hfed i file hfile
  rw [hfield, Option.some.injEq] at hfield'
  subst hfield'
  rw [hname, Option.some.injEq] at hname'
  rw [hmime, Option.some.injEq] at hmime'
  rw [hlabel, hname', hmime']

/-- There is no file but for the fields that are opened. -/
theorem length_files_le {answers : List Answer}
    (hrun : Run Rounds (.start body allowed path answers) flows machine) :
    machine.2.files.length ≤ (opened allowed body.fields).length := by
  have hcounted := (Counted.start body allowed path answers).rounds hrun
  obtain ⟨-, metaFiles, hcreations, hleft⟩ := opens_rounds hrun
  have hlength : machine.2.creations.length = metaFiles.length := by
    simp [hcreations, Machine.start]
  refine hcounted.length_le.trans ?_
  rw [hlength]
  exact ((List.prefix_append metaFiles _).trans hleft).length_le

/-- A field that has nothing to send leaves its file empty. -/
theorem Field.Feeds.received_eq_nil (hfeeds : field.Feeds path file) (hholds : field.Holds file)
    (hspills : ¬field.Spills) : file.received = [] := by
  by_cases hcontent : field.content = []
  · have hpre := hfeeds.2
    rwa [hcontent, List.prefix_nil] at hpre
  · have hfailure : field.failure ≠ none := fun hwhole => hspills ⟨hcontent, .inl hwhole⟩
    exact hholds.unsent hfailure (Nat.lt_of_not_le fun hle => hspills ⟨hcontent, .inr hle⟩)

theorem Field.Holds.flushed_eq_zero (hholds : field.Holds file) (hempty : file.received = []) :
    file.flushed = 0 := by
  have hflushed := hholds.flushed
  rwa [hempty, List.length_nil, Nat.le_zero] at hflushed

theorem AllFed.feeds (hfed : AllFed body path files) (hfield : body.fields[i]? = some field)
    (hfile : files[i]? = some file) : field.Feeds path file := by
  obtain ⟨field', hfield', hfeeds⟩ := hfed i file hfile
  rw [hfield, Option.some.injEq] at hfield'
  subst hfield'
  exact hfeeds

theorem AllFed.exists_placed (hfed : AllFed body path files)
    (hle : files.length ≤ (opened allowed body.fields).length) (hfile : files[i]? = some file) :
    ∃ field, (body.placed allowed path)[i]? = some (field, file.label) := by
  have hlt := (List.getElem?_eq_some_iff.1 hfile).1
  rw [← length_placed body allowed path] at hle
  have hplaced := List.getElem?_eq_getElem (hlt.trans_le hle)
  generalize (body.placed allowed path)[i] = found at hplaced
  obtain ⟨field, place⟩ := found
  exact ⟨field, by rw [hplaced, hfed.label_eq hfile hplaced]⟩

/-- When files on one place have the same, the handles tell what is found. -/
theorem AllFed.inPlace_eq {R : Field → Field → Prop} (hfed : AllFed body path files)
    (hle : files.length ≤ (opened allowed body.fields).length)
    (hpairs : (body.placed allowed path).Pairwise fun field later =>
      inode field.2 = inode later.2 → R field.1 later.1)
    (hagree : ∀ (i j : Nat) field later file file', body.fields[i]? = some field →
      body.fields[j]? = some later → files[i]? = some file → files[j]? = some file' →
        R field later → file'.received = file.received ∧ file'.flushed = file.flushed) :
    files.inPlace inode = files := by
  refine Sinks.inPlace_eq_self inode (List.pairwise_iff_getElem.2 fun i j hi hj hlt hsame => ?_)
  have hfile := List.getElem?_eq_getElem hi
  have hfile' := List.getElem?_eq_getElem hj
  obtain ⟨field, hplaced⟩ := hfed.exists_placed hle hfile
  obtain ⟨later, hplaced'⟩ := hfed.exists_placed hle hfile'
  obtain ⟨-, -, hfield, -⟩ := exists_of_placed hplaced
  obtain ⟨-, -, hlater, -⟩ := exists_of_placed hplaced'
  obtain ⟨hi', heq⟩ := List.getElem?_eq_some_iff.1 hplaced
  obtain ⟨hj', heq'⟩ := List.getElem?_eq_some_iff.1 hplaced'
  have hboth := List.pairwise_iff_getElem.1 hpairs i j hi' hj' hlt
  rw [heq, heq'] at hboth
  exact hagree i j field later _ _ hfield hlater hfile hfile' (hboth hsame)

theorem AllFed.inPlace_eq_of_apart (hfed : AllFed body path files) (hheld : AllHeld body files)
    (hle : files.length ≤ (opened allowed body.fields).length)
    (happart : (body.placed allowed path).Pairwise fun field later =>
      inode field.2 = inode later.2 → field.1.content = [] ∧ ¬later.1.Spills) :
    files.inPlace inode = files := by
  refine hfed.inPlace_eq hle (R := fun field later => field.content = [] ∧ ¬later.Spills) happart
    fun i j field later file file' hfield hlater hfile hfile' hpair => ?_
  obtain ⟨hcontent, hspills⟩ := hpair
  have hholds := hheld i field file hfield hfile
  have hholds' := hheld j later file' hlater hfile'
  have hempty := (hfed.feeds hfield hfile).received_eq_nil hholds
    fun hspills => hspills.1 hcontent
  have hempty' := (hfed.feeds hlater hfile').received_eq_nil hholds' hspills
  rw [hempty, hempty', hholds.flushed_eq_zero hempty, hholds'.flushed_eq_zero hempty']
  exact ⟨rfl, rfl⟩

theorem AllStored.inPlace_eq_of_agree {results : List UploadResult}
    (hstored : AllStored body path results files) (hfed : AllFed body path files)
    (hle : files.length ≤ (opened allowed body.fields).length)
    (htold : files.length ≤ results.length)
    (hagree : (body.placed allowed path).Pairwise fun field later =>
      inode field.2 = inode later.2 → field.1.content = later.1.content) :
    files.inPlace inode = files := by
  have hwhole {i : Nat} {field : Field} {file : Sink Str UInt8}
      (hfield : body.fields[i]? = some field) (hfile : files[i]? = some file) :
      file.received = field.content ∧ file.flushed = file.received.length := by
    have hlt := (List.getElem?_eq_some_iff.1 hfile).1
    obtain ⟨file', hfile', -, hreceived, hflushed, -⟩ :=
      hstored.exists_stored hfield (hlt.trans_le htold)
    rw [hfile, Option.some.injEq] at hfile'
    subst hfile'
    exact ⟨hreceived, hflushed⟩
  refine hfed.inPlace_eq hle (R := fun field later => field.content = later.content) hagree
    fun i j field later file file' hfield hlater hfile hfile' hpair => ?_
  obtain ⟨hreceived, hflushed⟩ := hwhole hfield hfile
  obtain ⟨hreceived', hflushed'⟩ := hwhole hlater hfile'
  rw [hflushed, hflushed', hreceived, hreceived', hpair]
  exact ⟨rfl, rfl⟩

theorem AllStored.content_eq {results : List UploadResult} {later : Field} {place' : PathBuf}
    {j : Nat} (hstored : AllStored body path results (files.inPlace inode))
    (hfed : AllFed body path files) (hi : i < results.length) (hj : j < results.length)
    (hplaced : (body.placed allowed path)[i]? = some (field, place))
    (hplaced' : (body.placed allowed path)[j]? = some (later, place'))
    (hsame : inode place = inode place') : field.content = later.content := by
  obtain ⟨-, -, hfield, -⟩ := exists_of_placed hplaced
  obtain ⟨-, -, hlater, -⟩ := exists_of_placed hplaced'
  obtain ⟨found, hfound, -, hreceived, -⟩ := hstored.exists_stored hfield hi
  obtain ⟨found', hfound', -, hreceived', -⟩ := hstored.exists_stored hlater hj
  obtain ⟨handle, hhandle, -⟩ := Sinks.exists_of_getElem?_inPlace inode hfound
  obtain ⟨handle', hhandle', -⟩ := Sinks.exists_of_getElem?_inPlace inode hfound'
  obtain ⟨-, last, -, -, -, hlast⟩ := Sinks.exists_lastAt inode hhandle
  have hlast' : Sinks.lastAt inode files (inode handle'.label) = some last := by
    rw [hfed.label_eq hhandle' hplaced', ← hsame, ← hfed.label_eq hhandle hplaced]
    exact hlast
  rw [Sinks.getElem?_inPlace inode hhandle hlast, Option.some.injEq] at hfound
  rw [Sinks.getElem?_inPlace inode hhandle' hlast', Option.some.injEq] at hfound'
  rw [← hreceived, ← hreceived', ← hfound, ← hfound']

end Placed

/-! ## How far an upload gets when no call fails -/

/-- No call has failed so far, and there are answers to come to the end of the body. -/
structure Undisturbed (body : Multipart) (allowed : List MimeAllowed) (path : Mime → PathBuf)
    (machine : Machine) : Prop where
  progress : ∃ results, Progress body path results machine
  counted : Counted machine
  state : machine.1.state ≠ .done
  answers : ∃ n, machine.1.needs ≤ n ∧ machine.2.answers = .replicate n .done
  calls : machine.2.creations.length + machine.1.toOpen.length =
    (opened allowed body.fields).length

section Reaching

variable {body : Multipart} {allowed : List MimeAllowed} {path : Mime → PathBuf}
  {machine : Machine}

theorem Undisturbed.start (body : Multipart) (allowed : List MimeAllowed)
    (path : Mime → PathBuf) : Undisturbed body allowed path
      (.start body allowed path (.replicate (fieldsNeed body.fields) .done)) where
  progress := ⟨[], .start body allowed path _⟩
  counted := .start body allowed path _
  state := nofun
  answers := ⟨_, le_rfl, rfl⟩
  calls := Nat.zero_add _

theorem Undisturbed.turn (hmachine : Undisturbed body allowed path machine)
    (hgoes : machine.1.state = .reading → machine.1.stream.GoesOn) :
    Undisturbed body allowed path (machine.1.turn machine.2).2 ∧
      (machine.1.turn machine.2).2.1.needs < machine.1.needs := by
  obtain ⟨⟨results, hprogress⟩, hcounted, hstate, ⟨n, hn, hanswers⟩, hopened⟩ := hmachine
  obtain ⟨hstate', hanswers', hless⟩ :=
    Upload.turn_works hprogress.phase hanswers hn hstate hgoes
  refine ⟨⟨⟨_, hprogress.of_round rfl⟩, (counts_turn machine).counted hcounted, hstate',
    hanswers', ?_⟩, hless⟩
  rcases Upload.turn_opensOn machine.1 machine.2 with ⟨-, metaFiles, hcreations, hleft⟩ | hstops
  · rw [← hopened, ← hleft, hcreations]
    simp only [List.length_append, List.length_map]
    omega
  · exact absurd hstops.2.2 hstate'

/-- A goal is reached if the machine goes on, within so many files, until it is met. -/
theorem Undisturbed.exists_run (Goal : Machine → Prop) (n : Nat)
    (hgoes : ∀ machine, Undisturbed body allowed path machine → machine.2.files.length ≤ n →
      ¬Goal machine → (machine.1.state = .reading → machine.1.stream.GoesOn) ∧
        machine.2.files.length + machine.1.creating ≤ n)
    (hmachine : Undisturbed body allowed path machine) (hn : machine.2.files.length ≤ n) :
    ∃ flows machine', Run Rounds machine flows machine' ∧
      Undisturbed body allowed path machine' ∧ Goal machine' := by
  induction hsize : machine.1.needs using Nat.strong_induction_on generalizing machine with
  | _ size ih =>
    subst hsize
    by_cases hgoal : Goal machine
    · exact ⟨[], machine, .nil machine, hmachine, hgoal⟩
    · obtain ⟨hreads, hcreates⟩ := hgoes machine hmachine hn hgoal
      obtain ⟨hmachine', hless⟩ := hmachine.turn hreads
      have hn' := (counts_turn machine).length.trans hcreates
      obtain ⟨flows, last, hrun, hlast⟩ := ih _ hless hmachine' hn' rfl
      exact ⟨_ :: flows, last, .cons rfl hrun, hlast⟩

theorem Undisturbed.goesOn (hmachine : Undisturbed body allowed path machine)
    (hstate : machine.1.state = .reading)
    (hless : machine.2.files.length < (opened allowed body.fields).length) :
    machine.1.stream.GoesOn := by
  have hcalls := hmachine.counted.resolve_right fun hdone => hmachine.state hdone.1
  have hopened := hmachine.calls
  rw [Upload.creating, hstate] at hcalls
  refine StreamUpload.goesOn_of_toOpen fun hnone => ?_
  rw [Upload.toOpen_of_ne_done hmachine.state, hnone, List.length_nil] at hopened
  simp only at hcalls
  omega

theorem Upload.creating_cases (upload : Upload) :
    (∃ place, upload.state = .create place ∧ upload.creating = 1) ∨ upload.creating = 0 := by
  unfold creating
  cases upload.state with
  | create place => exact .inl ⟨place, rfl, rfl⟩
  | writting _ => exact .inr rfl
  | reading => exact .inr rfl
  | flush => exact .inr rfl
  | done => exact .inr rfl

theorem exists_run_creates (path : Mime → PathBuf) {j : Nat}
    (hj : j < (opened allowed body.fields).length) :
    ∃ answers flows machine, Run Rounds (.start body allowed path answers) flows machine ∧
      Undisturbed body allowed path machine ∧ ∃ place, machine.1.state = .create place ∧
        machine.2.files.length = j := by
  obtain ⟨flows, machine, hrun, hmachine, hgoal⟩ :=
    (Undisturbed.start body allowed path).exists_run
      (fun machine => ∃ place, machine.1.state = .create place ∧ machine.2.files.length = j) j
      (fun machine hmachine hle hnot => by
        refine ⟨fun hstate => hmachine.goesOn hstate (hle.trans_lt hj), ?_⟩
        rcases machine.1.creating_cases with ⟨place, hstate, hcreating⟩ | hcreating
        · have hne : machine.2.files.length ≠ j := fun hlength => hnot ⟨place, hstate, hlength⟩
          omega
        · omega)
      (Nat.zero_le j)
  exact ⟨_, flows, machine, hrun, hmachine, hgoal⟩

theorem Undisturbed.exists_created {place : PathBuf}
    (hmachine : Undisturbed body allowed path machine) (hstate : machine.1.state = .create place) :
    ∃ machine', Rounds machine .again machine' ∧
      machine'.2.files = machine.2.files.create place := by
  obtain ⟨n, hn, hanswers⟩ := hmachine.answers
  rw [Upload.needs, hstate] at hn
  obtain ⟨n, rfl⟩ : ∃ m, n = m + 1 := ⟨n - 1, by simp only at hn; omega⟩
  refine ⟨({ machine.1 with
      buffer := some (.new machine.2.files.length)
      state := .reading },
    { machine.2 with
      files := machine.2.files.create place
      answers := .replicate n .done }), ?_, rfl⟩
  rw [Rounds, Upload.turn, hstate]
  simp only [Upload.turnCreate, hanswers, List.replicate_succ, Answer.next]

theorem Phase.length_of_create {k : Nat} {upload : Upload} {files : Files} {place : PathBuf}
    (hphase : Phase body k upload files) (hstate : upload.state = .create place) :
    files.length = k := by
  cases hphase with
  | creating _ _ _ _ _ _ _ _ hfiles _ _ => exact hfiles
  | between hother _ _ _ _ => simp [hstate] at hother
  | reading _ _ _ _ _ hother _ _ _ => simp [hstate] at hother
  | writting _ _ _ _ _ _ hother _ _ _ => simp [hstate] at hother
  | flushing _ _ _ _ hother _ _ _ => simp [hstate] at hother
  | stopped hother _ => simp [hstate] at hother

/-- While nothing of the last field is in its file, the stream goes on with this field,
which comes to an end or fills the buffer. -/
theorem Undisturbed.goesOn_of_spills {field : Field} {file : Sink Str UInt8} {j : Nat}
    (hmachine : Undisturbed body allowed path machine) (hfield : body.fields[j]? = some field)
    (hspills : field.Spills) (hlength : machine.2.files.length = j + 1)
    (hfile : machine.2.files[j]? = some file) (hempty : file.received = []) :
    (machine.1.state = .reading → machine.1.stream.GoesOn) ∧ machine.1.creating = 0 := by
  obtain ⟨results, hprogress⟩ := hmachine.progress
  -- the field is not told yet, as its file would have its content
  have hresults : results.length ≤ j := by
    by_contra hgt
    obtain ⟨file', hfile', -, hreceived, -⟩ :=
      hprogress.stored.exists_stored hfield (Nat.not_le.1 hgt)
    rw [hfile, Option.some.injEq] at hfile'
    subst hfile'
    exact hspills.1 (hreceived.symm.trans hempty)
  cases hprogress.phase with
  | between _ _ _ hfiles _ => omega
  | creating _ _ _ _ _ _ _ _ hfiles _ _ => omega
  | stopped hstate _ => exact absurd hstate hmachine.state
  | writting buf _ _ _ _ _ hstate _ _ _ =>
      exact ⟨fun hreading => by simp [hreading] at hstate, by simp [Upload.creating, hstate]⟩
  | flushing _ _ _ _ hstate _ _ _ =>
      exact ⟨fun hreading => by simp [hreading] at hstate, by simp [Upload.creating, hstate]⟩
  | reading left field' metaFile buffer file' hstate hstream hleft hfilling =>
      refine ⟨fun _ => ?_, by simp [Upload.creating, hstate]⟩
      have hlast := hfilling.length
      obtain rfl : results.length = j := by omega
      have hfield' := hfilling.field_eq
      have hfile' := hfilling.file_eq
      rw [hfield, Option.some.injEq] at hfield'
      rw [hfile, Option.some.injEq] at hfile'
      subst hfield' hfile'
      unfold StreamUpload.GoesOn
      rw [hstream]
      intro hchunks
      rw [hleft]
      refine hspills.2.resolve_right fun hle => ?_
      have hcontent := congrArg List.length hfilling.content
      simp only [hempty, Field.content, hchunks, List.flatten_nil, List.append_nil,
        List.nil_append] at hcontent
      have hroom := hfilling.room
      rw [hfilling.capacity, hcontent] at hroom
      exact absurd hle (not_le.2 hroom)

theorem exists_run_spills (path : Mime → PathBuf) {field : Field} {j : Nat}
    (hj : j < (opened allowed body.fields).length) (hfield : body.fields[j]? = some field)
    (hspills : field.Spills) :
    ∃ answers flows machine file, Run Rounds (.start body allowed path answers) flows machine ∧
      machine.2.files.length = j + 1 ∧ machine.2.files[j]? = some file ∧ file.received ≠ [] := by
  obtain ⟨flows, machine, hrun, -, hlength, file, hfile, hreceived⟩ :=
    (Undisturbed.start body allowed path).exists_run
      (fun machine => machine.2.files.length = j + 1 ∧
        ∃ file, machine.2.files[j]? = some file ∧ file.received ≠ []) (j + 1)
      (fun machine hmachine hle hnot => by
        rcases hle.lt_or_eq with hlt | hlength
        · refine ⟨fun hstate => hmachine.goesOn hstate (by omega), ?_⟩
          rcases machine.1.creating_cases with ⟨-, -, hcreating⟩ | hcreating <;> omega
        · have hfile := List.getElem?_eq_getElem (show j < machine.2.files.length by omega)
          have hempty : machine.2.files[j].received = [] := by
            by_contra hreceived
            exact hnot ⟨hlength, _, hfile, hreceived⟩
          obtain ⟨hgoes, hcreating⟩ :=
            hmachine.goesOn_of_spills hfield hspills hlength hfile hempty
          exact ⟨hgoes, by omega⟩)
      (Nat.zero_le _)
  exact ⟨_, flows, machine, file, hrun, hlength, hfile, hreceived⟩

end Reaching

/-! ## When the files have what was sent -/

/-- At any moment of an upload, in a poll or between two of them, the files of the fields
that were told have what these were sent with, and no file has anything of another field.
Paths with one `inode` lead to one file.  No poll panics. -/
def StoresWhatIsSent (body : Multipart) (allowed : List MimeAllowed) (path : Mime → PathBuf)
    (inode : PathBuf → Nat) : Prop :=
  ∀ answers polls machine flows machine',
    Run Polls (.start body allowed path answers) polls machine →
      Run Rounds machine flows machine' →
        AllStored body path (polls.filterMap resultOf ++ flows.filterMap Flow.result)
            (machine'.2.files.inPlace inode) ∧
          AllFed body path (machine'.2.files.inPlace inode) ∧
          ∃ polled machine'', Polls machine' polled machine''

section Sharing

variable {body : Multipart} {allowed : List MimeAllowed} {path : Mime → PathBuf}
  {inode : PathBuf → Nat} {field later : Field} {place place' : PathBuf} {i j : Nat}

theorem StoresWhatIsSent.rounds {answers : List Answer} {machine : Machine} {flows : List Flow}
    (hstores : StoresWhatIsSent body allowed path inode)
    (hrun : Run Rounds (.start body allowed path answers) flows machine) :
    AllStored body path (flows.filterMap Flow.result) (machine.2.files.inPlace inode) ∧
      AllFed body path (machine.2.files.inPlace inode) := by
  obtain ⟨hstored, hfed, -⟩ := hstores answers [] _ flows machine (.nil _) hrun
  exact ⟨hstored, hfed⟩

theorem exists_handle {answers : List Answer} {machine : Machine} {flows : List Flow}
    (hrun : Run Rounds (.start body allowed path answers) flows machine)
    (hplaced : (body.placed allowed path)[i]? = some (field, place))
    (hlt : i < machine.2.files.length) :
    ∃ handle, machine.2.files[i]? = some handle ∧ handle.label = place := by
  have hfed := ((Progress.start body allowed path answers).rounds hrun).allFed
  have hhandle := List.getElem?_eq_getElem hlt
  exact ⟨_, hhandle, hfed.label_eq hhandle hplaced⟩

/-- Where a field shares its file with an earlier one, its `File::create` empties it. -/
theorem exists_run_empties (hplaced : (body.placed allowed path)[i]? = some (field, place))
    (hplaced' : (body.placed allowed path)[j]? = some (later, place')) (hlt : i < j)
    (hsame : inode place = inode place') :
    ∃ answers flows machine, Run Rounds (.start body allowed path answers) flows machine ∧
      (flows.filterMap Flow.result).length = j ∧
      ∃ found, (machine.2.files.inPlace inode)[i]? = some found ∧ found.received = [] := by
  have hj := (List.getElem?_eq_some_iff.1 hplaced').1
  rw [length_placed] at hj
  obtain ⟨answers, flows, machine, hrun, hmachine, label, hstate, hlength⟩ :=
    exists_run_creates path hj
  obtain ⟨machine', hround, hfiles⟩ := hmachine.exists_created hstate
  have hrun' := hrun.concat hround
  have hresults : (flows.filterMap Flow.result).length = j := by
    have hphase := ((Progress.start body allowed path answers).rounds hrun).phase
    rw [List.nil_append] at hphase
    rw [← hlength, hphase.length_of_create hstate]
  have hlength' : machine'.2.files.length = j + 1 := by
    rw [hfiles, Sinks.length_create, hlength]
  obtain ⟨handle, hhandle, hlabel⟩ := exists_handle hrun' hplaced (by omega)
  obtain ⟨newest, hnewest, hlabel'⟩ := exists_handle hrun' hplaced' (by omega)
  -- the newest handle is the one that the call has just given
  have hcreated : (machine.2.files.create label)[machine.2.files.length]? =
      some { label, received := [], flushed := 0 } := Sinks.getElem?_create_self label
  rw [hlength, ← hfiles, hnewest, Option.some.injEq] at hcreated
  have hfound : machine'.2.files.lastAt inode (inode handle.label) =
      some { label, received := [], flushed := 0 } := by
    rw [hlabel, hsame, ← hlabel', hcreated, hfiles]
    exact Sinks.lastAt_create_self inode machine.2.files label
  exact ⟨answers, flows ++ [.again], machine', hrun', by simp [hresults, Flow.result], _,
    Sinks.getElem?_inPlace inode hhandle hfound, rfl⟩

theorem StoresWhatIsSent.content_eq_nil (hstores : StoresWhatIsSent body allowed path inode)
    (hplaced : (body.placed allowed path)[i]? = some (field, place))
    (hplaced' : (body.placed allowed path)[j]? = some (later, place')) (hlt : i < j)
    (hsame : inode place = inode place') : field.content = [] := by
  obtain ⟨answers, flows, machine, hrun, hresults, found, hfound, hempty⟩ :=
    exists_run_empties hplaced hplaced' hlt hsame
  obtain ⟨-, -, hfield, -⟩ := exists_of_placed hplaced
  obtain ⟨file, hfile, -, hreceived, -⟩ :=
    (hstores.rounds hrun).1.exists_stored hfield (hresults.symm ▸ hlt)
  rw [hfound, Option.some.injEq] at hfile
  subst hfile
  exact hreceived.symm.trans hempty

/-- What is sent of the later field is found in the file of the empty one. -/
theorem StoresWhatIsSent.not_spills (hstores : StoresWhatIsSent body allowed path inode)
    (hplaced : (body.placed allowed path)[i]? = some (field, place))
    (hplaced' : (body.placed allowed path)[j]? = some (later, place')) (hlt : i < j)
    (hsame : inode place = inode place') : ¬later.Spills := by
  intro hspills
  have hj := (List.getElem?_eq_some_iff.1 hplaced').1
  rw [length_placed] at hj
  obtain ⟨-, -, hfield, -⟩ := exists_of_placed hplaced
  obtain ⟨-, -, hlater, -⟩ := exists_of_placed hplaced'
  obtain ⟨answers, flows, machine, last, hrun, hlength, hlast, hreceived⟩ :=
    exists_run_spills path hj hlater hspills
  obtain ⟨handle, hhandle, hlabel⟩ := exists_handle hrun hplaced (by omega)
  obtain ⟨newest, hnewest, hlabel'⟩ := exists_handle hrun hplaced' (by omega)
  obtain rfl : last = newest := Option.some.inj (hlast.symm.trans hnewest)
  -- it is opened last of all, and so on its place
  obtain ⟨k, found, hle, hfound, -, hlastAt⟩ := Sinks.exists_lastAt inode hlast
  have hk := (List.getElem?_eq_some_iff.1 hfound).1
  obtain rfl : k = j := by omega
  obtain rfl : last = found := Option.some.inj (hlast.symm.trans hfound)
  rw [hlabel', ← hsame, ← hlabel] at hlastAt
  have hpre := ((hstores.rounds hrun).2.feeds hfield
    (Sinks.getElem?_inPlace inode hhandle hlastAt)).2
  rw [hstores.content_eq_nil hplaced hplaced' hlt hsame, List.prefix_nil] at hpre
  exact hreceived hpre

end Sharing

/-- The files have exactly what was sent if and only if no two fields that are opened share
a file, or the first of the two is empty and the other has nothing to send either. -/
theorem uploads_stored_iff (body : Multipart) (allowed : List MimeAllowed)
    (path : Mime → PathBuf) (inode : PathBuf → Nat) :
    StoresWhatIsSent body allowed path inode ↔
      (body.placed allowed path).Pairwise fun field later =>
        inode field.2 = inode later.2 → field.1.content = [] ∧ ¬later.1.Spills := by
  constructor
  · intro hstores
    refine List.pairwise_iff_getElem.2 fun i j hi hj hlt hsame => ?_
    have hplaced := List.getElem?_eq_getElem hi
    have hplaced' := List.getElem?_eq_getElem hj
    exact ⟨hstores.content_eq_nil hplaced hplaced' hlt hsame,
      hstores.not_spills hplaced hplaced' hlt hsame⟩
  · intro happart answers polls machine flows machine' hpolls hrounds
    obtain ⟨flows', hrun, hresults⟩ := exists_rounds_of_run hpolls
    have hrun' := run_append_iff.2 ⟨machine, hrun, hrounds⟩
    have hprogress := (Progress.start body allowed path answers).rounds hrun'
    rw [List.nil_append, List.filterMap_append, hresults] at hprogress
    rw [hprogress.allFed.inPlace_eq_of_apart hprogress.allHeld (length_files_le hrun') happart]
    obtain ⟨polled, machine'', hpoll, -⟩ := hprogress.pollNext
    exact ⟨hprogress.stored, hprogress.allFed, polled, machine'', hpoll⟩

def twoFields : Multipart :=
  { fields := [[1], [2]].map fun chunk => {
      fileName := some ['f']
      contentType := some { type_ := ['t'], subtype := ['s'], rest := [] }
      chunks := [chunk]
      failure := none }
    failure := none }

/-- Both are told as stored, and the byte of the second is found in the file of both. -/
theorem twoFields_not_stored :
    ∃ (answers : List Answer) (polls : List Polled) (machine : Machine),
      Run Polls (.start twoFields [.any] (fun _ => ['d']) answers) polls machine ∧
        polls.filterMap resultOf = .replicate 2 { size := 1, fileName := ['f'] } ∧
        ∀ inode : PathBuf → Nat,
          (machine.2.files.inPlace inode).map Sink.received = [[2], [2]] ∧
            ¬AllStored twoFields (fun _ => ['d']) (polls.filterMap resultOf)
              (machine.2.files.inPlace inode) ∧
            ¬AllFed twoFields (fun _ => ['d']) (machine.2.files.inPlace inode) := by
  let file (byte : UInt8) : Sink Str UInt8 :=
    { label := ['d', '/', 'f'], received := [byte], flushed := 1 }
  have hrun : Run Polls (.start twoFields [.any] (fun _ => ['d']) (.replicate 14 .done))
      [.ready (some (.ok { size := 1, fileName := ['f'] })),
        .ready (some (.ok { size := 1, fileName := ['f'] }))] _ :=
    .cons rfl (.cons rfl (.nil _))
  refine ⟨_, _, _, hrun, rfl, fun inode => ?_⟩
  have hfound : Sinks.inPlace inode [file 1, file 2] = [file 2, file 2] := by
    simp [Sinks.inPlace, Sinks.lastAt, file]
  change (Sinks.inPlace inode [file 1, file 2]).map Sink.received = [[2], [2]] ∧
    ¬AllStored twoFields _ _ (Sinks.inPlace inode [file 1, file 2]) ∧
    ¬AllFed twoFields _ (Sinks.inPlace inode [file 1, file 2])
  rw [hfound]
  refine ⟨rfl, fun hstored => ?_, fun hfed => ?_⟩
  · obtain ⟨field, file', hfield, hfile', -, hreceived, -⟩ := hstored 0 _ rfl
    obtain rfl := Option.some.inj hfield
    obtain rfl := Option.some.inj hfile'
    exact absurd hreceived (by decide)
  · obtain ⟨field, hfield, -, hpre⟩ := hfed 0 _ rfl
    obtain rfl := Option.some.inj hfield
    exact absurd hpre (by decide)

end WsHyper.UploadFiles
