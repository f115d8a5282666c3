import WsHyper.UploadFiles.ByteStream
import WsHyper.UploadFiles.Upload

/-!
# What an upload stores

The `i`-th file that is created is for the `i`-th field.  While it is written, what the
file has received, what its buffer holds and what is still to be read or written make up
the content of the field.  So at each success that a poll tells, all of it was sent through
the handle of the field, and nothing else ever is.
-/

namespace WsHyper.UploadFiles

open WsHyper.Lib

/-- The file was made where the headers of the field lead. -/
def Field.Owns (field : Field) (path : Mime → PathBuf) (metaFile : MetaFile)
    (file : Sink Str UInt8) : Prop :=
  field.fileName = some metaFile.fileName ∧ field.contentType = some metaFile.mime ∧
    file.label = (path metaFile.mime).push metaFile.fileName

/-- The file holds the whole field and was flushed, and the result says so. -/
def Field.Stored (field : Field) (path : Mime → PathBuf) (file : Sink Str UInt8)
    (result : UploadResult) : Prop :=
  (∃ metaFile, field.Owns path metaFile file ∧ result.fileName = metaFile.fileName) ∧
    file.received = field.content ∧ file.flushed = file.received.length ∧
    result.size = field.content.length

/-- The file has only what the field was sent with, as far as it goes. -/
def Field.Feeds (field : Field) (path : Mime → PathBuf) (file : Sink Str UInt8) : Prop :=
  (∃ metaFile, field.Owns path metaFile file) ∧ file.received <+: field.content

/-- Nothing counts as flushed that was not sent, and of a field that is cut off before the
buffer is full nothing is sent. -/
structure Field.Holds (field : Field) (file : Sink Str UInt8) : Prop where
  flushed : file.flushed ≤ file.received.length
  unsent : field.failure ≠ none → field.content.length < Buffer.defaultBuffer →
    file.received = []

/-- The results so far are those of the first fields, in order. -/
def AllStored (body : Multipart) (path : Mime → PathBuf) (results : List UploadResult)
    (files : Files) : Prop :=
  ∀ (i : Nat) result, results[i]? = some result → ∃ (field : Field) (file : Sink Str UInt8),
    body.fields[i]? = some field ∧ files[i]? = some file ∧ field.Stored path file result

/-- No file has anything of another field. -/
def AllFed (body : Multipart) (path : Mime → PathBuf) (files : Files) : Prop :=
  ∀ (i : Nat) file, files[i]? = some file → ∃ field : Field, body.fields[i]? = some field ∧
    field.Feeds path file

def AllHeld (body : Multipart) (files : Files) : Prop :=
  ∀ (i : Nat) field file, body.fields[i]? = some field → files[i]? = some file →
    field.Holds file

/-! ## The states between two polls -/

/-- The file of the `k`-th field is open, and `rest` is still to be written. -/
structure Filling (body : Multipart) (k : Nat) (rest : Bytes) (upload : Upload)
    (files : Files) (field : Field) (metaFile : MetaFile) (buffer : Buffer)
    (file : Sink Str UInt8) : Prop where
  fields : upload.stream.multipart.fields = body.fields.drop (k + 1)
  length : files.length = k + 1
  field_eq : body.fields[k]? = some field
  metaFile_eq : upload.metaFile = some metaFile
  buffer_eq : upload.buffer = some buffer
  inner : buffer.inner = k
  file_eq : files[k]? = some file
  owns : field.Owns upload.path metaFile file
  content : file.received ++ buffer.bytes ++ rest = field.content
  written : upload.written = file.received.length + buffer.bytes.length
  capacity : buffer.capacity = Buffer.defaultBuffer
  room : buffer.bytes.length < buffer.capacity
  holds : field.Holds file

/-- There is at most a file of the `k`-th field on top of those before. -/
def FedUpTo (body : Multipart) (k : Nat) (path : Mime → PathBuf) (files : Files) : Prop :=
  files.length = k ∨ files.length = k + 1 ∧ ∃ (field : Field) (file : _),
    body.fields[k]? = some field ∧ files[k]? = some file ∧ field.Feeds path file ∧
      field.Holds file

/-- Where the machine is after `k` fields. -/
inductive Phase (body : Multipart) (k : Nat) (upload : Upload) (files : Files) : Prop
  | between (hstate : upload.state = .reading) (hstream : upload.stream.state = .waitingField)
      (hfields : upload.stream.multipart.fields = body.fields.drop k)
      (hfiles : files.length = k) (hwritten : upload.written = 0)
  | creating (field : Field) (metaFile : MetaFile) (hfield : body.fields[k]? = some field)
      (hname : field.fileName = some metaFile.fileName)
      (hmime : field.contentType = some metaFile.mime)
      (hstate : upload.state = .create ((upload.path metaFile.mime).push metaFile.fileName))
      (hstream : upload.stream.state = .readingField field)
      (hfields : upload.stream.multipart.fields = body.fields.drop (k + 1))
      (hfiles : files.length = k) (hwritten : upload.written = 0)
      (hmetaFile : upload.metaFile = some metaFile)
  | reading (left field : Field) (metaFile : MetaFile) (buffer : Buffer)
      (file : Sink Str UInt8) (hstate : upload.state = .reading)
      (hstream : upload.stream.state = .readingField left) (hleft : left.failure = field.failure)
      (hfilling : Filling body k left.content upload files field metaFile buffer file)
  | writting (buf : Bytes) (left field : Field) (metaFile : MetaFile) (buffer : Buffer)
      (file : Sink Str UInt8) (hstate : upload.state = .writting buf)
      (hstream : upload.stream.state = .readingField left) (hleft : left.failure = field.failure)
      (hfilling : Filling body k (buf ++ left.content) upload files field metaFile buffer file)
  | flushing (field : Field) (metaFile : MetaFile) (buffer : Buffer) (file : Sink Str UInt8)
      (hstate : upload.state = .flush) (hstream : upload.stream.state = .waitingField)
      (hwhole : field.failure = none)
      (hfilling : Filling body k [] upload files field metaFile buffer file)
  | stopped (hstate : upload.state = .done) (hfile : FedUpTo body k upload.path files)

def resultOf : Polled → Option UploadResult
  | .ready (some (.ok result)) => some result
  | _ => none

/-- What a round does to a machine after `k` fields: it comes no further than
the end of the next field, which it tells. -/
inductive Advances (body : Multipart) (k : Nat) (upload : Upload) (files : Files) :
    Flow × Upload × World → Prop
  | goesOn {upload' : Upload} {world' : World} (hpath : upload'.path = upload.path)
      (hsame : ∀ i < k, world'.files[i]? = files[i]?)
      (hphase : Phase body k upload' world'.files) :
      Advances body k upload files (.again, upload', world')
  | pauses {polled : Polled} {upload' : Upload} {world' : World}
      (hresult : resultOf polled = none) (hpath : upload'.path = upload.path)
      (hsame : ∀ i < k, world'.files[i]? = files[i]?)
      (hphase : Phase body k upload' world'.files) :
      Advances body k upload files (.ends polled, upload', world')
  | tells {polled : Polled} {result : UploadResult} {field : Field} {file : Sink Str UInt8}
      {upload' : Upload} {world' : World}
      (hresult : resultOf polled = some result) (hpath : upload'.path = upload.path)
      (hsame : ∀ i < k, world'.files[i]? = files[i]?)
      (hfield : body.fields[k]? = some field) (hfile : world'.files[k]? = some file)
      (hwhole : field.failure = none) (hstored : field.Stored upload.path file result)
      (hphase : Phase body (k + 1) upload' world'.files) :
      Advances body k upload files (.ends polled, upload', world')

section Phases

variable {body : Multipart} {k : Nat} {rest : Bytes} {upload upload' : Upload}
  {world : World} {files files' : Files} {field left : Field} {metaFile : MetaFile}
  {buffer : Buffer} {file : Sink Str UInt8}

theorem Filling.of_same (hfilling : Filling body k rest upload files field metaFile buffer file)
    (hstream : upload'.stream.multipart = upload.stream.multipart)
    (hmetaFile : upload'.metaFile = upload.metaFile) (hbuffer : upload'.buffer = upload.buffer)
    (hpath : upload'.path = upload.path) (hwritten : upload'.written = upload.written) :
    Filling body k rest upload' files field metaFile buffer file where
  fields := by rw [hstream, hfilling.fields]
  length := hfilling.length
  field_eq := hfilling.field_eq
  metaFile_eq := by rw [hmetaFile, hfilling.metaFile_eq]
  buffer_eq := by rw [hbuffer, hfilling.buffer_eq]
  inner := hfilling.inner
  file_eq := hfilling.file_eq
  owns := by
    rw [hpath]
    exact hfilling.owns
  content := hfilling.content
  written := by rw [hwritten, hfilling.written]
  capacity := hfilling.capacity
  room := hfilling.room
  holds := hfilling.holds

/-- A call of the buffer moves bytes of the field on, but neither loses nor adds any. -/
theorem Filling.passes {α : Type} {called : Called α} (added : Bytes)
    (hfilling : Filling body k (added ++ rest) upload files field metaFile buffer file)
    (hpasses : Buffer.Passes buffer files called added)
    (hroom : called.buffer.bytes.length < called.buffer.capacity)
    (hunsent : field.failure ≠ none → field.content.length < Buffer.defaultBuffer →
      called.files = files) :
    ∃ file', Filling body k rest { upload with
        buffer := some called.buffer
        written := upload.written + added.length } called.files field metaFile called.buffer
        file' ∧ ∀ i < k, called.files[i]? = files[i]? := by
  obtain ⟨hinner, hcapacity, sent, hfiles, hbytes⟩ := hpasses
  rw [hfilling.inner] at hinner hfiles
  refine ⟨{ file with received := file.received ++ sent }, {
    fields := hfilling.fields
    length := by rw [hfiles, Sinks.length_receive, hfilling.length]
    field_eq := hfilling.field_eq
    metaFile_eq := hfilling.metaFile_eq
    buffer_eq := rfl
    inner := hinner
    file_eq := by rw [hfiles, Sinks.getElem?_receive_self hfilling.file_eq]
    owns := hfilling.owns
    content := ?_
    written := ?_
    capacity := hcapacity.trans hfilling.capacity
    room := hroom
    holds := ⟨?_, fun hfailure hshort => ?_⟩ }, fun i hi => ?_⟩
  · calc file.received ++ sent ++ called.buffer.bytes ++ rest
        = file.received ++ (sent ++ called.buffer.bytes) ++ rest := by
          simp only [List.append_assoc]
      _ = file.received ++ buffer.bytes ++ (added ++ rest) := by
          simp only [hbytes, List.append_assoc]
      _ = field.content := hfilling.content
  · have hlength := congrArg List.length hbytes
    have hwritten := hfilling.written
    simp only [List.length_append] at hlength ⊢
    omega
  · have hflushed := hfilling.holds.flushed
    simp only [List.length_append]
    omega
  · have hsame : (files.receive k sent)[k]? =
        some { file with received := file.received ++ sent } :=
      Sinks.getElem?_receive_self hfilling.file_eq
    rw [← hfiles, hunsent hfailure hshort, hfilling.file_eq, Option.some.injEq] at hsame
    rw [← congrArg Sink.received hsame]
    exact hfilling.holds.unsent hfailure hshort
  · rw [hfiles, Sinks.getElem?_receive_of_ne (by omega)]

theorem Filling.fedUpTo (hfilling : Filling body k rest upload files field metaFile buffer file) :
    FedUpTo body k upload.path files := by
  refine .inr ⟨hfilling.length, field, file, hfilling.field_eq, hfilling.file_eq,
    ⟨⟨metaFile, hfilling.owns⟩, ?_⟩, hfilling.holds⟩
  rw [← hfilling.content, List.append_assoc]
  exact List.prefix_append _ _

theorem Filling.stopped (hfilling : Filling body k rest upload files field metaFile buffer file)
    (hpath : upload'.path = upload.path) (hstate : upload'.state = .done) :
    Phase body k upload' files := by
  refine .stopped hstate ?_
  rw [hpath]
  exact hfilling.fedUpTo

theorem Phase.fedUpTo (hphase : Phase body k upload files) :
    FedUpTo body k upload.path files := by
  cases hphase with
  | between _ _ _ hfiles _ => exact .inl hfiles
  | creating _ _ _ _ _ _ _ _ hfiles _ _ => exact .inl hfiles
  | reading _ _ _ _ _ _ _ _ hfilling => exact hfilling.fedUpTo
  | writting _ _ _ _ _ _ _ _ _ hfilling => exact hfilling.fedUpTo
  | flushing _ _ _ _ _ _ _ hfilling => exact hfilling.fedUpTo
  | stopped _ hfile => exact hfile

theorem advances_between (hstate : upload.state = .reading)
    (hstream : upload.stream.state = .waitingField)
    (hfields : upload.stream.multipart.fields = body.fields.drop k)
    (hfiles : world.files.length = k) (hwritten : upload.written = 0) :
    Advances body k upload world.files (upload.turnReading world) := by
  unfold Upload.turnReading
  simp only [StreamUpload.pollNext, hstream]
  split_ifs with hwaits
  · exact .pauses rfl rfl (fun i _ => rfl) (.between hstate hstream hfields hfiles hwritten)
  · cases hdrop : upload.stream.multipart.fields with
    | nil =>
        cases hfailure : upload.stream.multipart.failure with
        | none => exact .pauses rfl rfl (fun i _ => rfl) (.stopped rfl (.inl hfiles))
        | some text => exact .pauses rfl rfl (fun i _ => rfl) (.stopped rfl (.inl hfiles))
    | cons field fields =>
        rw [hdrop] at hfields
        have hfield : body.fields[k]? = some field := by
          rw [← List.head?_drop, ← hfields, List.head?_cons]
        have hrest : fields = body.fields.drop (k + 1) := by
          rw [← List.tail_drop, ← hfields, List.tail_cons]
        simp only [StreamUpload.openField]
        cases hname : field.fileName with
        | none => exact .pauses rfl rfl (fun i _ => rfl) (.stopped rfl (.inl hfiles))
        | some name =>
            cases hmime : field.contentType with
            | none => exact .pauses rfl rfl (fun i _ => rfl) (.stopped rfl (.inl hfiles))
            | some mime =>
                simp only
                split_ifs with hallowed
                · exact .goesOn rfl (fun i _ => rfl)
                    (.creating field { fileName := name, mime } hfield hname hmime rfl rfl
                      hrest hfiles hwritten rfl)
                · exact .pauses rfl rfl (fun i _ => rfl) (.stopped rfl (.inl hfiles))

theorem advances_creating (hfield : body.fields[k]? = some field)
    (hname : field.fileName = some metaFile.fileName)
    (hmime : field.contentType = some metaFile.mime)
    (hstate : upload.state = .create ((upload.path metaFile.mime).push metaFile.fileName))
    (hstream : upload.stream.state = .readingField field)
    (hfields : upload.stream.multipart.fields = body.fields.drop (k + 1))
    (hfiles : world.files.length = k) (hwritten : upload.written = 0)
    (hmetaFile : upload.metaFile = some metaFile) :
    Advances body k upload world.files (upload.turnCreate world
      ((upload.path metaFile.mime).push metaFile.fileName)) := by
  have hopened (answers : List Answer) : Advances body k upload world.files (.again,
      { upload with buffer := some (.new world.files.length), state := .reading },
      { world with
        files := world.files.create ((upload.path metaFile.mime).push metaFile.fileName)
        answers }) := by
    refine .goesOn rfl (fun i hi => Sinks.getElem?_create_of_lt (by omega))
      (.reading field field metaFile (.new world.files.length) _ rfl hstream rfl {
        fields := hfields
        length := by rw [Sinks.length_create, hfiles]
        field_eq := hfield
        metaFile_eq := hmetaFile
        buffer_eq := rfl
        inner := hfiles
        file_eq := by
          rw [← hfiles]
          exact Sinks.getElem?_create_self _
        owns := ⟨hname, hmime, rfl⟩
        content := rfl
        written := by simp [hwritten, Buffer.new]
        capacity := rfl
        room := Nat.zero_lt_succ _
        holds := ⟨Nat.le_refl _, fun _ _ => rfl⟩ })
  unfold Upload.turnCreate
  obtain ⟨answer, answers⟩ := Answer.next world.answers
  cases answer with
  | pending =>
      exact .pauses rfl rfl (fun i _ => rfl) (.creating field metaFile hfield hname hmime hstate
        hstream hfields hfiles hwritten hmetaFile)
  | failed e => exact .pauses rfl rfl (fun i _ => rfl) (.stopped rfl (.inl hfiles))
  | done => exact hopened answers
  | accepted n => exact hopened answers

theorem advances_reading (hstate : upload.state = .reading)
    (hstream : upload.stream.state = .readingField left) (hleft : left.failure = field.failure)
    (hfilling : Filling body k left.content upload world.files field metaFile buffer file) :
    Advances body k upload world.files (upload.turnReading world) := by
  unfold Upload.turnReading
  simp only [StreamUpload.pollNext, hstream]
  split_ifs with hwaits
  · exact .pauses rfl rfl (fun i _ => rfl) (.reading left field metaFile buffer file hstate
      hstream hleft (hfilling.of_same rfl rfl rfl rfl rfl))
  · cases hchunks : left.chunks with
    | cons chunk chunks =>
        have hcontent : left.content = chunk ++ ({ left with chunks } : Field).content := by
          rw [Field.content, hchunks, List.flatten_cons, Field.content]
        rw [hcontent] at hfilling
        exact .goesOn rfl (fun i _ => rfl) (.writting chunk _ field metaFile buffer file rfl rfl
          hleft (hfilling.of_same rfl rfl rfl rfl rfl))
    | nil =>
        have hcontent : left.content = [] := by rw [Field.content, hchunks, List.flatten_nil]
        rw [hcontent] at hfilling
        cases hfailure : left.failure with
        | none =>
            exact .goesOn rfl (fun i _ => rfl) (.flushing field metaFile buffer file rfl rfl
              (hleft.symm.trans hfailure) (hfilling.of_same rfl rfl rfl rfl rfl))
        | some text => exact .pauses rfl rfl (fun i _ => rfl) (hfilling.stopped rfl rfl)

theorem advances_writting {buf : Bytes} (hstate : upload.state = .writting buf)
    (hstream : upload.stream.state = .readingField left) (hleft : left.failure = field.failure)
    (hfilling : Filling body k (buf ++ left.content) upload world.files field metaFile buffer
      file) : Advances body k upload world.files (upload.turnWritting world buf) := by
  have hreports := Buffer.pollWrite_reports buf world.answers buffer world.files
  have hroom : (buffer.pollWrite buf world.answers world.files).buffer.bytes.length <
      (buffer.pollWrite buf world.answers world.files).buffer.capacity :=
    Buffer.length_bytes_pollWrite_lt hfilling.room
  have hunsent : field.failure ≠ none → field.content.length < Buffer.defaultBuffer →
      (buffer.pollWrite buf world.answers world.files).files = world.files := by
    intro _ hshort
    refine Buffer.files_pollWrite_of_fits ?_
    have hcontent := congrArg List.length hfilling.content
    simp only [List.length_append] at hcontent
    rw [hfilling.capacity]
    omega
  unfold Upload.turnWritting
  simp only [hfilling.buffer_eq]
  generalize buffer.pollWrite buf world.answers world.files = called at hreports hroom hunsent
  cases hreports with
  | took n hle hresult hpasses =>
      have hlength : (buf.take n).length = n := List.length_take_of_le hle
      rw [← List.take_append_drop n buf, List.append_assoc] at hfilling
      obtain ⟨file', hfilling', hsame⟩ := hfilling.passes (buf.take n) hpasses hroom hunsent
      rw [hlength] at hfilling'
      simp only [hresult]
      split_ifs with hpart
      · exact .goesOn rfl hsame (.writting (buf.drop n) left field metaFile _ file' rfl hstream
          hleft (hfilling'.of_same rfl rfl rfl rfl rfl))
      · rw [List.drop_of_length_le (by omega), List.nil_append] at hfilling'
        exact .goesOn rfl hsame (.reading left field metaFile _ file' rfl hstream hleft
          (hfilling'.of_same rfl rfl rfl rfl rfl))
  | nothing hresult hpasses =>
      obtain ⟨file', hfilling', hsame⟩ := hfilling.passes [] hpasses hroom hunsent
      cases hcalled : called.result with
      | pending =>
          exact .pauses rfl rfl hsame (.writting buf left field metaFile _ file' hstate hstream
            hleft (hfilling'.of_same rfl rfl rfl rfl rfl))
      | ready outcome =>
          cases outcome with
          | ok n => exact absurd hcalled (hresult n)
          | error e => exact .pauses rfl rfl hsame (hfilling'.stopped rfl rfl)

/-- A field is told once all of it has been sent and flushed. -/
theorem advances_flushing (hstate : upload.state = .flush)
    (hstream : upload.stream.state = .waitingField) (hwhole : field.failure = none)
    (hfilling : Filling body k [] upload world.files field metaFile buffer file) :
    Advances body k upload world.files (upload.turnFlush world) := by
  have hflush := Buffer.pollFlush_passes world.answers buffer world.files
  unfold Upload.turnFlush
  simp only [hfilling.buffer_eq]
  generalize buffer.pollFlush world.answers world.files = called at hflush
  rcases hflush with ⟨hready, -, hfiles⟩ | ⟨hresult, hpasses⟩
  · rw [hfilling.inner] at hfiles
    have hcontent := hfilling.content
    rw [List.append_nil] at hcontent
    have hsent : called.files[k]? = some { file with
        received := file.received ++ buffer.bytes
        flushed := (file.received ++ buffer.bytes).length } := by
      rw [hfiles]
      exact Sinks.getElem?_flush_self (Sinks.getElem?_receive_self hfilling.file_eq)
    simp only [hready]
    refine .tells rfl rfl (fun i hi => ?_) hfilling.field_eq hsent hwhole ?_
      (.between rfl hstream hfilling.fields ?_ rfl)
    · simp only [hfiles]
      rw [Sinks.getElem?_flush_of_ne (by omega), Sinks.getElem?_receive_of_ne (by omega)]
    · refine ⟨⟨metaFile, hfilling.owns, by simp [hfilling.metaFile_eq]⟩, hcontent, rfl, ?_⟩
      rw [hfilling.written, ← hcontent, List.length_append]
    · simp only [hfiles, Sinks.length_flush, Sinks.length_receive, hfilling.length]
  · have hroom : called.buffer.bytes.length < called.buffer.capacity := by
      rw [hpasses.capacity]
      exact hpasses.length_le.trans_lt hfilling.room
    obtain ⟨file', hfilling', hsame⟩ :=
      hfilling.passes [] hpasses hroom fun hfailure => absurd hwhole hfailure
    cases hcalled : called.result with
    | pending =>
        exact .pauses rfl rfl hsame (.flushing field metaFile _ file' hstate hstream hwhole
          (hfilling'.of_same rfl rfl rfl rfl rfl))
    | ready outcome =>
        cases outcome with
        | ok _ => exact absurd hcalled hresult
        | error e => exact .pauses rfl rfl hsame (hfilling'.stopped rfl rfl)

theorem Phase.advances (hphase : Phase body k upload world.files) :
    Advances body k upload world.files (upload.turn world) := by
  unfold Upload.turn
  cases hphase with
  | between hstate hstream hfields hfiles hwritten =>
      rw [hstate]
      exact advances_between hstate hstream hfields hfiles hwritten
  | creating field metaFile hfield hname hmime hstate hstream hfields hfiles hwritten hmeta =>
      rw [hstate]
      exact advances_creating hfield hname hmime hstate hstream hfields hfiles hwritten hmeta
  | reading left field metaFile buffer file hstate hstream hleft hfilling =>
      rw [hstate]
      exact advances_reading hstate hstream hleft hfilling
  | writting buf left field metaFile buffer file hstate hstream hleft hfilling =>
      rw [hstate]
      exact advances_writting hstate hstream hleft hfilling
  | flushing field metaFile buffer file hstate hstream hwhole hfilling =>
      rw [hstate]
      exact advances_flushing hstate hstream hwhole hfilling
  | stopped hstate hfile =>
      rw [hstate]
      exact .pauses rfl rfl (fun i _ => rfl) (.stopped hstate hfile)

theorem Advances.after {next : Flow × Upload × World} (hpath : upload'.path = upload.path)
    (hsame : ∀ i < k, files'[i]? = files[i]?) (hlater : Advances body k upload' files' next) :
    Advances body k upload files next := by
  cases hlater with
  | goesOn hpath' hsame' hphase' =>
      exact .goesOn (hpath'.trans hpath) (fun i hi => (hsame' i hi).trans (hsame i hi)) hphase'
  | pauses hresult hpath' hsame' hphase' =>
      exact .pauses hresult (hpath'.trans hpath)
        (fun i hi => (hsame' i hi).trans (hsame i hi)) hphase'
  | tells hresult hpath' hsame' hfield hfile hwhole hstored hphase' =>
      rw [hpath] at hstored
      exact .tells hresult (hpath'.trans hpath)
        (fun i hi => (hsame' i hi).trans (hsame i hi)) hfield hfile hwhole hstored hphase'

theorem Phase.advances_turns {fuel : Nat} (hfuel : upload.rounds world < fuel)
    (hphase : Phase body k upload world.files) :
    Advances body k upload world.files (upload.turns fuel world) := by
  induction fuel generalizing upload world with
  | zero => cases hfuel
  | succ fuel ih =>
      have hadvances := hphase.advances
      rcases Upload.turns_succ fuel upload world with
        ⟨upload', world', hagain, hturns⟩ | ⟨-, hturns⟩
      · rw [hturns]
        have hlt := Upload.rounds_turn_lt hagain
        rw [hagain] at hadvances
        cases hadvances with
        | goesOn hpath hsame hphase' => exact (ih (by omega) hphase').after hpath hsame
      · rw [hturns]
        exact hadvances

theorem Phase.advances_pollNext (hphase : Phase body k upload world.files) :
    ∃ polled machine', upload.pollNext world = (.ends polled, machine') ∧
      Advances body k upload world.files (.ends polled, machine') := by
  have hadvances : Advances body k upload world.files (upload.pollNext world) :=
    hphase.advances_turns (Nat.lt_succ_self _)
  have hends := Upload.pollNext_ne_again upload world
  generalize upload.pollNext world = next at hadvances hends
  cases hadvances with
  | goesOn _ _ _ => exact absurd rfl hends
  | pauses hresult hpath hsame hphase' => exact ⟨_, _, rfl, .pauses hresult hpath hsame hphase'⟩
  | tells hresult hpath hsame hfield hfile hwhole hstored hphase' =>
      exact ⟨_, _, rfl, .tells hresult hpath hsame hfield hfile hwhole hstored hphase'⟩

end Phases

/-! ## Every run of polls -/

abbrev Machine := Upload × World

/-- A poll of the machine, by what it gives. -/
def Polls (machine : Machine) (polled : Polled) (machine' : Machine) : Prop :=
  machine.1.pollNext machine.2 = (.ends polled, machine')

def Machine.start (body : Multipart) (allowed : List MimeAllowed) (path : Mime → PathBuf)
    (answers : List Answer) : Machine :=
  (.new (.new body allowed) path, { files := [], creations := [], answers })

/-- The machine once it has told `results`. -/
structure Progress (body : Multipart) (path : Mime → PathBuf) (results : List UploadResult)
    (machine : Machine) : Prop where
  path_eq : machine.1.path = path
  stored : AllStored body path results machine.2.files
  /-- The fields that were told of were read to their ends. -/
  whole : ∀ i < results.length, ∀ field, body.fields[i]? = some field → field.failure = none
  phase : Phase body results.length machine.1 machine.2.files

section Runs

variable {body : Multipart} {path : Mime → PathBuf} {results : List UploadResult}
  {files files' : Files} {machine machine' : Machine} {polled : Polled}

theorem AllStored.exists_stored {field : Field} {i : Nat}
    (hstored : AllStored body path results files) (hfield : body.fields[i]? = some field)
    (hi : i < results.length) :
    ∃ file, files[i]? = some file ∧ field.Stored path file results[i] := by
  obtain ⟨field', file, hfield', hfile, hholds⟩ :=
    hstored i results[i] (List.getElem?_eq_getElem hi)
  rw [hfield, Option.some.injEq] at hfield'
  subst hfield'
  exact ⟨file, hfile, hholds⟩

theorem AllStored.of_same (hstored : AllStored body path results files)
    (hsame : ∀ i < results.length, files'[i]? = files[i]?) :
    AllStored body path results files' := by
  intro i result hresult
  obtain ⟨hlt, -⟩ := List.getElem?_eq_some_iff.1 hresult
  rw [hsame i hlt]
  exact hstored i result hresult

theorem AllStored.concat {result : UploadResult} {field : Field} {file : Sink Str UInt8}
    (hstored : AllStored body path results files)
    (hfield : body.fields[results.length]? = some field)
    (hfile : files[results.length]? = some file) (hnew : field.Stored path file result) :
    AllStored body path (results ++ [result]) files := by
  intro i result' hresult
  rcases lt_trichotomy i results.length with hlt | rfl | hgt
  · rw [List.getElem?_append_left hlt] at hresult
    exact hstored i result' hresult
  · rw [List.getElem?_concat_length, Option.some.injEq] at hresult
    subst hresult
    exact ⟨field, file, hfield, hfile, hnew⟩
  · rw [List.getElem?_eq_none (by simp; omega)] at hresult
    cases hresult

theorem Progress.of_advances (hprogress : Progress body path results machine)
    (hadvances : Advances body results.length machine.1 machine.2.files
      (.ends polled, machine')) :
    Progress body path (results ++ (resultOf polled).toList) machine' := by
  obtain ⟨hpath, hstored, hwhole, hphase⟩ := hprogress
  cases hadvances with
  | pauses hresult hpath' hsame hphase' =>
      rw [hresult, Option.toList_none, List.append_nil]
      exact ⟨hpath'.trans hpath, hstored.of_same hsame, hwhole, hphase'⟩
  | tells hresult hpath' hsame hfield hfile hread hnew hphase' =>
      rw [hpath] at hnew
      rw [hresult, Option.toList_some]
      refine ⟨hpath'.trans hpath, (hstored.of_same hsame).concat hfield hfile hnew,
        fun i hi field' hfield' => ?_, ?_⟩
      · rw [List.length_append, List.length_singleton] at hi
        by_cases hlast : i = results.length
        · rw [hlast, hfield, Option.some.injEq] at hfield'
          rw [← hfield', hread]
        · exact hwhole i (by omega) field' hfield'
      · rw [List.length_append, List.length_singleton]
        exact hphase'

theorem Progress.pollNext (hprogress : Progress body path results machine) :
    ∃ polled machine', Polls machine polled machine' ∧
      Progress body path (results ++ (resultOf polled).toList) machine' := by
  obtain ⟨polled, machine', hpolls, hadvances⟩ := hprogress.phase.advances_pollNext
  exact ⟨polled, machine', hpolls, hprogress.of_advances hadvances⟩

theorem Progress.of_polls (hprogress : Progress body path results machine)
    (hpolls : Polls machine polled machine') :
    Progress body path (results ++ (resultOf polled).toList) machine' := by
  obtain ⟨polled', machine'', hpolls', hprogress'⟩ := hprogress.pollNext
  rw [Polls, hpolls, Prod.mk.injEq, Flow.ends.injEq] at hpolls'
  obtain ⟨rfl, rfl⟩ := hpolls'
  exact hprogress'

theorem Progress.run {polls : List Polled} (hprogress : Progress body path results machine)
    (hrun : Run Polls machine polls machine') :
    Progress body path (results ++ polls.filterMap resultOf) machine' := by
  induction hrun generalizing results with
  | nil machine =>
      rw [List.filterMap_nil, List.append_nil]
      exact hprogress
  | @cons machine _ _ polled polls hstep _ ih =>
      have hlater := ih (hprogress.of_polls hstep)
      have hresults : (polled :: polls).filterMap resultOf =
          (resultOf polled).toList ++ polls.filterMap resultOf := by
        rw [List.filterMap_cons]
        cases resultOf polled <;> rfl
      rw [hresults, ← List.append_assoc]
      exact hlater

theorem Progress.start (body : Multipart) (allowed : List MimeAllowed) (path : Mime → PathBuf)
    (answers : List Answer) : Progress body path [] (.start body allowed path answers) where
  path_eq := rfl
  stored := by
    intro i result hresult
    cases hresult
  whole := fun i hi => absurd hi (Nat.not_lt_zero i)
  phase := .between rfl rfl rfl rfl rfl

theorem Progress.allFed (hprogress : Progress body path results machine) :
    AllFed body path machine.2.files := by
  obtain ⟨rfl, hstored, -, hphase⟩ := hprogress
  intro i file hfile
  have hlt := (List.getElem?_eq_some_iff.1 hfile).1
  by_cases hi : i < results.length
  · obtain ⟨field, file', hfield, hfile', ⟨metaFile, howns, -⟩, hreceived, -⟩ :=
      hstored i results[i] (List.getElem?_eq_getElem hi)
    rw [hfile, Option.some.injEq] at hfile'
    subst hfile'
    exact ⟨field, hfield, ⟨metaFile, howns⟩, by rw [hreceived]⟩
  · rcases hphase.fedUpTo with hlength | ⟨hlength, field, file', hfield, hfile', hfeeds, -⟩
    · omega
    · obtain rfl : i = results.length := by omega
      rw [hfile, Option.some.injEq] at hfile'
      subst hfile'
      exact ⟨field, hfield, hfeeds⟩

theorem Progress.allHeld (hprogress : Progress body path results machine) :
    AllHeld body machine.2.files := by
  obtain ⟨-, hstored, hwhole, hphase⟩ := hprogress
  intro i field file hfield hfile
  have hlt := (List.getElem?_eq_some_iff.1 hfile).1
  by_cases hi : i < results.length
  · obtain ⟨file', hfile', -, -, hflushed, -⟩ := hstored.exists_stored hfield hi
    rw [hfile, Option.some.injEq] at hfile'
    subst hfile'
    exact ⟨hflushed.le, fun hfailure => absurd (hwhole i hi field hfield) hfailure⟩
  · rcases hphase.fedUpTo with hlength | ⟨hlength, field', file', hfield', hfile', -, hholds⟩
    · omega
    · obtain rfl : i = results.length := by omega
      rw [hfile, Option.some.injEq] at hfile'
      rw [hfield, Option.some.injEq] at hfield'
      subst hfile' hfield'
      exact hholds

end Runs

def smallBody : Multipart :=
  { fields := [{
      fileName := some ['f']
      contentType := some { type_ := ['t'], subtype := ['s'], rest := [] }
      chunks := [[1, 2], []]
      failure := none }]
    failure := none }

def slowAnswers : List Answer :=
  [.done, .pending, .done, .done, .done, .done, .accepted 1, .pending, .accepted 1, .done]

example : ∃ machine, Run Polls (.start smallBody [.any] (fun _ => ['d']) slowAnswers)
    [.pending, .pending, .ready (some (.ok { size := 2, fileName := ['f'] }))] machine :=
  ⟨_, .cons rfl (.cons rfl (.cons rfl (.nil _)))⟩

end WsHyper.UploadFiles
