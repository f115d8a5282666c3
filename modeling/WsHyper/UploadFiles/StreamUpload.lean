import WsHyper.UploadFiles.Buffer

/-!
# Reading a multipart body

`StreamUpload` reads the fields of a body one after the other.  It tells of each
field that it is new, hands out its chunks and tells of its end.  A field without
a file name, without a type or of a type that is not allowed is refused.
-/

namespace WsHyper.UploadFiles

open WsHyper.Lib

structure Mime where
  type_ : Str
  subtype : Str
  /-- Suffix and parameters, which only a comparison of whole types looks at. -/
  rest : Str
  deriving DecidableEq

inductive MimeAllowed
  | any
  | mime (mime : Mime)
  | mediaType (name : Str)
  | subType (name : Str)

inductive UploadError
  | mimeNotAllowed (file : Str) (mime : Mime)
  | unexpectedEof
  | writeZero
  | fileNameNotFound
  | mimeNotFound (file : Str)
  | multer (text : Str)
  | storageFull
  | io (text : Str)
  | bufferNotDefined
  deriving DecidableEq

/-- `From<std::io::Error>`. -/
def UploadError.ofIo : IoError → UploadError
  | .writeZero => .writeZero
  | .storageFull => .storageFull
  | .unexpectedEof => .unexpectedEof
  | .other text => .io text

structure MetaFile where
  fileName : Str
  mime : Mime
  deriving DecidableEq

/-- A field of the body: its headers and its content, chunk by chunk, which ends
with an error if the body is cut off or malformed there. -/
structure Field where
  fileName : Option Str
  contentType : Option Mime
  chunks : List Bytes
  failure : Option Str

def Field.content (field : Field) : Bytes := field.chunks.flatten

/-- What is left of a body, in fields. -/
structure Multipart where
  fields : List Field
  failure : Option Str

inductive State
  | waitingField
  | readingField (field : Field)
  | done

structure StreamUpload where
  multipart : Multipart
  allowed : List MimeAllowed
  state : State

inductive ResultStream
  | bytes (bytes : Bytes)
  | new (metaFile : MetaFile)
  | eof

def MimeAllowed.matches (contentType : Mime) : MimeAllowed → Bool
  | .any => true
  | .mime wanted => contentType = wanted
  | .mediaType name => contentType.type_ = name
  | .subType name => contentType.subtype = name

namespace StreamUpload

def new (multipart : Multipart) (allowed : List MimeAllowed) : StreamUpload :=
  { multipart, allowed, state := .waitingField }

def openField (stream : StreamUpload) (field : Field) (fields : List Field) :
    Except UploadError ResultStream × StreamUpload :=
  let stream := { stream with multipart := { stream.multipart with fields } }
  match field.fileName with
  | none => (.error .fileNameNotFound, { stream with state := .done })
  | some name =>
      match field.contentType with
      -- the state stays `WaitingField` here
      | none => (.error (.mimeNotFound name), stream)
      | some contentType =>
          if stream.allowed.any (·.matches contentType) then
            (.ok (.new { fileName := name, mime := contentType }),
              { stream with state := .readingField field })
          else (.error (.mimeNotAllowed name contentType), { stream with state := .done })

/-- `poll_next`, where `waits` says that the body has nothing to give yet. -/
def pollNext (stream : StreamUpload) (waits : Bool) :
    Poll (Option (Except UploadError ResultStream)) × StreamUpload :=
  match stream.state with
  | .done => (.ready none, stream)
  | .waitingField =>
      if waits then (.pending, stream)
      else
        match stream.multipart.fields with
        | field :: fields =>
            let (result, stream) := stream.openField field fields
            (.ready (some result), stream)
        | [] =>
            match stream.multipart.failure with
            | none => (.ready none, { stream with state := .done })
            | some text => (.ready (some (.error (.multer text))), { stream with state := .done })
  | .readingField field =>
      if waits then (.pending, stream)
      else
        match field.chunks with
        | chunk :: chunks =>
            (.ready (some (.ok (.bytes chunk))),
              { stream with state := .readingField { field with chunks } })
        | [] =>
            match field.failure with
            | none => (.ready (some (.ok .eof)), { stream with state := .waitingField })
            | some text => (.ready (some (.error (.multer text))), { stream with state := .done })

end StreamUpload

/-- The fields that a stream tells of when it is read to its end: up to the first
that is refused, and up to one that is cut off. -/
def opened (allowed : List MimeAllowed) : List Field → List MetaFile
  | [] => []
  | field :: fields =>
      match field.fileName, field.contentType with
      | some fileName, some mime =>
          if allowed.any (·.matches mime) then
            { fileName, mime } :: if field.failure = none then opened allowed fields else []
          else []
      | _, _ => []

end WsHyper.UploadFiles
