import WsHyper.Lib.Run
import WsHyper.UploadFiles.Buffer

/-!
# The buffer as a byte stream

The calls of a buffer come in any order, and each may be interrupted anywhere: the
file is asked as often as it has answers, and a call without one is pending.  What
the file has received and what the buffer holds is what the writes have reported.
-/

namespace WsHyper.UploadFiles

open WsHyper.Lib

inductive Event
  | write (buf : Bytes) (result : Poll (Except IoError Nat))
  | writeFlush (result : Poll (Except IoError Unit))
  | flush (result : Poll (Except IoError Unit))

/-- The part of the slice that the call reports as written. -/
def Event.reported : Event → Bytes
  | .write buf (.ready (.ok n)) => buf.take n
  | _ => []

def reported (events : List Event) : Bytes := (events.map Event.reported).flatten

abbrev Writer := Buffer × Files

namespace Writer

def create (label : Str) (files : Files) : Writer :=
  (.new files.length, files.create label)

end Writer

def Called.Gives {α : Type} (called : Called α) (result : Poll (Except IoError α))
    (writer : Writer) : Prop :=
  called.result = result ∧ (called.buffer, called.files) = writer

/-- The file answers this call as it likes. -/
def Calls (writer : Writer) (event : Event) (writer' : Writer) : Prop :=
  ∃ answers, match event with
    | .write buf result => (writer.1.pollWrite buf answers writer.2).Gives result writer'
    | .writeFlush result => (Buffer.writeFlush answers writer.1 writer.2).Gives result writer'
    | .flush result => (Buffer.pollFlush answers writer.1 writer.2).Gives result writer'

/-- The `i`-th file and the buffer have what was reported, in this order. -/
structure Faithful (i : Nat) (bytes : Bytes) (writer : Writer) : Prop where
  inner : writer.1.inner = i
  stream : ∃ file, writer.2[i]? = some file ∧ file.received ++ writer.1.bytes = bytes
  room : writer.1.bytes.length < writer.1.capacity

section Calls

variable {i : Nat} {bytes added : Bytes} {buffer : Buffer} {files : Files}
  {writer writer' : Writer} {event : Event} {events : List Event}

theorem Buffer.Passes.length_le {α : Type} {called : Called α}
    (hpasses : Buffer.Passes buffer files called []) :
    called.buffer.bytes.length ≤ buffer.bytes.length := by
  obtain ⟨sent, -, hbytes⟩ := hpasses.sent
  have hlength := congrArg List.length hbytes
  simp only [List.length_append, List.length_nil] at hlength
  omega

theorem Faithful.passes {α : Type} {called : Called α}
    (hfaithful : Faithful i bytes (buffer, files))
    (hpasses : Buffer.Passes buffer files called added)
    (hroom : called.buffer.bytes.length < called.buffer.capacity) :
    Faithful i (bytes ++ added) (called.buffer, called.files) := by
  obtain ⟨rfl, ⟨file, hfile, rfl⟩, -⟩ := hfaithful
  obtain ⟨sent, hfiles, hbytes⟩ := hpasses.sent
  refine ⟨hpasses.inner, ⟨{ file with received := file.received ++ sent }, ?_, ?_⟩, hroom⟩
  · rw [hfiles]
    exact Sinks.getElem?_receive_self hfile
  · rw [List.append_assoc, hbytes, List.append_assoc]

theorem Faithful.keeps {α : Type} {called : Called α} (hfaithful : Faithful i bytes (buffer, files))
    (hpasses : Buffer.Passes buffer files called []) :
    Faithful i bytes (called.buffer, called.files) := by
  have hle := hpasses.length_le
  have hroom := hfaithful.room
  have hcapacity := hpasses.capacity
  rw [← List.append_nil bytes]
  refine hfaithful.passes hpasses ?_
  simp only at hroom
  omega

theorem Buffer.files_pollWrite_of_fits {buf : Bytes} {answers : List Answer}
    (hfits : buf.length + buffer.bytes.length < buffer.capacity) :
    (buffer.pollWrite buf answers files).files = files := by
  have hsmall : ¬buf.length ≥ buffer.capacity := by omega
  rw [pollWrite, if_neg (not_le.2 hfits)]
  unfold writeInner
  rw [if_neg hsmall]

theorem Buffer.length_bytes_writeInner_lt {buf : Bytes} {answers : List Answer}
    (hroom : buffer.bytes.length < buffer.capacity)
    (hfits : buffer.bytes = [] ∨ buf.length + buffer.bytes.length < buffer.capacity) :
    (writeInner buf buffer files answers).buffer.bytes.length <
      (writeInner buf buffer files answers).buffer.capacity := by
  unfold writeInner
  split_ifs with hsize
  · cases answers with
    | nil => exact hroom
    | cons answer answers => exact hroom
  · have hlength : (buffer.bytes ++ buf).length < buffer.capacity := by
      rw [List.length_append]
      rcases hfits with hempty | hfits
      · rw [hempty, List.length_nil]
        omega
      · omega
    exact hlength

/-- The buffer is flushed before it would be full. -/
theorem Buffer.length_bytes_pollWrite_lt {buf : Bytes} {answers : List Answer}
    (hroom : buffer.bytes.length < buffer.capacity) :
    (pollWrite buf answers buffer files).buffer.bytes.length <
      (pollWrite buf answers buffer files).buffer.capacity := by
  rw [pollWrite]
  split_ifs with hfull
  · have hpasses := writeFlush_passes answers buffer files
    have hempty := bytes_writeFlush answers buffer files
    have hle := hpasses.length_le
    have hcapacity := hpasses.capacity
    generalize writeFlush answers buffer files = called at hempty hle hcapacity
    obtain ⟨result, buffer', files', answers'⟩ := called
    simp only at hempty hle hcapacity
    have hroom' : buffer'.bytes.length < buffer'.capacity := by omega
    cases result with
    | pending => exact hroom'
    | ready outcome =>
        cases outcome with
        | error e => exact hroom'
        | ok _ => exact length_bytes_writeInner_lt hroom' (.inl (hempty rfl))
  · exact length_bytes_writeInner_lt hroom (.inr (by omega))

theorem Faithful.pollWrite {buf : Bytes} {answers : List Answer}
    (hfaithful : Faithful i bytes (buffer, files)) :
    Faithful i (bytes ++ (Event.write buf (buffer.pollWrite buf answers files).result).reported)
      ((buffer.pollWrite buf answers files).buffer,
        (buffer.pollWrite buf answers files).files) := by
  have hroom : (buffer.pollWrite buf answers files).buffer.bytes.length <
      (buffer.pollWrite buf answers files).buffer.capacity :=
    Buffer.length_bytes_pollWrite_lt hfaithful.room
  have hreports := Buffer.pollWrite_reports buf answers buffer files
  generalize buffer.pollWrite buf answers files = called at hroom hreports
  cases hreports with
  | took n hle hresult hpasses =>
      rw [hresult]
      exact hfaithful.passes hpasses hroom
  | nothing hresult hpasses =>
      have hnothing : (Event.write buf called.result).reported = [] := by
        unfold Event.reported
        split
        · rename_i heq
          obtain ⟨-, hready⟩ := Event.write.inj heq
          exact absurd hready (hresult _)
        · rfl
      rw [hnothing]
      exact hfaithful.passes hpasses hroom

theorem Faithful.pollFlush {answers : List Answer}
    (hfaithful : Faithful i bytes (buffer, files)) :
    Faithful i bytes
      ((Buffer.pollFlush answers buffer files).buffer,
        (Buffer.pollFlush answers buffer files).files) := by
  rcases Buffer.pollFlush_passes answers buffer files with ⟨-, hbuffer, hfiles⟩ | ⟨-, hpasses⟩
  · obtain ⟨rfl, ⟨file, hfile, rfl⟩, hroom⟩ := hfaithful
    rw [hbuffer, hfiles]
    refine ⟨rfl, ⟨_, Sinks.getElem?_flush_self (Sinks.getElem?_receive_self hfile), ?_⟩, ?_⟩
    · simp only [List.append_nil]
    · exact (Nat.zero_le _).trans_lt hroom
  · exact hfaithful.keeps hpasses

theorem Faithful.calls (hfaithful : Faithful i bytes writer) (hcalls : Calls writer event writer') :
    Faithful i (bytes ++ event.reported) writer' := by
  obtain ⟨buffer, files⟩ := writer
  obtain ⟨answers, hgives⟩ := hcalls
  cases event with
  | write buf result =>
      obtain ⟨rfl, rfl⟩ := hgives
      exact hfaithful.pollWrite
  | writeFlush result =>
      obtain ⟨rfl, rfl⟩ := hgives
      change Faithful i (bytes ++ []) _
      rw [List.append_nil]
      exact hfaithful.keeps (Buffer.writeFlush_passes answers buffer files)
  | flush result =>
      obtain ⟨rfl, rfl⟩ := hgives
      change Faithful i (bytes ++ []) _
      rw [List.append_nil]
      exact hfaithful.pollFlush

theorem Faithful.run (hfaithful : Faithful i bytes writer)
    (hrun : Run Calls writer events writer') :
    Faithful i (bytes ++ reported events) writer' := by
  induction hrun generalizing bytes with
  | nil writer =>
      rw [reported, List.map_nil, List.flatten_nil, List.append_nil]
      exact hfaithful
  | @cons writer _ _ event events hcalls _ ih =>
      have hlater := ih (hfaithful.calls hcalls)
      rw [List.append_assoc] at hlater
      rwa [reported, List.map_cons, List.flatten_cons]

theorem Faithful.create (label : Str) (files : Files) :
    Faithful files.length [] (.create label files) where
  inner := rfl
  stream := ⟨_, Sinks.getElem?_create_self label, rfl⟩
  room := Nat.zero_lt_succ _

theorem bytes_of_flushed (hcalls : Calls writer (.flush (.ready (.ok ()))) writer') :
    writer'.1.bytes = [] := by
  obtain ⟨answers, hresult, rfl⟩ := hcalls
  rcases Buffer.pollFlush_passes answers writer.1 writer.2 with ⟨-, hempty, -⟩ | ⟨hne, -⟩
  · rw [hempty]
  · exact absurd hresult hne

end Calls

/-- However the calls come and however the file answers them, what it has accepted and
what is still in the buffer is what was reported as written; there is room in the
buffer, and a flush that succeeds leaves it empty. -/
theorem byteStream_faithful (label : Str) (files : Files) (events : List Event) (writer : Writer)
    (hrun : Run Calls (.create label files) events writer) :
    (∃ file, writer.2[files.length]? = some file ∧
        file.received ++ writer.1.bytes = reported events) ∧
      writer.1.bytes.length < writer.1.capacity ∧
      ∀ writer', Calls writer (.flush (.ready (.ok ()))) writer' → writer'.1.bytes = [] := by
  have hfaithful := (Faithful.create label files).run hrun
  exact ⟨hfaithful.stream, hfaithful.room, fun _ hcalls => bytes_of_flushed hcalls⟩

/-- A drain that is interrupted, one that fails, and one that succeeds. -/
theorem byteStream_faithful_interrupted :
    ∃ writer, Run Calls (.create ['f'] []) [.write [1, 2, 3] (.ready (.ok 3)),
        .writeFlush .pending, .flush (.ready (.error .storageFull)), .write [4] (.ready (.ok 1)),
        .flush (.ready (.ok ()))] writer ∧
      ∃ file, writer.2[0]? = some file ∧ file.received ++ writer.1.bytes = [1, 2, 3, 4] := by
  have hrun : Run Calls (.create ['f'] []) [.write [1, 2, 3] (.ready (.ok 3)),
      .writeFlush .pending, .flush (.ready (.error .storageFull)), .write [4] (.ready (.ok 1)),
      .flush (.ready (.ok ()))] _ :=
    .cons ⟨[], rfl, rfl⟩ (.cons ⟨[.accepted 1], rfl, rfl⟩
      (.cons ⟨[.accepted 1, .failed .storageFull], rfl, rfl⟩ (.cons ⟨[], rfl, rfl⟩
        (.cons ⟨[.accepted 1, .done, .done], rfl, rfl⟩ (.nil _)))))
  exact ⟨_, hrun, (byteStream_faithful ['f'] [] _ _ hrun).1⟩

end WsHyper.UploadFiles
