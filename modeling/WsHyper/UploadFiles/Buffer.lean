import WsHyper.Lib.Sink
import WsHyper.Lib.Path

/-!
# The write buffer

A `Buffer` collects small writes to a file and passes large ones on.  Each of its
calls polls the file, which answers as it likes: what the file has received and
what the buffer still holds are together what was written into the buffer.
-/

namespace WsHyper.UploadFiles

open WsHyper.Lib

abbrev Bytes := List UInt8

/-- `std::io::ErrorKind`, with the text of the kinds that have no name here. -/
inductive IoError
  | writeZero
  | storageFull
  | unexpectedEof
  | other (text : Str)
  deriving DecidableEq

abbrev Answer := WsHyper.Lib.Answer IoError

/-- What `File::create` gave: a handle for each call, by the path of the call.  Two of them
may lead to one file, which the later call has emptied. -/
abbrev Files := Sinks Str UInt8

structure Buffer where
  /-- The position of the handle that it writes to. -/
  inner : Nat
  bytes : Bytes
  capacity : Nat

structure Called (α : Type) where
  result : Poll (Except IoError α)
  buffer : Buffer
  files : Files
  answers : List Answer

namespace Buffer

def defaultBuffer : Nat := 8 * 1024

def new (writer : Nat) : Buffer := { inner := writer, bytes := [], capacity := defaultBuffer }

def writeFlush : List Answer → Buffer → Files → Called Unit
  | [], buffer, files =>
      if buffer.bytes = [] then { result := .ready (.ok ()), buffer, files, answers := [] }
      else { result := .pending, buffer, files, answers := [] }
  | answer :: answers, buffer, files =>
      if buffer.bytes = [] then
        { result := .ready (.ok ()), buffer, files, answers := answer :: answers }
      else
        match files.pollWrite buffer.inner buffer.bytes answer with
        | (.ready (.ok n), files) =>
            if n = 0 then { result := .ready (.error .unexpectedEof), buffer, files, answers }
            else writeFlush answers { buffer with bytes := buffer.bytes.drop n } files
        | (.ready (.error e), files) => { result := .ready (.error e), buffer, files, answers }
        | (.pending, files) => { result := .pending, buffer, files, answers }

/-- Pass a large slice on to the file, or keep a small one. -/
def writeInner (buf : Bytes) (buffer : Buffer) (files : Files) (answers : List Answer) :
    Called Nat :=
  if buf.length ≥ buffer.capacity then
    match answers with
    | [] => { result := .pending, buffer, files, answers := [] }
    | answer :: answers =>
        let (result, files) := files.pollWrite buffer.inner buf answer
        { result, buffer, files, answers }
  else
    { result := .ready (.ok buf.length)
      buffer := { buffer with bytes := buffer.bytes ++ buf }
      files
      answers }

def pollWrite (buf : Bytes) (answers : List Answer) (buffer : Buffer) (files : Files) :
    Called Nat :=
  if buf.length + buffer.bytes.length ≥ buffer.capacity then
    match writeFlush answers buffer files with
    | { result := .ready (.ok ()), buffer, files, answers } =>
        writeInner buf buffer files answers
    | { result := .ready (.error e), buffer, files, answers } =>
        { result := .ready (.error e), buffer, files, answers }
    | { result := .pending, buffer, files, answers } =>
        { result := .pending, buffer, files, answers }
  else writeInner buf buffer files answers

def flushInner (buffer : Buffer) (files : Files) : List Answer → Called Unit
  | [] => { result := .pending, buffer, files, answers := [] }
  | answer :: answers =>
      let (result, files) := files.pollFlush buffer.inner answer
      { result, buffer, files, answers }

/-- Unlike `writeFlush`, this goes on after a write of nothing. -/
def pollFlush : List Answer → Buffer → Files → Called Unit
  | [], buffer, files => { result := .pending, buffer, files, answers := [] }
  | answer :: answers, buffer, files =>
      if buffer.bytes = [] then flushInner buffer files (answer :: answers)
      else
        match files.pollWrite buffer.inner buffer.bytes answer with
        | (.ready (.ok n), files) =>
            pollFlush answers { buffer with bytes := buffer.bytes.drop n } files
        | (.ready (.error e), files) => { result := .ready (.error e), buffer, files, answers }
        | (.pending, files) => { result := .pending, buffer, files, answers }

/-! ## What the file receives -/

variable {buffer : Buffer} {files : Files} {answers : List Answer}

/-- What a call does to the buffer and its file: the file receives `sent`, and the
buffer holds the rest of what it held and of `added`. -/
structure Passes {α : Type} (buffer : Buffer) (files : Files) (called : Called α)
    (added : Bytes) : Prop where
  inner : called.buffer.inner = buffer.inner
  capacity : called.buffer.capacity = buffer.capacity
  sent : ∃ sent, called.files = files.receive buffer.inner sent ∧
    sent ++ called.buffer.bytes = buffer.bytes ++ added

theorem Passes.of_receive {α : Type} {called : Called α} {rest : Bytes}
    (taken : Bytes) (hbytes : buffer.bytes = taken ++ rest)
    (hbuffer : called.buffer = { buffer with bytes := rest })
    (hfiles : called.files = files.receive buffer.inner taken) :
    Passes buffer files called [] where
  inner := by rw [hbuffer]
  capacity := by rw [hbuffer]
  sent := ⟨taken, hfiles, by rw [hbuffer, List.append_nil, hbytes]⟩

theorem Passes.trans {α β : Type} {first : Called α} {second : Called β}
    {added added' : Bytes} (hfirst : Passes buffer files first added)
    (hsecond : Passes first.buffer first.files second added') :
    Passes buffer files second (added ++ added') where
  inner := hsecond.inner.trans hfirst.inner
  capacity := hsecond.capacity.trans hfirst.capacity
  sent := by
    obtain ⟨sent, hfiles, hbytes⟩ := hfirst.sent
    obtain ⟨sent', hfiles', hbytes'⟩ := hsecond.sent
    refine ⟨sent ++ sent', ?_, ?_⟩
    · rw [hfiles', hfiles, hfirst.inner, Sinks.receive_receive]
    · rw [List.append_assoc, hbytes', ← List.append_assoc, hbytes, List.append_assoc]

theorem Passes.of_unchanged {α : Type} {called : Called α} (hbuffer : called.buffer = buffer)
    (hfiles : called.files = files) : Passes buffer files called [] :=
  .of_receive [] (List.nil_append _).symm hbuffer (by rw [hfiles, Sinks.receive_nil])

theorem Passes.of_advance {α : Type} {called : Called α} (n : Nat)
    (hrest : Passes { buffer with bytes := buffer.bytes.drop n }
      (files.receive buffer.inner (buffer.bytes.take n)) called []) :
    Passes buffer files called [] := by
  obtain ⟨hinner, hcapacity, sent, hfiles, hbytes⟩ := hrest
  refine ⟨hinner, hcapacity, buffer.bytes.take n ++ sent, ?_, ?_⟩
  · rw [hfiles, Sinks.receive_receive]
  · rw [List.append_assoc, hbytes, List.append_nil, List.append_nil, List.take_append_drop]

theorem writeFlush_passes (answers : List Answer) (buffer : Buffer) (files : Files) :
    Passes buffer files (writeFlush answers buffer files) [] := by
  induction answers generalizing buffer files with
  | nil =>
      rw [writeFlush]
      split_ifs <;> exact .of_unchanged rfl rfl
  | cons answer answers ih =>
      rw [writeFlush]
      split_ifs with hempty
      · exact .of_unchanged rfl rfl
      · rcases Sinks.pollWrite_cases files buffer.inner buffer.bytes answer with
          hwrite | ⟨e, hwrite⟩ | ⟨n, -, hwrite⟩
        · rw [hwrite]
          exact .of_unchanged rfl rfl
        · rw [hwrite]
          exact .of_unchanged rfl rfl
        · rw [hwrite]
          by_cases hn : n = 0
          · subst hn
            simp only [if_true, List.take_zero, Sinks.receive_nil]
            exact .of_unchanged rfl rfl
          · simp only [if_neg hn]
            exact .of_advance n (ih _ _)

/-- `write_flush` comes back with success only once the buffer is empty. -/
theorem bytes_writeFlush (answers : List Answer) (buffer : Buffer) (files : Files)
    (hready : (writeFlush answers buffer files).result = .ready (.ok ())) :
    (writeFlush answers buffer files).buffer.bytes = [] := by
  induction answers generalizing buffer files with
  | nil =>
      rw [writeFlush] at hready ⊢
      split_ifs at hready ⊢ with hempty
      exact hempty
  | cons answer answers ih =>
      rw [writeFlush] at hready ⊢
      split_ifs at hready ⊢ with hempty
      · exact hempty
      · rcases Sinks.pollWrite_cases files buffer.inner buffer.bytes answer with
          hwrite | ⟨e, hwrite⟩ | ⟨n, -, hwrite⟩
        · rw [hwrite] at hready
          cases hready
        · rw [hwrite] at hready
          cases hready
        · rw [hwrite] at hready ⊢
          by_cases hn : n = 0
          · simp only [if_pos hn] at hready
            cases hready
          · simp only [if_neg hn] at hready ⊢
            exact ih _ _ hready

/-- A flush that succeeds has sent all of the buffer and flushed the file. -/
theorem pollFlush_passes (answers : List Answer) (buffer : Buffer) (files : Files) :
    ((pollFlush answers buffer files).result = .ready (.ok ()) ∧
        (pollFlush answers buffer files).buffer = { buffer with bytes := [] } ∧
        (pollFlush answers buffer files).files =
          (files.receive buffer.inner buffer.bytes).flush buffer.inner) ∨
      ((pollFlush answers buffer files).result ≠ .ready (.ok ()) ∧
        Passes buffer files (pollFlush answers buffer files) []) := by
  induction answers generalizing buffer files with
  | nil =>
      rw [pollFlush]
      exact .inr ⟨by simp, .of_unchanged rfl rfl⟩
  | cons answer answers ih =>
      rw [pollFlush]
      split_ifs with hempty
      · rw [flushInner]
        rcases Sinks.pollFlush_cases files buffer.inner answer with hflush | ⟨e, hflush⟩ | hflush
        · rw [hflush]
          exact .inr ⟨by simp, .of_unchanged rfl rfl⟩
        · rw [hflush]
          exact .inr ⟨by simp, .of_unchanged rfl rfl⟩
        · rw [hflush, hempty, Sinks.receive_nil]
          refine .inl ⟨rfl, ?_, rfl⟩
          rw [← hempty]
      · rcases Sinks.pollWrite_cases files buffer.inner buffer.bytes answer with
          hwrite | ⟨e, hwrite⟩ | ⟨n, -, hwrite⟩
        · rw [hwrite]
          exact .inr ⟨by simp, .of_unchanged rfl rfl⟩
        · rw [hwrite]
          exact .inr ⟨by simp, .of_unchanged rfl rfl⟩
        · rw [hwrite]
          rcases ih { buffer with bytes := buffer.bytes.drop n }
              (files.receive buffer.inner (buffer.bytes.take n)) with
            ⟨hready, hbuffer, hfiles⟩ | ⟨hready, hpasses⟩
          · refine .inl ⟨hready, hbuffer, ?_⟩
            rw [hfiles, Sinks.receive_receive, List.take_append_drop]
          · exact .inr ⟨hready, .of_advance n hpasses⟩

/-- What a write reports: how much of `buf` it took, or no success. -/
inductive Reports (buf : Bytes) (buffer : Buffer) (files : Files) (called : Called Nat) : Prop
  | took (n : Nat) (hle : n ≤ buf.length) (hresult : called.result = .ready (.ok n))
      (hpasses : Passes buffer files called (buf.take n))
  | nothing (hresult : ∀ n, called.result ≠ .ready (.ok n))
      (hpasses : Passes buffer files called [])

/-- A large slice goes past the buffer, which has to be empty then. -/
theorem writeInner_reports (buf : Bytes) (buffer : Buffer) (files : Files)
    (answers : List Answer) (hlarge : buf.length ≥ buffer.capacity → buffer.bytes = []) :
    Reports buf buffer files (writeInner buf buffer files answers) := by
  unfold writeInner
  split_ifs with hsize
  · cases answers with
    | nil => exact .nothing (by simp) (.of_unchanged rfl rfl)
    | cons answer answers =>
        rcases Sinks.pollWrite_cases files buffer.inner buf answer with
          hwrite | ⟨e, hwrite⟩ | ⟨n, hn, hwrite⟩
        · simp only [hwrite]
          exact .nothing (by simp) (.of_unchanged rfl rfl)
        · simp only [hwrite]
          exact .nothing (by simp) (.of_unchanged rfl rfl)
        · simp only [hwrite]
          refine .took n hn rfl ⟨rfl, rfl, buf.take n, rfl, ?_⟩
          rw [hlarge hsize, List.append_nil, List.nil_append]
  · refine .took buf.length le_rfl rfl ⟨rfl, rfl, [], Sinks.receive_nil.symm, ?_⟩
    rw [List.nil_append, List.take_length]

/-- What `poll_write` reports has gone to the file or to the buffer. -/
theorem pollWrite_reports (buf : Bytes) (answers : List Answer) (buffer : Buffer)
    (files : Files) : Reports buf buffer files (pollWrite buf answers buffer files) := by
  rw [pollWrite]
  split_ifs with hfull
  · have hflush := writeFlush_passes answers buffer files
    have hempty := bytes_writeFlush answers buffer files
    cases hcalled : writeFlush answers buffer files with
    | mk result buffer' files' answers' =>
        rw [hcalled] at hflush hempty
        cases result with
        | pending => exact .nothing (by simp) ⟨hflush.inner, hflush.capacity, hflush.sent⟩
        | ready outcome =>
            cases outcome with
            | error e => exact .nothing (by simp) ⟨hflush.inner, hflush.capacity, hflush.sent⟩
            | ok _ =>
                -- the rest is written from the buffer that `write_flush` left
                cases writeInner_reports buf buffer' files' answers' fun _ => hempty rfl with
                | took n hle hresult hpasses => exact .took n hle hresult (hflush.trans hpasses)
                | nothing hresult hpasses => exact .nothing hresult (hflush.trans hpasses)
  · exact writeInner_reports buf buffer files answers fun hsize => absurd hsize (by omega)

/-! ## The answers that are left -/

theorem length_answers_writeFlush_le (answers : List Answer) (buffer : Buffer) (files : Files) :
    (writeFlush answers buffer files).answers.length ≤ answers.length := by
  induction answers generalizing buffer files with
  | nil =>
      rw [writeFlush]
      split_ifs <;> exact le_rfl
  | cons answer answers ih =>
      rw [writeFlush]
      split_ifs with hempty
      · exact le_rfl
      · rcases Sinks.pollWrite_cases files buffer.inner buffer.bytes answer with
          hwrite | ⟨e, hwrite⟩ | ⟨n, -, hwrite⟩
        · simp [hwrite]
        · simp [hwrite]
        · rw [hwrite]
          by_cases hn : n = 0
          · simp [hn]
          · simp only [if_neg hn]
            exact (ih _ _).trans (Nat.le_succ _)

/-- What a write leaves of the answers; a write in part takes at least one. -/
def Spends (buf : Bytes) (answers : List Answer) (called : Called Nat) : Prop :=
  called.answers.length ≤ answers.length ∧
    ∀ n < buf.length, called.result = .ready (.ok n) → called.answers.length < answers.length

theorem writeInner_spends (buf : Bytes) (buffer : Buffer) (files : Files)
    (answers : List Answer) : Spends buf answers (writeInner buf buffer files answers) := by
  unfold writeInner
  split_ifs with hsize
  · cases answers with
    | nil => exact ⟨le_rfl, by simp⟩
    | cons answer answers => exact ⟨by simp, by simp⟩
  · refine ⟨le_rfl, fun n hn hresult => ?_⟩
    simp only [Poll.ready.injEq, Except.ok.injEq] at hresult
    omega

theorem pollWrite_spends (buf : Bytes) (answers : List Answer) (buffer : Buffer)
    (files : Files) : Spends buf answers (pollWrite buf answers buffer files) := by
  rw [pollWrite]
  split_ifs with hfull
  · have hle := length_answers_writeFlush_le answers buffer files
    cases hcalled : writeFlush answers buffer files with
    | mk result buffer' files' answers' =>
        rw [hcalled] at hle
        cases result with
        | pending => exact ⟨hle, by simp⟩
        | ready outcome =>
            cases outcome with
            | error e => exact ⟨hle, by simp⟩
            | ok _ =>
                have hinner := writeInner_spends buf buffer' files' answers'
                exact ⟨hinner.1.trans hle, fun n hn hresult =>
                  (hinner.2 n hn hresult).trans_le hle⟩
  · exact writeInner_spends buf buffer files answers

/-! ## When the file takes all it is given -/

theorem writeFlush_of_empty (hempty : buffer.bytes = []) :
    writeFlush answers buffer files = { result := .ready (.ok ()), buffer, files, answers } := by
  cases answers <;> rw [writeFlush, if_pos hempty]

theorem writeFlush_done (n : Nat) (buffer : Buffer) (files : Files) : ∃ m, n ≤ m ∧
    (writeFlush (.replicate (n + 1) .done) buffer files).result = .ready (.ok ()) ∧
    (writeFlush (.replicate (n + 1) .done) buffer files).answers = .replicate m .done := by
  by_cases hempty : buffer.bytes = []
  · rw [writeFlush_of_empty hempty]
    exact ⟨n + 1, Nat.le_succ n, rfl, rfl⟩
  · have hlength : buffer.bytes.length ≠ 0 := by simpa using hempty
    rw [List.replicate_succ, writeFlush, if_neg hempty]
    simp only [Sinks.pollWrite, if_neg hlength, List.drop_length]
    rw [writeFlush_of_empty rfl]
    exact ⟨n, le_rfl, rfl, rfl⟩

theorem writeInner_done (n : Nat) (buf : Bytes) (buffer : Buffer) (files : Files) : ∃ m, n ≤ m ∧
    (writeInner buf buffer files (.replicate (n + 1) .done)).result = .ready (.ok buf.length) ∧
    (writeInner buf buffer files (.replicate (n + 1) .done)).answers = .replicate m .done := by
  unfold writeInner
  split_ifs with hsize
  · exact ⟨n, le_rfl, rfl, rfl⟩
  · exact ⟨n + 1, Nat.le_succ n, rfl, rfl⟩

theorem pollWrite_done (n : Nat) (buf : Bytes) (buffer : Buffer) (files : Files) : ∃ m, n ≤ m ∧
    (pollWrite buf (.replicate (n + 2) .done) buffer files).result = .ready (.ok buf.length) ∧
    (pollWrite buf (.replicate (n + 2) .done) buffer files).answers = .replicate m .done := by
  rw [pollWrite]
  split_ifs with hfull
  · obtain ⟨m, hm, hready, hanswers⟩ := writeFlush_done (n + 1) buffer files
    generalize writeFlush _ buffer files = called at hready hanswers
    obtain ⟨result, buffer', files', answers'⟩ := called
    simp only at hready hanswers
    subst hready hanswers
    obtain ⟨k, rfl⟩ := Nat.exists_eq_add_of_le hm
    obtain ⟨m', hm', hresult, hanswers⟩ := writeInner_done (n + k) buf buffer' files'
    rw [show n + 1 + k = n + k + 1 by omega]
    exact ⟨m', by omega, hresult, hanswers⟩
  · obtain ⟨m, hm, hresult, hanswers⟩ := writeInner_done (n + 1) buf buffer files
    exact ⟨m, by omega, hresult, hanswers⟩

theorem pollFlush_done (n : Nat) (buffer : Buffer) (files : Files) : ∃ m, n ≤ m ∧
    (pollFlush (.replicate (n + 2) .done) buffer files).result = .ready (.ok ()) ∧
    (pollFlush (.replicate (n + 2) .done) buffer files).answers = .replicate m .done := by
  rw [List.replicate_succ, pollFlush]
  split_ifs with hempty
  · exact ⟨n + 1, Nat.le_succ n, rfl, rfl⟩
  · simp only [Sinks.pollWrite, List.drop_length]
    rw [List.replicate_succ, pollFlush, if_pos rfl]
    exact ⟨n, le_rfl, rfl, rfl⟩

end Buffer

end WsHyper.UploadFiles
