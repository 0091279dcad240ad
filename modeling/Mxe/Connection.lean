import Mxe.Charconv

/-!
# The connection state machine

A `connection` serves one client. `read_request` reads the request buffer and
parses a request header from it; the handler's `handle_header` may turn the
response header into an error; otherwise the request proper is parsed from the
rest of the buffer, `prepare_to_read_offsets` sizes `req.offsets`, and
`read_offsets` reads the offset bytes with `async_read_some` until
`offset_remaining` reaches zero. Then `handle_get_counts` runs,
`respond_with_header` writes the response header and `respond_with_counts` the
counts. Every failure on the way goes to `respond_with_error`.

The request header, the request's fields, the response header and the response
are types the connection's source does not define, and it only calls their
parsers and formatters and the handler: they are the parameters of
`Mxe.Protocol`, and every result below holds for all of them. Each completion
handler is one `Mxe.Event`; `async_read_some` keeps its contract as a guard of
the step: on a buffer of `r > 0` bytes it transfers between `1` and `r` of
them, on an empty buffer it completes at once with none. The state carries
three logs that the code does not keep (the writes started on the socket, the
bytes received on the offsets stream, and the offsets each call of
`handle_get_counts` saw), so that what a run does can be stated.

Two facts come out of the invariant `Mxe.ConnInv` of every run.
`respond_with_error` does not format `resp_hdr`: it *parses* `resp_buf` into
`resp_hdr` and writes `resp_buf` as it stands, and `resp_buf` is written only by
`respond_with_header`, which no error path reaches; so every error response is
the initial contents of `resp_buf`, whatever the error was
(`Mxe.run_errorWrites`). And `get_offsets_n_bytes` returns `8 · n_intervals`
as a `uint32_t`, that is modulo `2 ^ 32`: `handle_get_counts` sees the bytes
the peer sent followed by `8 · n - 8 · n mod 2 ^ 32` bytes still zero
(`Mxe.run_counted`), so from `n_intervals = 2 ^ 29` on it is handed offsets the
client never sent (`Mxe.readOffsets_skipped`).

The same invariant keeps every read inside `req.offsets`:
`prepare_to_read_offsets` sizes the storage for `8 · n_intervals` bytes, of
which `get_offsets_n_bytes()` asks for at most as many, and every completion
that keeps the contract of `async_read_some` moves `offset_byte` up and
`offset_remaining` down by the bytes it transferred (`Mxe.run_offsets_inBounds`).
-/

namespace Mxe

/-! ### What the connection calls -/

/-- The types and functions the connection uses and does not define: the
request and response headers, the request's fields, the response, their
`from_chars` and `to_chars`, and the handler. -/
structure Protocol where
  /-- `request_header`. -/
  RequestHeader : Type
  /-- The fields of a `request` other than `offsets`. -/
  RequestFields : Type
  /-- `response_header`. -/
  ResponseHeader : Type
  /-- `response`. -/
  Response : Type
  /-- `from_chars` of a `request_header` from the request buffer: the header and
  the number of bytes it took, or a parse error. -/
  headerFromChars : List Byte → Option (RequestHeader × ℕ)
  /-- `from_chars` of a `request` from the rest of the request buffer: its
  fields and its `n_intervals`, or a parse error. -/
  requestFromChars : List Byte → Option (RequestFields × U32)
  /-- `handler.handle_header(req_hdr, resp_hdr)`: the new `resp_hdr`. -/
  handleHeader : RequestHeader → ResponseHeader → ResponseHeader
  /-- `handler.handle_get_counts(req_hdr, req, resp_hdr, resp)`, given the bytes
  of `req.offsets`: the new `resp_hdr` and `resp`. -/
  handleGetCounts : RequestHeader → RequestFields → List Byte → ResponseHeader → Response →
    ResponseHeader × Response
  /-- `response_header::error()`. -/
  error : ResponseHeader → Bool
  /-- `response_header::bad_request()`. -/
  badRequest : ResponseHeader
  /-- `to_chars` of a `response_header` into `resp_buf`: the bytes it writes, or
  an error. -/
  responseToChars : ResponseHeader → Option (List Byte)
  /-- `from_chars` of a `response_header` from `resp_buf`. -/
  responseFromChars : List Byte → Option ResponseHeader
  /-- The bytes of `resp.counts`. -/
  countsBytes : Response → List Byte

/-- The asynchronous operation a connection waits on. -/
inductive Phase
  /-- `async_read` of the request buffer, started by `read_request`. -/
  | readingRequest
  /-- `async_read_some` of offset bytes, started by `read_offsets`. -/
  | readingOffsets
  /-- `async_write` of `resp_buf`, started by `respond_with_header`. -/
  | writingHeader
  /-- `async_write` of the counts, started by `respond_with_counts`. -/
  | writingCounts
  /-- `async_write` of `resp_buf`, started by `respond_with_error`. -/
  | writingError
  /-- None: the socket was shut down, or the connection dropped. -/
  | closed
  deriving DecidableEq, Repr

/-- A write started on the socket, by the function that starts it. -/
inductive Write
  /-- `respond_with_header` writes `resp_buf`. -/
  | header (bytes : List Byte)
  /-- `respond_with_counts` writes `resp.counts`. -/
  | counts (bytes : List Byte)
  /-- `respond_with_error` writes `resp_buf`. -/
  | error (bytes : List Byte)
  deriving DecidableEq, Repr

/-- The members of a `connection` that its functions read and write, and three
logs of what it has done. -/
structure Conn (P : Protocol) where
  /-- The pending asynchronous operation. -/
  phase : Phase
  /-- `req_hdr`. -/
  reqHdr : P.RequestHeader
  /-- The fields of `req` other than its offsets. -/
  req : P.RequestFields
  /-- `req.n_intervals`. -/
  nIntervals : U32
  /-- The bytes of `req.offsets`' storage. -/
  offsets : List Byte
  /-- `resp_hdr`. -/
  respHdr : P.ResponseHeader
  /-- `resp`. -/
  resp : P.Response
  /-- `resp_buf`. -/
  respBuf : List Byte
  /-- `offset_byte`. -/
  offsetByte : ℕ
  /-- `offset_remaining`. -/
  offsetRemaining : ℕ
  /-- Log: the writes started on the socket. -/
  writes : List Write
  /-- Log: the bytes the peer sent on the offsets stream. -/
  received : List Byte
  /-- Log: the bytes of `req.offsets` at each call of `handle_get_counts`. -/
  counted : List (List Byte)

/-- The completion of the operation a connection waits on. -/
inductive Event
  /-- `read_request`'s `async_read` completes: an error (`none`) or the bytes
  read. -/
  | requestRead (result : Option (List Byte))
  /-- `read_offsets`' `async_read_some` completes: an error (`none`) or the bytes
  transferred. -/
  | offsetsRead (result : Option (List Byte))
  /-- An `async_write` completes, without an error or with one. -/
  | written (ok : Bool)
  deriving DecidableEq, Repr

/-! ### A protocol to run the connection on -/

/-- A protocol for examples: a request header is malformed when its first byte
is `0`, the request's `n_intervals` is its first byte, the handler accepts
every header, and a response header is the flag `error()` written as one byte. -/
def byteProtocol : Protocol where
  RequestHeader := Unit
  RequestFields := Unit
  ResponseHeader := Bool
  Response := Unit
  headerFromChars buf := if buf.head? = some 0 then none else some ((), 1)
  requestFromChars buf := buf.head?.map fun x => ((), x.val)
  handleHeader _ h := h
  handleGetCounts _ _ _ h r := (h, r)
  error h := h
  badRequest := true
  responseToChars h := some [if h then 1 else 0]
  responseFromChars buf := buf.head?.map fun x => decide (x = 1)
  countsBytes _ := []

/-! ### The offsets buffer -/

/-- `request::get_offsets_n_bytes` of a request with `nOffsets` offsets:
`sizeof(offset_type) * size(offsets)`, returned as a `uint32_t`. -/
def getOffsetsNBytes (nOffsets : ℕ) : ℕ := 8 * nOffsets % 2 ^ 32

/-- `offsets.resize(n)` on the bytes of the storage: the first `8 · n` bytes
kept, zero bytes appended. -/
def resizeOffsets (bytes : List Byte) (n : ℕ) : List Byte :=
  bytes.take (8 * n) ++ List.replicate (8 * n - bytes.length) 0

theorem getOffsetsNBytes_le (n : ℕ) : getOffsetsNBytes n ≤ 8 * n := Nat.mod_le _ _

theorem getOffsetsNBytes_of_lt {n : ℕ} (h : n < 2 ^ 29) : getOffsetsNBytes n = 8 * n :=
  Nat.mod_eq_of_lt (by omega)

@[simp] theorem length_resizeOffsets (bytes : List Byte) (n : ℕ) :
    (resizeOffsets bytes n).length = 8 * n := by
  rw [resizeOffsets, List.length_append, List.length_take, List.length_replicate]
  omega

theorem resizeOffsets_replicate (m n : ℕ) :
    resizeOffsets (List.replicate m 0) n = List.replicate (8 * n) 0 := by
  rw [resizeOffsets, List.take_replicate, List.length_replicate, List.append_replicate_replicate]
  congr 1
  omega

section Model

variable {P : Protocol}

/-! ### The member functions -/

/-- `connection::prepare_to_read_offsets`. -/
def prepareToReadOffsets (c : Conn P) : Conn P :=
  { c with offsets := resizeOffsets c.offsets c.nIntervals.val,
           offsetRemaining := getOffsetsNBytes c.nIntervals.val,
           offsetByte := 0 }

/-- `connection::read_offsets`: `async_read_some` into the `offset_remaining`
bytes at `get_offsets_data() + offset_byte`; `none` (undefined behaviour) when
they do not lie inside `req.offsets`' storage. -/
def readOffsets (c : Conn P) : Option (Conn P) :=
  if c.offsetByte + c.offsetRemaining ≤ c.offsets.length then
    some { c with phase := .readingOffsets }
  else none

/-- `connection::respond_with_error`: parse `resp_buf` into `resp_hdr`, and on
success write `resp_buf`; on a parse error shut the socket down. -/
def respondWithError (c : Conn P) : Conn P :=
  match P.responseFromChars c.respBuf with
  | none => { c with phase := .closed }
  | some h => { c with respHdr := h, phase := .writingError, writes := c.writes ++ [.error c.respBuf] }

/-- `connection::respond_with_header`: format `resp_hdr` into `resp_buf`, and on
success write `resp_buf`; on a format error shut the socket down. -/
def respondWithHeader (c : Conn P) : Conn P :=
  match P.responseToChars c.respHdr with
  | none => { c with phase := .closed }
  | some bytes =>
    { c with respBuf := bytes ++ c.respBuf.drop bytes.length, phase := .writingHeader,
             writes := c.writes ++ [.header (bytes ++ c.respBuf.drop bytes.length)] }

/-- `connection::respond_with_counts`. -/
def respondWithCounts (c : Conn P) : Conn P :=
  { c with phase := .writingCounts, writes := c.writes ++ [.counts (P.countsBytes c.resp)] }

/-- The completion handler of `read_request`. On a read error no operation is
started and the connection is dropped. -/
def readRequestDone (c : Conn P) : Option (List Byte) → Option (Conn P)
  | none => some { c with phase := .closed }
  | some buf =>
    match P.headerFromChars buf with
    | none => some (respondWithError { c with respHdr := P.badRequest })
    | some (hdr, k) =>
      if P.error (P.handleHeader hdr c.respHdr) then
        some (respondWithError { c with reqHdr := hdr, respHdr := P.handleHeader hdr c.respHdr })
      else
        match P.requestFromChars (buf.drop k) with
        | none => some (respondWithError { c with reqHdr := hdr, respHdr := P.badRequest })
        | some (fields, n) =>
          readOffsets (prepareToReadOffsets
            { c with reqHdr := hdr, respHdr := P.handleHeader hdr c.respHdr, req := fields,
                     nIntervals := n })

/-- The state after `async_read_some` transferred `chunk`, before the handler
decides what to do next. -/
def storeChunk (c : Conn P) (chunk : List Byte) : Conn P :=
  { c with offsets := writeAt c.offsets c.offsetByte chunk,
           offsetRemaining := c.offsetRemaining - chunk.length,
           offsetByte := c.offsetByte + chunk.length,
           received := c.received ++ chunk }

/-- `handler.handle_get_counts(req_hdr, req, resp_hdr, resp)`. -/
def handleGetCounts (c : Conn P) : Conn P :=
  { c with respHdr := (P.handleGetCounts c.reqHdr c.req c.offsets c.respHdr c.resp).1,
           resp := (P.handleGetCounts c.reqHdr c.req c.offsets c.respHdr c.resp).2,
           counted := c.counted ++ [c.offsets] }

/-- The completion handler of `read_offsets`; `none` for a transfer that breaks
the contract of `async_read_some`. -/
def readOffsetsDone (c : Conn P) : Option (List Byte) → Option (Conn P)
  | none => some (respondWithError c)
  | some chunk =>
    if chunk.length ≤ c.offsetRemaining ∧ (chunk.length = 0 ↔ c.offsetRemaining = 0) then
      if (storeChunk c chunk).offsetRemaining = 0 then
        some (respondWithHeader (handleGetCounts (storeChunk c chunk)))
      else readOffsets (storeChunk c chunk)
    else none

/-- The completion handlers of the three writes. -/
def writeDone (c : Conn P) (ok : Bool) : Option (Conn P) :=
  match c.phase with
  | .writingHeader => some (if ok then respondWithCounts c else { c with phase := .closed })
  | .writingCounts | .writingError => some { c with phase := .closed }
  | _ => none

/-- One event: `none` when the connection does not wait on that operation, or
when its handler has undefined behaviour. -/
def step (c : Conn P) : Event → Option (Conn P)
  | .requestRead r => if c.phase = .readingRequest then readRequestDone c r else none
  | .offsetsRead r => if c.phase = .readingOffsets then readOffsetsDone c r else none
  | .written ok => writeDone c ok

/-- A run: the events one after the other. -/
def run (c : Conn P) (evs : List Event) : Option (Conn P) := evs.foldlM step c

/-- A connection as `start` leaves it: waiting on the request, `req.offsets`
empty, both counters zero, nothing logged. The other members hold what their
constructors gave them. -/
def Conn.init (reqHdr : P.RequestHeader) (req : P.RequestFields) (respHdr : P.ResponseHeader)
    (resp : P.Response) (respBuf : List Byte) : Conn P :=
  ⟨.readingRequest, reqHdr, req, 0, [], respHdr, resp, respBuf, 0, 0, [], [], []⟩

/-! ### The invariant of every run -/

/-- Whether the connection still waits on the request or on offsets. -/
def Phase.Reading (p : Phase) : Prop := p = .readingRequest ∨ p = .readingOffsets

/-- The invariant of every run from a connection whose `resp_buf` started as
`b`. -/
structure ConnInv (b : List Byte) (c : Conn P) : Prop where
  /-- `offset_byte + offset_remaining = get_offsets_n_bytes()`. -/
  sum : c.offsetByte + c.offsetRemaining = getOffsetsNBytes c.nIntervals.val
  /-- The storage holds the bytes received, then zero bytes. -/
  offsets_eq : c.offsets = c.received ++ List.replicate (8 * c.nIntervals.val - c.offsetByte) 0
  /-- `offset_byte` counts the bytes received. -/
  length_received : c.received.length = c.offsetByte
  /-- `handle_get_counts` ran at most once, on the current storage, with
  nothing left to read. -/
  counted : c.counted = [] ∨ (c.counted = [c.offsets] ∧ c.offsetRemaining = 0)
  /-- While reading, `handle_get_counts` has not run and `resp_buf` is
  untouched. -/
  reading : c.phase.Reading → c.counted = [] ∧ c.respBuf = b
  /-- Before the request is read, nothing is. -/
  fresh : c.phase = .readingRequest → c.offsetByte = 0
  /-- Every error response is `b`. -/
  errorWrites : ∀ bs, Write.error bs ∈ c.writes → bs = b

variable {b : List Byte}

theorem connInv_init (reqHdr : P.RequestHeader) (req : P.RequestFields)
    (respHdr : P.ResponseHeader) (resp : P.Response) (b : List Byte) :
    ConnInv b (Conn.init reqHdr req respHdr resp b) where
  sum := rfl
  offsets_eq := rfl
  length_received := rfl
  counted := .inl rfl
  reading _ := ⟨rfl, rfl⟩
  fresh _ := rfl
  errorWrites _ h := by simp [Conn.init] at h

/-- A state out of the reading phases keeps the invariant when its offsets
stream and its calls of `handle_get_counts` do. -/
theorem ConnInv.of_done {c : Conn P} (hc : ConnInv b c) {c' : Conn P} (hp : ¬c'.phase.Reading)
    (hn : c'.nIntervals = c.nIntervals) (ho : c'.offsets = c.offsets)
    (hr : c'.received = c.received) (hbyte : c'.offsetByte = c.offsetByte)
    (hrem : c'.offsetRemaining = c.offsetRemaining)
    (hcount : c'.counted = [] ∨ (c'.counted = [c'.offsets] ∧ c'.offsetRemaining = 0))
    (hw : ∀ bs, Write.error bs ∈ c'.writes → Write.error bs ∈ c.writes ∨ bs = b) :
    ConnInv b c' where
  sum := by rw [hn, hbyte, hrem]; exact hc.sum
  offsets_eq := by rw [hn, ho, hr, hbyte]; exact hc.offsets_eq
  length_received := by rw [hr, hbyte]; exact hc.length_received
  counted := hcount
  reading h := absurd h hp
  fresh h := absurd (.inl h) hp
  errorWrites bs h := (hw bs h).elim (hc.errorWrites bs) id

/-- Shutting the socket down, or dropping the connection, keeps the invariant. -/
theorem ConnInv.close {c : Conn P} (hc : ConnInv b c) : ConnInv b { c with phase := .closed } :=
  hc.of_done (by simp [Phase.Reading]) rfl rfl rfl rfl rfl hc.counted fun _ h => .inl h

theorem connInv_respondWithError {c : Conn P} (hc : ConnInv b c) (hb : c.respBuf = b) :
    ConnInv b (respondWithError c) := by
  unfold respondWithError
  split
  · exact hc.close
  · refine hc.of_done (by simp [Phase.Reading]) rfl rfl rfl rfl rfl hc.counted ?_
    simp only [List.mem_append, List.mem_singleton, Write.error.injEq]
    exact fun bs h => h.imp_right (·.trans hb)

/-- `respond_with_header` keeps the invariant of the state `handle_get_counts`
left. -/
theorem connInv_respondWithHeader {c : Conn P} (hc : ConnInv b c) (hp : c.phase = .readingOffsets)
    (hrem : c.offsetRemaining = 0) : ConnInv b (respondWithHeader (handleGetCounts c)) := by
  have hcount : c.counted = [] := (hc.reading (.inr hp)).1
  unfold respondWithHeader
  split <;> refine hc.of_done (by simp [Phase.Reading]) rfl rfl rfl rfl rfl
    (.inr ⟨by simp [handleGetCounts, hcount], hrem⟩) ?_
  · exact fun bs h => .inl h
  · intro bs h
    simp only [handleGetCounts, List.mem_append, List.mem_singleton, reduceCtorEq, or_false] at h
    exact .inl h

/-- The invariant does not read the headers or the request's fields. -/
theorem ConnInv.withHeaders {c : Conn P} (hc : ConnInv b c) (h : P.RequestHeader)
    (r : P.ResponseHeader) : ConnInv b { c with reqHdr := h, respHdr := r } :=
  { hc with }

theorem ConnInv.length_offsets {c : Conn P} (hc : ConnInv b c) :
    c.offsets.length = 8 * c.nIntervals.val := by
  have := getOffsetsNBytes_le c.nIntervals.val
  rw [hc.offsets_eq, List.length_append, List.length_replicate, hc.length_received]
  have := hc.sum
  omega

/-- The read `read_offsets` starts lies inside the storage. -/
theorem ConnInv.offsets_inBounds {c : Conn P} (hc : ConnInv b c) :
    c.offsetByte + c.offsetRemaining ≤ c.offsets.length := by
  rw [hc.sum, hc.length_offsets]
  exact getOffsetsNBytes_le _

theorem readOffsets_eq_some {c c' : Conn P} (h : readOffsets c = some c') :
    c' = { c with phase := .readingOffsets } := by
  unfold readOffsets at h
  split at h
  · exact (Option.some.inj h).symm
  · cases h

/-- `prepare_to_read_offsets` sizes the storage for all `8 · n_intervals` bytes,
so the first read lies inside it. -/
theorem readOffsets_prepareToReadOffsets (c : Conn P) :
    readOffsets (prepareToReadOffsets c) = some { prepareToReadOffsets c with phase := .readingOffsets } :=
  if_pos (by
    simp only [prepareToReadOffsets, length_resizeOffsets, Nat.zero_add]
    exact getOffsetsNBytes_le _)

/-- The request is in: the offsets stream starts from an empty storage of
`8 · n` zero bytes. -/
theorem connInv_startOffsets {c c' : Conn P} (hc : ConnInv b c) (hp : c.phase = .readingRequest)
    {hdr : P.RequestHeader} {r : P.ResponseHeader} {fields : P.RequestFields} {n : U32}
    (h : readOffsets (prepareToReadOffsets
      { c with reqHdr := hdr, respHdr := r, req := fields, nIntervals := n }) = some c') :
    ConnInv b c' := by
  have hbyte := hc.fresh hp
  have hrec : c.received = [] := List.length_eq_zero.mp (hc.length_received.trans hbyte)
  have hoff : c.offsets = List.replicate (8 * c.nIntervals.val) 0 := by
    rw [hc.offsets_eq, hrec, hbyte, List.nil_append, Nat.sub_zero]
  obtain ⟨hcount, hb⟩ := hc.reading (.inl hp)
  rw [readOffsets_eq_some h]
  exact ⟨Nat.zero_add _, by simp [prepareToReadOffsets, hoff, hrec, resizeOffsets_replicate], hrec ▸ rfl,
    .inl hcount, fun _ => ⟨hcount, hb⟩, nofun, hc.errorWrites⟩

/-- `async_read_some` transferred `chunk`: the storage holds it after what was
received before. -/
theorem connInv_storeChunk {c : Conn P} (hc : ConnInv b c) (hp : c.phase = .readingOffsets)
    {chunk : List Byte} (hlen : chunk.length ≤ c.offsetRemaining) : ConnInv b (storeChunk c chunk) where
  sum := by simp only [storeChunk]; have := hc.sum; omega
  offsets_eq := by
    simp only [storeChunk]
    rw [hc.offsets_eq, ← hc.length_received, writeAt_append_replicate, Nat.sub_sub]
  length_received := by simp [storeChunk, hc.length_received]
  counted := .inl (hc.reading (.inr hp)).1
  reading _ := hc.reading (.inr hp)
  fresh h := absurd (hp.symm.trans h) (by decide)
  errorWrites := hc.errorWrites

/-- The completion handler of `read_request` keeps the invariant: every error
path answers with `resp_buf` untouched, and a request read in full starts the
offsets stream. -/
theorem connInv_readRequestDone {c c' : Conn P} (hc : ConnInv b c) (hp : c.phase = .readingRequest)
    {r : Option (List Byte)} (h : readRequestDone c r = some c') : ConnInv b c' := by
  have hb := (hc.reading (.inl hp)).2
  rcases r with _ | buf
  · cases h; exact hc.close
  simp only [readRequestDone] at h
  split at h
  · cases h; exact connInv_respondWithError (hc.withHeaders c.reqHdr _) hb
  split at h
  · cases h; exact connInv_respondWithError (hc.withHeaders _ _) hb
  split at h
  · cases h; exact connInv_respondWithError (hc.withHeaders _ _) hb
  · exact connInv_startOffsets hc hp h

/-- The completion handler of `read_offsets` keeps the invariant: the chunk is
stored, and then either the counts are computed or the stream goes on. -/
theorem connInv_readOffsetsDone {c c' : Conn P} (hc : ConnInv b c) (hp : c.phase = .readingOffsets)
    {r : Option (List Byte)} (h : readOffsetsDone c r = some c') : ConnInv b c' := by
  rcases r with _ | chunk
  · cases h; exact connInv_respondWithError hc (hc.reading (.inr hp)).2
  simp only [readOffsetsDone] at h
  split at h
  case isFalse => cases h
  case isTrue hg =>
  have hs := connInv_storeChunk hc hp hg.1
  split at h
  · cases h; exact connInv_respondWithHeader hs hp ‹_›
  · rw [readOffsets_eq_some h]
    exact { hs with reading := fun _ => hs.reading (.inr hp), fresh := nofun }

/-- The completion handlers of the writes keep the invariant. -/
theorem connInv_writeDone {c c' : Conn P} (hc : ConnInv b c) {ok : Bool}
    (h : writeDone c ok = some c') : ConnInv b c' := by
  simp only [writeDone] at h
  split at h <;> cases h
  · split
    · exact hc.of_done (by simp [respondWithCounts, Phase.Reading]) rfl rfl rfl rfl rfl hc.counted
        fun _ h => .inl (by simpa [respondWithCounts] using h)
    · exact hc.close
  all_goals exact hc.close

/-- **Every step keeps the invariant.** -/
theorem connInv_step {c c' : Conn P} (hc : ConnInv b c) {e : Event} (h : step c e = some c') :
    ConnInv b c' := by
  cases e with
  | requestRead r =>
    rw [step] at h
    split at h
    · exact connInv_readRequestDone hc ‹_› h
    · cases h
  | offsetsRead r =>
    rw [step] at h
    split at h
    · exact connInv_readOffsetsDone hc ‹_› h
    · cases h
  | written ok => exact connInv_writeDone hc h

/-- **Every run keeps the invariant.** -/
theorem connInv_run {c c' : Conn P} (hc : ConnInv b c) {evs : List Event} (h : run c evs = some c') :
    ConnInv b c' := by
  induction evs generalizing c with
  | nil => cases h; exact hc
  | cons e evs ih =>
    obtain ⟨c₁, h₁, h₂⟩ := Option.bind_eq_some.mp h
    exact ih (connInv_step hc h₁) h₂

/-! ### What a run does -/

/-- **Every error response is the initial `resp_buf`.** On every run, each
write `respond_with_error` starts carries the bytes `resp_buf` held when the
connection started, whatever error the run met: `respond_with_error` never
formats the `resp_hdr` that the failed parse, `handle_header` or the failed read
left. -/
theorem run_errorWrites (reqHdr : P.RequestHeader) (req : P.RequestFields)
    (respHdr : P.ResponseHeader) (resp : P.Response) (b : List Byte) {evs : List Event}
    {c : Conn P} (h : run (Conn.init reqHdr req respHdr resp b) evs = some c) :
    ∀ bs, Write.error bs ∈ c.writes → bs = b :=
  (connInv_run (connInv_init reqHdr req respHdr resp b) h).errorWrites

/-- A malformed request header, answered on a connection whose `resp_buf`
holds the header `0`, which is not an error: the client is sent `0`. -/
theorem run_errorWrites_malformed :
    ∃ c, run (Conn.init (P := byteProtocol) () () false () [0]) [.requestRead (some [0])] = some c ∧
      c.writes = [.error [0]] ∧ ∀ bs, Write.error bs ∈ c.writes → bs = [0] :=
  ⟨_, rfl, rfl, @run_errorWrites byteProtocol () () false () [0] [.requestRead (some [0])] _ rfl⟩

/-- **What `handle_get_counts` sees.** On every run it is called at most once,
and on the bytes the peer sent, `8 · n_intervals mod 2 ^ 32` of them, followed
by zero bytes up to `8 · n_intervals`. -/
theorem run_counted (reqHdr : P.RequestHeader) (req : P.RequestFields)
    (respHdr : P.ResponseHeader) (resp : P.Response) (b : List Byte) {evs : List Event}
    {c : Conn P} (h : run (Conn.init reqHdr req respHdr resp b) evs = some c) :
    c.counted.length ≤ 1 ∧ ∀ o ∈ c.counted,
      c.received.length = getOffsetsNBytes c.nIntervals.val ∧
      o = c.received ++
        List.replicate (8 * c.nIntervals.val - getOffsetsNBytes c.nIntervals.val) 0 := by
  have hc := connInv_run (connInv_init reqHdr req respHdr resp b) h
  rcases hc.counted with hnil | ⟨hone, hrem⟩
  · simp [hnil]
  · have hbyte : c.offsetByte = getOffsetsNBytes c.nIntervals.val := by
      have := hc.sum
      omega
    rw [hone]
    refine ⟨le_refl _, fun o ho => ?_⟩
    rw [List.mem_singleton.mp ho, hc.offsets_eq, hc.length_received, hbyte]
    exact ⟨rfl, rfl⟩

/-- Below `2 ^ 29` offsets, `handle_get_counts` sees exactly the `8 · n_intervals`
bytes the peer sent. -/
theorem run_counted_of_lt (reqHdr : P.RequestHeader) (req : P.RequestFields)
    (respHdr : P.ResponseHeader) (resp : P.Response) (b : List Byte) {evs : List Event}
    {c : Conn P} (h : run (Conn.init reqHdr req respHdr resp b) evs = some c)
    (hn : c.nIntervals.val < 2 ^ 29) :
    ∀ o ∈ c.counted, o = c.received ∧ o.length = 8 * c.nIntervals.val := by
  intro o ho
  obtain ⟨hlen, ho⟩ := (run_counted reqHdr req respHdr resp b h).2 o ho
  rw [getOffsetsNBytes_of_lt hn] at hlen ho
  rw [ho, Nat.sub_self, List.replicate_zero, List.append_nil]
  exact ⟨rfl, hlen⟩

/-- The completion of the request read is always handled: each error path
answers, and a parsed request starts its read inside the storage that
`prepare_to_read_offsets` has just sized. -/
theorem step_requestRead_isSome {c : Conn P} (hp : c.phase = .readingRequest)
    (r : Option (List Byte)) : (step c (.requestRead r)).isSome := by
  rw [step, if_pos hp]
  rcases r with _ | buf
  · rfl
  simp only [readRequestDone]
  split
  · rfl
  split
  · rfl
  split
  · rfl
  · rw [readOffsets_prepareToReadOffsets]; rfl

/-- A completion of `read_offsets` that keeps the contract of
`async_read_some`, on a read inside the storage, is handled: `offset_byte` and
`offset_remaining` move by the bytes transferred, and the next read, if any,
lies inside the storage again. -/
theorem step_offsetsRead_of_contract {c : Conn P} (hp : c.phase = .readingOffsets)
    (hb : c.offsetByte + c.offsetRemaining ≤ c.offsets.length) {chunk : List Byte}
    (hlen : chunk.length ≤ c.offsetRemaining) (hz : chunk.length = 0 ↔ c.offsetRemaining = 0) :
    ∃ c', step c (.offsetsRead (some chunk)) = some c' ∧
      c'.offsetByte = c.offsetByte + chunk.length ∧
      c'.offsetRemaining = c.offsetRemaining - chunk.length := by
  simp only [step, hp, if_true, readOffsetsDone, if_pos (And.intro hlen hz)]
  split
  · refine ⟨_, rfl, ?_⟩
    unfold respondWithHeader
    split <;> exact ⟨rfl, rfl⟩
  · refine ⟨_, if_pos ?_, rfl, rfl⟩
    simp only [storeChunk, length_writeAt (show c.offsetByte + chunk.length ≤ c.offsets.length by omega)]
    omega

/-- **The offsets are read inside `req.offsets`.** On every run, `req.offsets`
holds `n_intervals` offsets. Whenever the connection waits on a read of
`read_offsets`, `offset_byte + offset_remaining = get_offsets_n_bytes()`, which
is at most the `8 · n_intervals` bytes of the storage, so the buffer handed to
`async_read_some` lies inside it. The completion of the request read never
starts a read outside it, nor does any completion of an offsets read that keeps
the contract of `async_read_some`; and each one that transfers bytes lowers
`offset_remaining` by as many. -/
theorem run_offsets_inBounds (reqHdr : P.RequestHeader) (req : P.RequestFields)
    (respHdr : P.ResponseHeader) (resp : P.Response) (b : List Byte) {evs : List Event}
    {c : Conn P} (h : run (Conn.init reqHdr req respHdr resp b) evs = some c) :
    c.offsets.length = 8 * c.nIntervals.val ∧
      (c.phase = .readingOffsets →
        c.offsetByte + c.offsetRemaining = getOffsetsNBytes c.nIntervals.val ∧
          getOffsetsNBytes c.nIntervals.val ≤ c.offsets.length) ∧
      (c.phase = .readingRequest → ∀ r, (step c (.requestRead r)).isSome) ∧
      (c.phase = .readingOffsets → ∀ chunk : List Byte, chunk.length ≤ c.offsetRemaining →
        (chunk.length = 0 ↔ c.offsetRemaining = 0) →
        ∃ c', step c (.offsetsRead (some chunk)) = some c' ∧
          c'.offsetByte = c.offsetByte + chunk.length ∧
          c'.offsetRemaining = c.offsetRemaining - chunk.length ∧
          (chunk ≠ [] → c'.offsetRemaining < c.offsetRemaining)) := by
  have hc := connInv_run (connInv_init reqHdr req respHdr resp b) h
  refine ⟨hc.length_offsets, fun _ => ⟨hc.sum, ?_⟩, fun hp => step_requestRead_isSome hp,
    fun hp chunk hlen hz => ?_⟩
  · rw [hc.length_offsets]
    exact getOffsetsNBytes_le _
  · obtain ⟨c', hs, hbyte, hrem⟩ := step_offsetsRead_of_contract hp hc.offsets_inBounds hlen hz
    refine ⟨c', hs, hbyte, hrem, fun hne => ?_⟩
    have hpos := List.length_pos.mpr hne
    have := hz.not.mp (by omega)
    omega

/-- A request for one offset, then three of its eight bytes: five remain, and
the next read is the five bytes after them. -/
theorem run_offsets_inBounds_partial :
    ∃ c, run (Conn.init (P := byteProtocol) () () false () [0])
        [.requestRead (some [1, 1]), .offsetsRead (some [7, 7, 7])] = some c ∧
      c.offsetByte = 3 ∧ c.offsetRemaining = 5 ∧
      (c.offsets.length = 8 * c.nIntervals.val ∧
        (c.phase = .readingOffsets →
          c.offsetByte + c.offsetRemaining = getOffsetsNBytes c.nIntervals.val ∧
            getOffsetsNBytes c.nIntervals.val ≤ c.offsets.length) ∧
        (c.phase = .readingRequest → ∀ r, (step c (.requestRead r)).isSome) ∧
        (c.phase = .readingOffsets → ∀ chunk : List Byte, chunk.length ≤ c.offsetRemaining →
          (chunk.length = 0 ↔ c.offsetRemaining = 0) →
          ∃ c', step c (.offsetsRead (some chunk)) = some c' ∧
            c'.offsetByte = c.offsetByte + chunk.length ∧
            c'.offsetRemaining = c.offsetRemaining - chunk.length ∧
            (chunk ≠ [] → c'.offsetRemaining < c.offsetRemaining))) :=
  ⟨_, rfl, rfl, rfl, @run_offsets_inBounds byteProtocol () () false () [0]
    [.requestRead (some [1, 1]), .offsetsRead (some [7, 7, 7])] _ rfl⟩

/-- Once the peer sends the last `offset_remaining` bytes, `handle_get_counts`
runs, on the storage with them stored. -/
theorem step_offsetsRead_last {c : Conn P} (hc : ConnInv b c) (hp : c.phase = .readingOffsets)
    {chunk : List Byte} (hlen : chunk.length = c.offsetRemaining) :
    ∃ c', step c (.offsetsRead (some chunk)) = some c' ∧
      c'.counted = [writeAt c.offsets c.offsetByte chunk] ∧ c'.received = c.received ++ chunk := by
  have hcount := (hc.reading (.inr hp)).1
  refine ⟨respondWithHeader (handleGetCounts (storeChunk c chunk)), ?_, ?_, ?_⟩
  · simp only [step, hp, if_true, readOffsetsDone, hlen, le_refl, true_and, iff_self, if_true]
    rw [if_pos (show (storeChunk c chunk).offsetRemaining = 0 by simp [storeChunk, hlen])]
  · unfold respondWithHeader
    split <;> simp [handleGetCounts, storeChunk, hcount]
  · unfold respondWithHeader
    split <;> rfl

/-- **`n_intervals = 2 ^ 29` skips the offsets.** `get_offsets_n_bytes()` is
`8 · 2 ^ 29 mod 2 ^ 32 = 0`: the read that follows the request is on an empty
buffer, its only completion transfers no byte, and `handle_get_counts` then runs
on the `2 ^ 32` bytes of `req.offsets` with not one of them received. -/
theorem readOffsets_skipped (c : Conn P) :
    ∃ c₁ c₂, readOffsets (prepareToReadOffsets { c with nIntervals := 536870912 }) = some c₁ ∧
      c₁.offsetRemaining = 0 ∧ c₁.offsets.length = 2 ^ 32 ∧
      (∀ chunk, chunk ≠ [] → step c₁ (.offsetsRead (some chunk)) = none) ∧
      step c₁ (.offsetsRead (some [])) = some c₂ ∧
      c₂.counted = c.counted ++ [c₁.offsets] ∧ c₂.received = c.received := by
  have hlen : (resizeOffsets c.offsets (536870912 : U32).val).length = 2 ^ 32 := by
    rw [length_resizeOffsets]; rfl
  have hrem : getOffsetsNBytes (536870912 : U32).val = 0 := rfl
  refine ⟨{ prepareToReadOffsets { c with nIntervals := 536870912 } with phase := .readingOffsets },
    respondWithHeader (handleGetCounts (storeChunk
      { prepareToReadOffsets { c with nIntervals := 536870912 } with phase := .readingOffsets } [])),
    readOffsets_prepareToReadOffsets _, hrem, hlen, ?_, ?_, ?_, ?_⟩
  · intro chunk hne
    simp [step, readOffsetsDone, prepareToReadOffsets, hrem, hne]
  · simp only [step, readOffsetsDone, prepareToReadOffsets, hrem, if_true]
    rfl
  · unfold respondWithHeader
    split <;> simp [handleGetCounts, storeChunk, prepareToReadOffsets, writeAt_nil]
  · unfold respondWithHeader
    split <;> simp [handleGetCounts, storeChunk, prepareToReadOffsets]

/-! ### What each completion does to the offsets stream -/

/-- A completion keeps the request side of the connection: the offset bytes
received, the calls of `handle_get_counts`, `n_intervals`, `req_hdr` and the
fields of `req`. -/
def KeepsRequest (c c' : Conn P) : Prop :=
  c'.received = c.received ∧ c'.counted = c.counted ∧ c'.nIntervals = c.nIntervals ∧
    c'.reqHdr = c.reqHdr ∧ c'.req = c.req

/-- The two responses keep the request side and leave the reading phases. -/
theorem respondWithError_frame (c : Conn P) :
    KeepsRequest c (respondWithError c) ∧ ¬(respondWithError c).phase.Reading := by
  unfold respondWithError
  split <;> simp [KeepsRequest, Phase.Reading]

theorem respondWithHeader_frame (c : Conn P) :
    KeepsRequest c (respondWithHeader c) ∧ ¬(respondWithHeader c).phase.Reading := by
  unfold respondWithHeader
  split <;> simp [KeepsRequest, Phase.Reading]

/-- The completion of the request read leaves the offsets stream as it was and
the phase of reading the request; when it goes on to read offsets, the buffer
held a request header and a request, which the connection took. -/
theorem readRequestDone_frame {c c' : Conn P} {r : Option (List Byte)}
    (h : readRequestDone c r = some c') :
    c'.received = c.received ∧ c'.counted = c.counted ∧ c'.phase ≠ .readingRequest ∧
      (c'.phase = .readingOffsets → ∃ buf, r = some buf ∧ ∃ k,
        P.headerFromChars buf = some (c'.reqHdr, k) ∧
          P.requestFromChars (buf.drop k) = some (c'.req, c'.nIntervals)) := by
  have herr : ∀ d : Conn P, respondWithError d = c' → d.received = c.received →
      d.counted = c.counted → c'.received = c.received ∧ c'.counted = c.counted ∧
        c'.phase ≠ .readingRequest ∧ c'.phase ≠ .readingOffsets := by
    rintro d rfl hr hc
    obtain ⟨⟨h₁, h₂, -⟩, h₄⟩ := respondWithError_frame d
    exact ⟨h₁.trans hr, h₂.trans hc, fun h => h₄ (.inl h), fun h => h₄ (.inr h)⟩
  rcases r with _ | buf
  · cases h; exact ⟨rfl, rfl, nofun, nofun⟩
  simp only [readRequestDone] at h
  split at h
  · obtain ⟨h₁, h₂, h₃, h₄⟩ := herr _ (Option.some.inj h) rfl rfl
    exact ⟨h₁, h₂, h₃, (absurd · h₄)⟩
  rename_i hdr k hhdr
  split at h
  · obtain ⟨h₁, h₂, h₃, h₄⟩ := herr _ (Option.some.inj h) rfl rfl
    exact ⟨h₁, h₂, h₃, (absurd · h₄)⟩
  split at h
  · obtain ⟨h₁, h₂, h₃, h₄⟩ := herr _ (Option.some.inj h) rfl rfl
    exact ⟨h₁, h₂, h₃, (absurd · h₄)⟩
  rename_i fields n hreq
  rw [readOffsets_eq_some h]
  exact ⟨rfl, rfl, nofun, fun _ => ⟨buf, rfl, k, hhdr, hreq⟩⟩

/-- A completion of `read_offsets` that transferred `chunk` appends it to what
was received, and keeps `n_intervals`, `req_hdr` and the fields of `req`. -/
theorem readOffsetsDone_frame {c c' : Conn P} {chunk : List Byte}
    (h : readOffsetsDone c (some chunk) = some c') :
    c'.received = c.received ++ chunk ∧ c'.nIntervals = c.nIntervals ∧ c'.reqHdr = c.reqHdr ∧
      c'.req = c.req ∧ c'.phase ≠ .readingRequest := by
  simp only [readOffsetsDone] at h
  split at h
  · split at h
    · cases h
      obtain ⟨⟨h₁, -, h₃, h₄, h₅⟩, h₆⟩ := respondWithHeader_frame (handleGetCounts (storeChunk c chunk))
      exact ⟨h₁, h₃, h₄, h₅, fun h => h₆ (.inl h)⟩
    · rw [readOffsets_eq_some h]
      exact ⟨rfl, rfl, rfl, rfl, nofun⟩
  · cases h

end Model

end Mxe
