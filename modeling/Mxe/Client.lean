import Mxe.Connection

/-!
# The lookup client

`mc16_client` sends one request to a server and reads its answer. Its
constructor starts `async_resolve`, and each completion handler starts the next
operation. `handle_resolve` connects. `handle_connect` composes the request
header and the request into `req_buf`, then writes `req_buf` and `req.offsets`
with one `async_write`. `handle_write_request` reads `response_buf_size` bytes
into `resp_buf`. `handle_read_response_header` parses them, and
`do_read_counts` reads the counts, after which `do_finish` ends the exchange.
Each failure is recorded in `status` and starts nothing more.

A steady timer, `deadline`, watches the exchange. Each handler sets its expiry:
to the maximal time point when an operation completes, and to
`read_timeout_seconds` from now when the next one starts. `check_deadline` is
the handler of the wait on that timer. It closes the socket when the expiry has
passed, and it waits on the timer again as long as the socket is open. Setting
a timer's expiry cancels the wait outstanding on it, and a cancelled wait still
runs its handler, so `check_deadline` runs after every such change and
registers a new wait.

That wait is what keeps `io_context.run()` from returning. `run()` returns when
no operation and no handler is left. The wait is left as long as the socket is
open. `check_deadline` closes the socket only on an expired deadline, and the
socket is also left closed when the `open` that `async_connect` makes of it
fails; `check_deadline` then waits no more, and the connect completes with an
error. So `run()` returns only in runs in which the deadline expired or that
`open` failed (`Mxe.Client.run_idle_expired`). After a transaction that completed without
error and without an expiry, the client waits forever on a timer whose expiry is
the maximal time point (`Mxe.Client.run_done_hangs`), and `lookup_client_main`
never reaches `write_intervals`.

`compose`, `parse`, the `to_chars` of a request, `get_counts_n_bytes` and the
two buffer sizes are not in the source; they are the fields of
`Mxe.ClientSide`, next to the types of `Mxe.Protocol` the server uses too, and
every result below holds for all of them. Each completion is one
`Mxe.ClientEvent`, with a read's contract as a guard: `async_read` with
`transfer_exactly(n)` completes without error only once it has filled
`min(n, size)` bytes of its buffer. The clock is an event as well: a deadline
set `read_timeout_seconds` ahead may pass at any moment.
-/

namespace Mxe

/-! ### What the client calls -/

/-- The functions and constants the client uses besides those of
`Mxe.Protocol`, with the bounds their callers rely on. -/
structure ClientSide (P : Protocol) where
  /-- The error codes the client keeps in `status`. -/
  ErrorCode : Type
  /-- `request_buf_size`. -/
  requestBufSize : ℕ
  /-- `response_buf_size`. -/
  responseBufSize : ℕ
  /-- `compose(req_buf, req_hdr)`: the bytes written at the front of
  `req_buf`, or an error. -/
  compose : P.RequestHeader → Except ErrorCode (List Byte)
  /-- `compose` writes inside `req_buf`. -/
  compose_le : ∀ h bs, compose h = .ok bs → bs.length ≤ requestBufSize
  /-- `to_chars(first, last, req)` on `last - first` bytes, for a request with
  the given fields and `n_intervals`: the bytes written, or an error. -/
  requestToChars : ℕ → P.RequestFields → U32 → Except ErrorCode (List Byte)
  /-- `to_chars` writes inside `[first, last)`. -/
  requestToChars_le : ∀ room r n bs, requestToChars room r n = .ok bs → bs.length ≤ room
  /-- `parse(resp_buf, resp_hdr)`: the response header, or an error. -/
  parse : List Byte → Except ErrorCode P.ResponseHeader
  /-- The size of one element of `resp.counts`. -/
  countBytes : ℕ
  /-- `response::get_counts_n_bytes()` of a response of `n` counts. -/
  getCountsNBytes : ℕ → ℕ

/-- The operation on the resolver or the socket that a client waits on. -/
inductive ClientOp
  /-- `async_resolve`, started by the constructor. -/
  | resolve
  /-- `async_connect`, started by `handle_resolve`. -/
  | connect
  /-- `async_write` of `req_buf` and `req.offsets`, started by `handle_connect`. -/
  | writeRequest
  /-- `async_read` of `resp_buf`, started by `handle_write_request`. -/
  | readHeader
  /-- `async_read` of `resp.counts`, started by `do_read_counts`. -/
  | readCounts
  deriving DecidableEq, Repr

/-- Where the expiry of `deadline` stands against the clock. -/
inductive Expiry
  /-- A time still to come, set by `expires_after(read_timeout_seconds)`. -/
  | later
  /-- A time that has come. -/
  | passed
  /-- `steady_timer::time_point::max()`, which the clock never reaches. -/
  | never
  deriving DecidableEq, Repr

/-- The wait `check_deadline` keeps on `deadline`. -/
inductive Wait
  /-- No wait outstanding. -/
  | none
  /-- An `async_wait` outstanding, not yet complete. -/
  | pending
  /-- A wait complete, at its expiry or cancelled: `check_deadline` is due. -/
  | ready
  deriving DecidableEq, Repr

/-- The members of an `mc16_client` that its functions read and write, the
state of its socket and timer, and a log of what it wrote. -/
structure Client (P : Protocol) (Q : ClientSide P) where
  /-- The pending operation on the resolver or the socket. -/
  op : Option ClientOp
  /-- `socket.is_open()`. -/
  socketOpen : Bool
  /-- `deadline.expiry()`. -/
  expiry : Expiry
  /-- The wait on `deadline`. -/
  wait : Wait
  /-- `req_buf`. -/
  reqBuf : List Byte
  /-- `req_hdr`. -/
  reqHdr : P.RequestHeader
  /-- The fields of `req` other than `n_intervals` and `offsets`. -/
  req : P.RequestFields
  /-- `req.n_intervals`. -/
  nIntervals : U32
  /-- `req.offsets`. -/
  offsets : List (U32 × U32)
  /-- `resp_buf`. -/
  respBuf : List Byte
  /-- `resp_hdr`. -/
  respHdr : P.ResponseHeader
  /-- The bytes of `resp.counts`. -/
  counts : List Byte
  /-- `status`: `none` for the default, which is no error. -/
  status : Option Q.ErrorCode
  /-- Log: the bytes of each `async_write` started on the socket. -/
  sent : List (List Byte)

/-- The completion of an operation or of the timer, or the clock's move. -/
inductive ClientEvent (E : Type)
  /-- `async_resolve` completes, without an error (`none`) or with one. After a
  resolve without error `handle_resolve` calls `async_connect`, which opens the
  socket before it connects: `opened` is whether that `open` succeeds. -/
  | resolved (err : Option E) (opened : Bool)
  /-- `async_connect` completes. On a socket it could not open, it completes
  with an error. -/
  | connected (err : Option E)
  /-- The `async_write` of the request completes. -/
  | requestWritten (err : Option E)
  /-- The `async_read` of `resp_buf` completes: an error or the bytes read. -/
  | headerRead (result : Except E (List Byte))
  /-- The `async_read` of `resp.counts` completes. -/
  | countsRead (result : Except E (List Byte))
  /-- The clock reaches an expiry set `read_timeout_seconds` ahead. -/
  | expired
  /-- The outstanding wait completes at its expiry. -/
  | waitCompleted
  /-- `check_deadline` runs. -/
  | deadlineChecked

/-- A client side for examples, over `Mxe.byteProtocol`: a request buffer of
two bytes, the header `1` and then `n_intervals`, a response header of one byte
read as `error()` when it is `1`, and counts of eight bytes. -/
def byteClient : ClientSide byteProtocol where
  ErrorCode := Unit
  requestBufSize := 2
  responseBufSize := 1
  compose _ := .ok [1]
  compose_le _ _ h := by cases h; decide
  requestToChars room _ n := if 1 ≤ room then .ok [⟨n.val % 256, by omega⟩] else .error ()
  requestToChars_le room _ _ bs h := by
    dsimp only at h
    split at h
    · cases h; simpa
    · cases h
  parse buf := .ok (decide (buf.head? = some 1))
  countBytes := 8
  getCountsNBytes n := 8 * n

/-! ### The bytes on the wire -/

/-- The four bytes of a `uint32_t` in memory, the least significant first. -/
def u32Bytes (x : U32) : List Byte :=
  [⟨x.val % 256, by omega⟩, ⟨x.val / 2 ^ 8 % 256, by omega⟩, ⟨x.val / 2 ^ 16 % 256, by omega⟩,
    ⟨x.val / 2 ^ 24 % 256, by omega⟩]

/-- The bytes `asio::buffer(req.offsets)` hands to the socket: each
`offset_pair` as its two `uint32_t`s. -/
def offsetsBytes (offsets : List (U32 × U32)) : List Byte :=
  offsets.flatMap fun o => u32Bytes o.1 ++ u32Bytes o.2

@[simp] theorem length_offsetsBytes (offsets : List (U32 × U32)) :
    (offsetsBytes offsets).length = 8 * offsets.length := by
  induction offsets with
  | nil => rfl
  | cons o os ih =>
    simp only [offsetsBytes, List.flatMap_cons, List.length_append] at ih ⊢
    rw [ih]
    simp [u32Bytes]
    omega

/-- `v.resize(n)` on the bytes of a vector of elements of `size` bytes: the
first `size · n` bytes kept, zero bytes appended. -/
def resizeElems (size : ℕ) (bytes : List Byte) (n : ℕ) : List Byte :=
  bytes.take (size * n) ++ List.replicate (size * n - bytes.length) 0

@[simp] theorem length_resizeElems (size : ℕ) (bytes : List Byte) (n : ℕ) :
    (resizeElems size bytes n).length = size * n := by
  rw [resizeElems, List.length_append, List.length_take, List.length_replicate]
  omega

namespace Client

variable {P : Protocol} {Q : ClientSide P}

/-! ### The member functions -/

/-- `deadline.expires_at(t)` or `deadline.expires_after(d)`: the new expiry. A
wait outstanding on the timer is cancelled, which makes its handler due. -/
def setExpiry (c : Client P Q) (e : Expiry) : Client P Q :=
  { c with expiry := e, wait := if c.wait = .pending then .ready else c.wait }

/-- `handle_resolve`: on success `async_connect`, which opens the socket, or
leaves it closed when the `open` fails (`opened`). -/
def handleResolve (c : Client P Q) (opened : Bool) : Option Q.ErrorCode → Client P Q
  | none => setExpiry { c with op := some .connect, socketOpen := opened } .later
  | some err => { c with status := some err }

/-- What `handle_connect` stores in `req_buf`: `compose(req_buf, req_hdr)`, then
`to_chars` of the request into the rest of the buffer. -/
def composeRequest (c : Client P Q) : Except Q.ErrorCode (List Byte) := do
  let hb ← Q.compose c.reqHdr
  let rb ← Q.requestToChars (Q.requestBufSize - hb.length) c.req c.nIntervals
  return writeAt (writeAt c.reqBuf 0 hb) hb.length rb

/-- `handle_connect`: on success compose the request and write `req_buf` and
`req.offsets`. -/
def handleConnect (c : Client P Q) (err : Option Q.ErrorCode) : Client P Q :=
  match err, composeRequest c with
  | some err, _ => { setExpiry c .never with status := some err }
  | none, .error err => { setExpiry c .never with status := some err }
  | none, .ok buf =>
    setExpiry
      { setExpiry c .never with
        reqBuf := buf, op := some .writeRequest, sent := c.sent ++ [buf ++ offsetsBytes c.offsets] }
      .later

/-- `handle_write_request`: on success read the response header. -/
def handleWriteRequest (c : Client P Q) : Option Q.ErrorCode → Client P Q
  | none => setExpiry { setExpiry c .never with op := some .readHeader } .later
  | some err => { setExpiry c .never with status := some err }

/-- `do_read_counts`: size `resp.counts` for `req.n_intervals` counts and read
them. -/
def doReadCounts (c : Client P Q) : Client P Q :=
  setExpiry
    { c with counts := resizeElems Q.countBytes c.counts c.nIntervals.val, op := some .readCounts }
    .later

/-- `do_finish`. -/
def doFinish (c : Client P Q) : Option Q.ErrorCode → Client P Q
  | none => setExpiry c .never
  | some err => { setExpiry c .never with status := some err }

/-- `handle_read_response_header`: parse `resp_buf`, then read the counts, or
finish with the parse error. -/
def handleReadResponseHeader (c : Client P Q) : Except Q.ErrorCode (List Byte) → Client P Q
  | .error err => { setExpiry c .never with status := some err }
  | .ok bytes =>
    match Q.parse (writeAt c.respBuf 0 bytes) with
    | .ok h => doReadCounts { setExpiry c .never with respBuf := writeAt c.respBuf 0 bytes, respHdr := h }
    | .error err =>
      doFinish { setExpiry c .never with respBuf := writeAt c.respBuf 0 bytes, status := some err }
        (some err)

/-- `check_deadline`, run with no wait outstanding: on an open socket, close it
if the deadline has passed, and wait again; on a closed one, return. -/
def checkDeadline (c : Client P Q) : Client P Q :=
  if c.socketOpen then
    { (if c.expiry = .passed then { setExpiry c .never with socketOpen := false } else c) with
      wait := .pending }
  else c

/-- The number of bytes `async_read(socket, asio::buffer(resp_buf),
transfer_exactly(response_buf_size))` fills. -/
def headerWanted (c : Client P Q) : ℕ :=
  min Q.responseBufSize c.respBuf.length

/-- The number of bytes `async_read(socket, asio::buffer(resp.counts),
transfer_exactly(resp.get_counts_n_bytes()))` fills. -/
def countsWanted (c : Client P Q) : ℕ :=
  min (Q.getCountsNBytes c.nIntervals.val) c.counts.length

/-- One event: `none` when the client does not wait on it, or when a read
breaks the contract of `async_read`. -/
def step (c : Client P Q) : ClientEvent Q.ErrorCode → Option (Client P Q)
  | .resolved err opened =>
    if c.op = some .resolve then some (handleResolve { c with op := none } opened err) else none
  | .connected err =>
    if c.op = some .connect ∧ (err.isNone → c.socketOpen = true) then
      some (handleConnect { c with op := none } err)
    else none
  | .requestWritten err =>
    if c.op = some .writeRequest then some (handleWriteRequest { c with op := none } err) else none
  | .headerRead (.error err) =>
    if c.op = some .readHeader then
      some (handleReadResponseHeader { c with op := none } (.error err))
    else none
  | .headerRead (.ok bytes) =>
    if c.op = some .readHeader ∧ bytes.length = headerWanted c then
      some (handleReadResponseHeader { c with op := none } (.ok bytes))
    else none
  | .countsRead (.error err) =>
    if c.op = some .readCounts then some (doFinish { c with op := none } (some err)) else none
  | .countsRead (.ok bytes) =>
    if c.op = some .readCounts ∧ bytes.length = countsWanted c then
      some (doFinish { c with op := none, counts := writeAt c.counts 0 bytes } none)
    else none
  | .expired => if c.expiry = .later then some { c with expiry := .passed } else none
  | .waitCompleted =>
    if c.wait = .pending ∧ c.expiry = .passed then some { c with wait := .ready } else none
  | .deadlineChecked => if c.wait = .ready then some (checkDeadline { c with wait := .none }) else none

/-- What a step can be: the handler of the operation the client waits on, run
with `op` cleared, or an event of the timer, each under its guard. -/
theorem step_eq_some {c c' : Client P Q} {e : ClientEvent Q.ErrorCode} (h : c.step e = some c') :
    match e with
    | .resolved err opened =>
      c.op = some .resolve ∧ handleResolve { c with op := none } opened err = c'
    | .connected err => c.op = some .connect ∧ (err.isNone → c.socketOpen = true) ∧
      handleConnect { c with op := none } err = c'
    | .requestWritten err =>
      c.op = some .writeRequest ∧ handleWriteRequest { c with op := none } err = c'
    | .headerRead r => c.op = some .readHeader ∧ (∀ bytes, r = .ok bytes → bytes.length = c.headerWanted) ∧
      handleReadResponseHeader { c with op := none } r = c'
    | .countsRead (.error err) =>
      c.op = some .readCounts ∧ doFinish { c with op := none } (some err) = c'
    | .countsRead (.ok bytes) => c.op = some .readCounts ∧ bytes.length = c.countsWanted ∧
      doFinish { c with op := none, counts := writeAt c.counts 0 bytes } none = c'
    | .expired => c.expiry = .later ∧ { c with expiry := .passed } = c'
    | .waitCompleted => (c.wait = .pending ∧ c.expiry = .passed) ∧ { c with wait := .ready } = c'
    | .deadlineChecked => c.wait = .ready ∧ checkDeadline { c with wait := .none } = c' := by
  cases e with
  | headerRead r => cases r <;> simpa [step, and_assoc] using h
  | countsRead r => cases r <;> simpa [step, and_assoc] using h
  | _ => simpa only [step, Option.ite_none_right_eq_some, Option.some.injEq, and_assoc] using h

/-- A run: the events one after the other. -/
def run (c : Client P Q) (evs : List (ClientEvent Q.ErrorCode)) : Option (Client P Q) :=
  evs.foldlM step c

/-- The client as its constructor leaves it, for a request with `n_intervals`
and `offsets`: resolving, with a deadline set and a wait on it. -/
def init (reqHdr : P.RequestHeader) (req : P.RequestFields) (nIntervals : U32)
    (offsets : List (U32 × U32)) (reqBuf respBuf : List Byte) (respHdr : P.ResponseHeader) :
    Client P Q :=
  ⟨some .resolve, false, .later, .pending, reqBuf, reqHdr, req, nIntervals, offsets, respBuf,
    respHdr, [], none, []⟩

/-- The client `lookup_client_main` runs: its request is
`request{static_cast<uint32_t>(size(offsets)), offsets}`. -/
def lookup (reqHdr : P.RequestHeader) (req : P.RequestFields) (offsets : List (U32 × U32))
    (reqBuf respBuf : List Byte) (respHdr : P.ResponseHeader) : Client P Q :=
  init reqHdr req ⟨offsets.length % 2 ^ 32, Nat.mod_lt _ (by norm_num)⟩ offsets reqBuf respBuf respHdr

/-- No operation and no wait left: `io_context.run()` returns. -/
def Idle (c : Client P Q) : Prop := c.op = none ∧ c.wait = .none

/-! ### The timer -/

@[simp] theorem expiry_setExpiry (c : Client P Q) (e : Expiry) : (setExpiry c e).expiry = e := rfl

@[simp] theorem wait_setExpiry (c : Client P Q) (e : Expiry) :
    (setExpiry c e).wait = if c.wait = .pending then .ready else c.wait := rfl

@[simp] theorem socketOpen_setExpiry (c : Client P Q) (e : Expiry) :
    (setExpiry c e).socketOpen = c.socketOpen := rfl

@[simp] theorem op_setExpiry (c : Client P Q) (e : Expiry) : (setExpiry c e).op = c.op := rfl

@[simp] theorem status_setExpiry (c : Client P Q) (e : Expiry) :
    (setExpiry c e).status = c.status := rfl

@[simp] theorem respBuf_setExpiry (c : Client P Q) (e : Expiry) :
    (setExpiry c e).respBuf = c.respBuf := rfl

@[simp] theorem counts_setExpiry (c : Client P Q) (e : Expiry) :
    (setExpiry c e).counts = c.counts := rfl

/-- Setting the expiry never drops the wait. -/
theorem wait_setExpiry_ne {c : Client P Q} (h : c.wait ≠ .none) (e : Expiry) :
    (setExpiry c e).wait ≠ .none := by
  rw [wait_setExpiry]
  split <;> simp_all

/-- The state of every run in which the deadline has not expired: the expiry is
still to come or the maximal time point, a wait is outstanding, and the socket
is open unless the resolve is still pending or has failed. -/
structure Armed (c : Client P Q) : Prop where
  expiry_ne : c.expiry ≠ .passed
  wait_ne : c.wait ≠ .none
  closed : c.socketOpen = false →
    c.wait = .pending ∧ (c.op = some .resolve ∨ (c.op = none ∧ c.status ≠ none))

theorem armed_init (reqHdr : P.RequestHeader) (req : P.RequestFields) (nIntervals : U32)
    (offsets : List (U32 × U32)) (reqBuf respBuf : List Byte) (respHdr : P.ResponseHeader) :
    Armed (init reqHdr req nIntervals offsets reqBuf respBuf respHdr : Client P Q) :=
  ⟨nofun, nofun, fun _ => ⟨rfl, .inl rfl⟩⟩

/-- On an open socket, a state is armed when its expiry is to come and a wait is
outstanding. -/
theorem Armed.of_open {c : Client P Q} (ho : c.socketOpen = true) (he : c.expiry ≠ .passed)
    (hw : c.wait ≠ .none) : Armed c :=
  ⟨he, hw, fun h => absurd (ho.symm.trans h) nofun⟩

/-- What a completion handler does to the socket and the timer: it leaves the
socket as it is, sets an expiry that is still to come, and keeps the wait. -/
def TimerFrame (c r : Client P Q) : Prop :=
  r.socketOpen = c.socketOpen ∧ (r.expiry = .later ∨ r.expiry = .never) ∧
    (c.wait ≠ .none → r.wait ≠ .none)

theorem timerFrame_setExpiry (c : Client P Q) {e : Expiry} (he : e = .later ∨ e = .never) :
    TimerFrame c (setExpiry c e) :=
  ⟨rfl, he, fun h => wait_setExpiry_ne h e⟩

theorem TimerFrame.trans {a b c : Client P Q} (h₁ : TimerFrame a b) (h₂ : TimerFrame b c) :
    TimerFrame a c :=
  ⟨h₂.1.trans h₁.1, h₂.2.1, fun h => h₂.2.2 (h₁.2.2 h)⟩

theorem timerFrame_handleConnect (c : Client P Q) (err : Option Q.ErrorCode) :
    TimerFrame c (handleConnect c err) := by
  unfold handleConnect
  split
  · exact timerFrame_setExpiry c (.inr rfl)
  · exact timerFrame_setExpiry c (.inr rfl)
  · exact (timerFrame_setExpiry c (.inr rfl)).trans (timerFrame_setExpiry _ (.inl rfl))

theorem timerFrame_handleWriteRequest (c : Client P Q) (err : Option Q.ErrorCode) :
    TimerFrame c (handleWriteRequest c err) := by
  cases err
  · exact (timerFrame_setExpiry c (.inr rfl)).trans (timerFrame_setExpiry _ (.inl rfl))
  · exact timerFrame_setExpiry c (.inr rfl)

theorem timerFrame_doFinish (c : Client P Q) (err : Option Q.ErrorCode) :
    TimerFrame c (doFinish c err) := by
  cases err <;> exact timerFrame_setExpiry c (.inr rfl)

theorem timerFrame_handleReadResponseHeader (c : Client P Q)
    (r : Except Q.ErrorCode (List Byte)) : TimerFrame c (handleReadResponseHeader c r) := by
  unfold handleReadResponseHeader
  split
  · exact timerFrame_setExpiry c (.inr rfl)
  · split
    · exact (timerFrame_setExpiry c (.inr rfl)).trans (timerFrame_setExpiry _ (.inl rfl))
    · exact (timerFrame_setExpiry c (.inr rfl)).trans (timerFrame_doFinish _ _)

/-- A handler that ends on an error keeps the state armed. -/
theorem Armed.fail {c : Client P Q} (hc : Armed c) (err : Q.ErrorCode) :
    Armed { c with op := none, status := some err } :=
  ⟨hc.expiry_ne, hc.wait_ne, fun h => ⟨(hc.closed h).1, .inr ⟨rfl, nofun⟩⟩⟩

/-- Every handler but `handle_resolve` runs on an open socket, which it leaves
open, with an expiry to come and a wait outstanding. -/
theorem Armed.frame {c r : Client P Q} (hc : Armed c) (ho : c.socketOpen = true)
    (h : TimerFrame c r) : Armed r :=
  .of_open (h.1.trans ho) (by rcases h.2.1 with h | h <;> rw [h] <;> nofun) (h.2.2 hc.wait_ne)

/-- While an operation other than the resolve is pending, an armed client's
socket is open. -/
theorem Armed.socketOpen {c : Client P Q} (hc : Armed c) {o : ClientOp} (ho : c.op = some o)
    (hne : o ≠ .resolve) : c.socketOpen = true := by
  by_contra hs
  rcases (hc.closed (by simpa using hs)).2 with h | ⟨h, -⟩ <;> rw [ho] at h
  · exact hne (Option.some.inj h)
  · cases h

/-- **Every step but the clock's and a failed `open` keeps the state armed.** -/
theorem armed_step {c c' : Client P Q} (hc : Armed c) {e : ClientEvent Q.ErrorCode}
    (he : e ≠ .expired) (hopen : e ≠ .resolved none false) (h : c.step e = some c') : Armed c' := by
  cases e with
  | resolved err opened =>
    obtain ⟨-, rfl⟩ := step_eq_some h
    cases err
    · cases opened
      · exact absurd rfl hopen
      · exact .of_open rfl nofun (wait_setExpiry_ne hc.wait_ne .later)
    · exact hc.fail _
  | connected err =>
    obtain ⟨ho, -, rfl⟩ := step_eq_some h
    exact hc.frame (hc.socketOpen ho nofun) (timerFrame_handleConnect _ err)
  | requestWritten err =>
    obtain ⟨ho, rfl⟩ := step_eq_some h
    exact hc.frame (hc.socketOpen ho nofun) (timerFrame_handleWriteRequest _ err)
  | headerRead r =>
    obtain ⟨ho, -, rfl⟩ := step_eq_some h
    exact hc.frame (hc.socketOpen ho nofun) (timerFrame_handleReadResponseHeader _ _)
  | countsRead r =>
    rcases r with err | bytes
    · obtain ⟨ho, rfl⟩ := step_eq_some h
      exact hc.frame (hc.socketOpen ho nofun) (timerFrame_doFinish _ _)
    · obtain ⟨ho, -, rfl⟩ := step_eq_some h
      exact hc.frame (hc.socketOpen ho nofun) (timerFrame_doFinish _ _)
  | expired => exact absurd rfl he
  | waitCompleted => exact absurd (step_eq_some h).1.2 hc.expiry_ne
  | deadlineChecked =>
    obtain ⟨hw, rfl⟩ := step_eq_some h
    have ho : c.socketOpen = true := by
      by_contra hs
      exact absurd ((hc.closed (by simpa using hs)).1.symm.trans hw) nofun
    simp only [checkDeadline, ho, if_true, if_neg hc.expiry_ne]
    exact .of_open rfl hc.expiry_ne nofun

/-- A property that every step by an event of a kind keeps holds after every
run of such events. -/
theorem run_invariant {I : Client P Q → Prop} {S : ClientEvent Q.ErrorCode → Prop}
    (hstep : ∀ {c c' : Client P Q} {e}, I c → S e → c.step e = some c' → I c') :
    ∀ {evs : List (ClientEvent Q.ErrorCode)} {c c' : Client P Q}, I c → (∀ e ∈ evs, S e) →
      c.run evs = some c' → I c'
  | [], _, _, hc, _, h => by cases h; exact hc
  | e :: evs, _, _, hc, hS, h => by
    obtain ⟨c₁, h₁, h₂⟩ := Option.bind_eq_some.mp h
    exact run_invariant hstep (hstep hc (hS e (List.mem_cons_self _ _)) h₁)
      (fun e' he' => hS e' (List.mem_cons_of_mem _ he')) h₂

/-- The state after the `open` inside `async_connect` failed: the socket stays
closed, and the client waits on the connect or on nothing. -/
structure Unopened (c : Client P Q) : Prop where
  closed : c.socketOpen = false
  op : c.op = some .connect ∨ c.op = none

/-- Once the `open` has failed, every step keeps the socket closed: the connect
completes with an error, and nothing else is started. -/
theorem unopened_step {c c' : Client P Q} (hc : Unopened c) {e : ClientEvent Q.ErrorCode}
    (h : c.step e = some c') : Unopened c' := by
  have hop : ∀ {o : ClientOp}, c.op = some o → o = .connect := fun ho =>
    hc.op.elim (fun h' => Option.some.inj (ho.symm.trans h')) fun h' => by rw [ho] at h'; cases h'
  cases e with
  | resolved err opened => cases hop (step_eq_some h).1
  | connected err =>
    obtain ⟨-, hs, rfl⟩ := step_eq_some h
    cases err with
    | none => exact absurd (hs rfl) (by rw [hc.closed]; nofun)
    | some err => exact ⟨hc.closed, .inr rfl⟩
  | requestWritten err => cases hop (step_eq_some h).1
  | headerRead r => cases hop (step_eq_some h).1
  | countsRead r => rcases r with _ | _ <;> cases hop (step_eq_some h).1
  | expired => obtain ⟨-, rfl⟩ := step_eq_some h; exact ⟨hc.closed, hc.op⟩
  | waitCompleted => obtain ⟨-, rfl⟩ := step_eq_some h; exact ⟨hc.closed, hc.op⟩
  | deadlineChecked =>
    obtain ⟨-, rfl⟩ := step_eq_some h
    simp only [checkDeadline, hc.closed, Bool.false_eq_true, if_false]
    exact ⟨rfl, hc.op⟩

/-- **Every run without an expiry keeps the state armed, or leaves it with a
socket that did not open.** -/
theorem armed_or_unopened_run {c c' : Client P Q} (hc : Armed c) {evs : List (ClientEvent Q.ErrorCode)}
    (he : .expired ∉ evs) (h : c.run evs = some c') : Armed c' ∨ Unopened c' := by
  refine run_invariant (I := fun c => Armed c ∨ Unopened c) (S := fun e => e ≠ .expired)
    (fun {_ _ e} hc hS h => ?_) (.inl hc)
    (fun e he' h => he (h ▸ he')) h
  rcases hc with hc | hc
  · by_cases ho : e = .resolved none false
    · subst ho
      obtain ⟨-, rfl⟩ := step_eq_some h
      exact .inr ⟨rfl, .inl rfl⟩
    · exact .inl (armed_step hc hS ho h)
  · exact .inr (unopened_step hc h)

/-- Two clients with the same request: header, fields, `n_intervals` and
offsets, which no member function changes. -/
def SameRequest (c r : Client P Q) : Prop :=
  r.reqHdr = c.reqHdr ∧ r.req = c.req ∧ r.nIntervals = c.nIntervals ∧ r.offsets = c.offsets

theorem SameRequest.trans {a b c : Client P Q} (h₁ : SameRequest a b) (h₂ : SameRequest b c) :
    SameRequest a c :=
  ⟨h₂.1.trans h₁.1, h₂.2.1.trans h₁.2.1, h₂.2.2.1.trans h₁.2.2.1, h₂.2.2.2.trans h₁.2.2.2⟩

/-- `handle_connect` composes the same bytes from the same request and
`req_buf`. -/
theorem composeRequest_congr {c r : Client P Q} (h : SameRequest c r) (hb : r.reqBuf = c.reqBuf) :
    composeRequest r = composeRequest c := by
  obtain ⟨h₁, h₂, h₃, -⟩ := h
  simp only [composeRequest, h₁, h₂, h₃, hb]

/-- The invariant of every run from the client `c₀`: an error is only recorded
once no operation is pending, the request is the one `c₀` was built with, and
it is written at most once, after the connection, as the `req_buf` that
`handle_connect` composes from `c₀` followed by the bytes of `req.offsets`. -/
structure Inv (c₀ c : Client P Q) : Prop where
  busy : c.op ≠ none → c.status = none
  request : SameRequest c₀ c
  sent : (c.sent = [] ∧ c.reqBuf = c₀.reqBuf) ∨
    (composeRequest c₀ = .ok c.reqBuf ∧ c.sent = [c.reqBuf ++ offsetsBytes c.offsets])
  unsent : c.op = some .resolve ∨ c.op = some .connect → c.sent = []

theorem inv_init (reqHdr : P.RequestHeader) (req : P.RequestFields) (nIntervals : U32)
    (offsets : List (U32 × U32)) (reqBuf respBuf : List Byte) (respHdr : P.ResponseHeader) :
    Inv (init reqHdr req nIntervals offsets reqBuf respBuf respHdr : Client P Q)
      (init reqHdr req nIntervals offsets reqBuf respBuf respHdr) :=
  ⟨fun _ => rfl, ⟨rfl, rfl, rfl, rfl⟩, .inl ⟨rfl, rfl⟩, fun _ => rfl⟩

/-- `compose` and `to_chars` write inside `req_buf`, so the request keeps its
size. -/
theorem length_composeRequest {c : Client P Q} (hc : c.reqBuf.length = Q.requestBufSize)
    {buf : List Byte} (h : composeRequest c = .ok buf) : buf.length = Q.requestBufSize := by
  simp only [composeRequest, bind, Except.bind] at h
  split at h
  · cases h
  rename_i hb hcompose
  split at h
  · cases h
  rename_i rb hrequest
  cases h
  have h₁ := Q.compose_le _ _ hcompose
  have h₂ := Q.requestToChars_le _ _ _ _ hrequest
  rw [length_writeAt (by rw [length_writeAt (by omega)]; omega), length_writeAt (by omega), hc]

/-- A handler that keeps the request, and records an error only when it starts
no operation, keeps the invariant and what was written. -/
theorem Inv.keep {c₀ c r : Client P Q} (hc : Inv c₀ c) (hbusy : c.op ≠ none)
    (hreq : SameRequest c r ∧ r.reqBuf = c.reqBuf ∧ r.sent = c.sent)
    (hop : r.op = none ∨ (r.status = c.status ∧ r.op ≠ some .resolve ∧
      (r.op = some .connect → c.op = some .resolve))) : Inv c₀ r ∧ c.sent <+: r.sent := by
  refine ⟨⟨fun h => ?_, hc.request.trans hreq.1, ?_, fun h => ?_⟩, hreq.2.2 ▸ List.prefix_refl _⟩
  · rcases hop with hop | ⟨hs, -⟩
    · exact absurd hop h
    · rw [hs]; exact hc.busy hbusy
  · rw [hreq.2.1, hreq.2.2, hreq.1.2.2.2]; exact hc.sent
  · rw [hreq.2.2]
    rcases hop with hop | ⟨-, hres, hcon⟩
    · rcases h with h | h <;> rw [hop] at h <;> cases h
    · exact hc.unsent (h.imp (absurd · hres) hcon |>.elim id .inl)

/-- The timer's events and `check_deadline` touch neither the request nor the
status. -/
theorem Inv.timer {c₀ c r : Client P Q} (hc : Inv c₀ c) (hop : r.op = c.op)
    (hs : r.status = c.status) (hreq : SameRequest c r ∧ r.reqBuf = c.reqBuf ∧ r.sent = c.sent) :
    Inv c₀ r ∧ c.sent <+: r.sent :=
  ⟨⟨hop ▸ hs ▸ hc.busy, hc.request.trans hreq.1,
    by rw [hreq.2.1, hreq.2.2, hreq.1.2.2.2]; exact hc.sent, hop ▸ hreq.2.2 ▸ hc.unsent⟩,
    hreq.2.2 ▸ List.prefix_refl _⟩

/-- **Every step keeps the invariant**, and adds to what was written. -/
theorem inv_step {c₀ c c' : Client P Q} (hc : Inv c₀ c) {e : ClientEvent Q.ErrorCode}
    (h : c.step e = some c') : Inv c₀ c' ∧ c.sent <+: c'.sent := by
  have same : ∀ {r : Client P Q}, r.reqHdr = c.reqHdr → r.req = c.req → r.nIntervals = c.nIntervals →
      r.offsets = c.offsets → r.reqBuf = c.reqBuf → r.sent = c.sent →
      SameRequest c r ∧ r.reqBuf = c.reqBuf ∧ r.sent = c.sent :=
    fun h₁ h₂ h₃ h₄ h₅ h₆ => ⟨⟨h₁, h₂, h₃, h₄⟩, h₅, h₆⟩
  cases e with
  | resolved err opened =>
    obtain ⟨ho, rfl⟩ := step_eq_some h
    cases err
    · exact hc.keep (by simp [ho]) (same rfl rfl rfl rfl rfl rfl) (.inr ⟨rfl, nofun, fun _ => ho⟩)
    · exact hc.keep (by simp [ho]) (same rfl rfl rfl rfl rfl rfl) (.inl rfl)
  | connected err =>
    obtain ⟨ho, -, rfl⟩ := step_eq_some h
    have hbusy : c.op ≠ none := by simp [ho]
    unfold handleConnect
    split
    · exact hc.keep hbusy (same rfl rfl rfl rfl rfl rfl) (.inl rfl)
    · exact hc.keep hbusy (same rfl rfl rfl rfl rfl rfl) (.inl rfl)
    · rename_i buf hbuf
      have hnil := hc.unsent (.inr ho)
      have hb : c.reqBuf = c₀.reqBuf := by
        rcases hc.sent with ⟨-, h⟩ | ⟨-, h⟩
        · exact h
        · rw [hnil] at h; cases h
      refine ⟨⟨fun _ => hc.busy hbusy, hc.request.trans ⟨rfl, rfl, rfl, rfl⟩, .inr ⟨?_, ?_⟩, nofun⟩,
        List.prefix_append _ _⟩
      · show composeRequest c₀ = .ok buf
        rw [← hbuf]
        exact (composeRequest_congr (hc.request.trans ⟨rfl, rfl, rfl, rfl⟩) hb).symm
      · simp [setExpiry, hnil]
  | requestWritten err =>
    obtain ⟨ho, rfl⟩ := step_eq_some h
    cases err
    · exact hc.keep (by simp [ho]) (same rfl rfl rfl rfl rfl rfl) (.inr ⟨rfl, nofun, nofun⟩)
    · exact hc.keep (by simp [ho]) (same rfl rfl rfl rfl rfl rfl) (.inl rfl)
  | headerRead r =>
    obtain ⟨ho, -, rfl⟩ := step_eq_some h
    unfold handleReadResponseHeader
    split
    · exact hc.keep (by simp [ho]) (same rfl rfl rfl rfl rfl rfl) (.inl rfl)
    · split
      · exact hc.keep (by simp [ho]) (same rfl rfl rfl rfl rfl rfl) (.inr ⟨rfl, nofun, nofun⟩)
      · exact hc.keep (by simp [ho]) (same rfl rfl rfl rfl rfl rfl) (.inl rfl)
  | countsRead r =>
    rcases r with err | bytes
    · obtain ⟨ho, rfl⟩ := step_eq_some h
      exact hc.keep (by simp [ho]) (same rfl rfl rfl rfl rfl rfl) (.inl rfl)
    · obtain ⟨ho, -, rfl⟩ := step_eq_some h
      exact hc.keep (by simp [ho]) (same rfl rfl rfl rfl rfl rfl) (.inl rfl)
  | expired =>
    obtain ⟨-, rfl⟩ := step_eq_some h
    exact hc.timer rfl rfl (same rfl rfl rfl rfl rfl rfl)
  | waitCompleted =>
    obtain ⟨-, rfl⟩ := step_eq_some h
    exact hc.timer rfl rfl (same rfl rfl rfl rfl rfl rfl)
  | deadlineChecked =>
    obtain ⟨-, rfl⟩ := step_eq_some h
    unfold checkDeadline
    split
    · split <;> exact hc.timer rfl rfl (same rfl rfl rfl rfl rfl rfl)
    · exact hc.timer rfl rfl (same rfl rfl rfl rfl rfl rfl)

/-- **Every run keeps the invariant.** -/
theorem inv_run {c₀ c c' : Client P Q} (hc : Inv c₀ c) {evs : List (ClientEvent Q.ErrorCode)}
    (h : c.run evs = some c') : Inv c₀ c' :=
  run_invariant (S := fun _ => True) (fun hc _ h => (inv_step hc h).1) hc (fun _ _ => trivial) h

/-! ### The end of a transaction -/

/-- The state `do_finish` leaves after a transaction without error in which the
deadline never expired: nothing pending, no error, the socket open, and a wait
on a timer whose expiry is the maximal time point. -/
structure Hung (c : Client P Q) : Prop where
  op : c.op = none
  status : c.status = none
  socketOpen : c.socketOpen = true
  expiry : c.expiry = .never
  wait_ne : c.wait ≠ .none

/-- From a hung state, only `check_deadline` can run, and it waits again. -/
theorem hung_step {c c' : Client P Q} (hc : Hung c) {e : ClientEvent Q.ErrorCode}
    (h : c.step e = some c') : Hung c' := by
  cases e with
  | deadlineChecked =>
    obtain ⟨-, rfl⟩ := step_eq_some h
    simp only [checkDeadline, hc.socketOpen, hc.expiry, if_true, reduceCtorEq, if_false]
    exact ⟨hc.op, hc.status, rfl, rfl, nofun⟩
  | headerRead r => cases r <;> simp [step, hc.op] at h
  | countsRead r => cases r <;> simp [step, hc.op] at h
  | _ => simp [step, hc.op, hc.expiry] at h

theorem hung_run {c c' : Client P Q} (hc : Hung c) {evs : List (ClientEvent Q.ErrorCode)}
    (h : c.run evs = some c') : Hung c' :=
  run_invariant (S := fun _ => True) (fun hc _ h => hung_step hc h) hc (fun _ _ => trivial) h

/-- **A completed transaction leaves `io_context.run()` waiting forever.** On
every run from the constructor in which the deadline has not expired, the counts read that completes without
error ends the transaction with no error recorded. From then on, whatever
happens, the client is never idle and its status stays clear: `run()` never
returns. -/
theorem run_done_hangs (reqHdr : P.RequestHeader) (req : P.RequestFields) (nIntervals : U32)
    (offsets : List (U32 × U32)) (reqBuf respBuf : List Byte) (respHdr : P.ResponseHeader)
    {evs : List (ClientEvent Q.ErrorCode)}
    {c c' : Client P Q} (h : (init reqHdr req nIntervals offsets reqBuf respBuf respHdr).run evs = some c)
    (he : .expired ∉ evs) {bytes : List Byte} (hc : c.step (.countsRead (.ok bytes)) = some c') :
    c'.status = none ∧
      ∀ evs' c'', c'.run evs' = some c'' → ¬ c''.Idle ∧ c''.status = none := by
  obtain ⟨ho, -, rfl⟩ := step_eq_some hc
  have harmed : Armed c :=
    (armed_or_unopened_run (armed_init reqHdr req nIntervals offsets reqBuf respBuf respHdr) he h).resolve_right
      fun hu => by rcases hu.op with h' | h' <;> rw [ho] at h' <;> cases h'
  have hinv := inv_run (inv_init reqHdr req nIntervals offsets reqBuf respBuf respHdr) h
  have hung : Hung (doFinish { c with op := none, counts := writeAt c.counts 0 bytes } none) :=
    ⟨rfl, hinv.busy (by simp [ho]), harmed.socketOpen ho nofun, rfl,
      wait_setExpiry_ne harmed.wait_ne .never⟩
  exact ⟨hung.status, fun _ _ hr => ⟨fun hi => (hung_run hung hr).wait_ne hi.2, (hung_run hung hr).status⟩⟩

/-- A request for no offsets, answered in time: the transaction completes, and
`run()` never returns. -/
theorem run_done_hangs_empty :
    ∃ c c', (init () () 0 [] [0, 0] [0] false : Client byteProtocol byteClient).run
        [.resolved none true, .connected none, .requestWritten none, .headerRead (.ok [0])] = some c ∧
      c.step (.countsRead (.ok [])) = some c' ∧
      (c'.status = none ∧ ∀ evs' c'', c'.run evs' = some c'' → ¬ c''.Idle ∧ c''.status = none) :=
  ⟨_, _, rfl, rfl, @run_done_hangs byteProtocol byteClient () () 0 [] [0, 0] [0] false
    [.resolved none true, .connected none, .requestWritten none, .headerRead (.ok [0])] _ _ rfl (by simp) [] rfl⟩

end Client

end Mxe
