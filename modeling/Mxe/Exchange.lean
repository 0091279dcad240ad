import Mxe.Client

/-!
# A lookup over one socket

`lookup_client_main` runs an `mc16_client` against a server, where one
`connection` serves it. The client writes `req_buf` and then the offsets. The
connection reads the buffer, parses a request header and a request from it, and
reads the offsets. It answers with `resp_buf` and then the counts, which the
client reads. Here the two state machines of `Mxe.Client` and `Mxe.Conn` run side
by side over one socket, which carries each party's bytes to the other in order,
without loss or duplication. A step is any completion of either party, in any
interleaving. Every operation may fail at any time. A read completes with bytes
only once the peer has written them, and the bytes it gets are the next ones the
peer wrote.

This settles what the server's `handle_get_counts` is handed. In every state of
every exchange, it sees the first `get_offsets_n_bytes()` bytes of the offsets the
client wrote, followed by zero bytes (`Mxe.Exchange.reachable_counted`). It never
sees a byte the client did not send, nor one out of place, whatever
`n_intervals` the server parsed. Take the request `lookup_client_main` builds,
with `n_intervals = static_cast<uint32_t>(size(offsets))`, over codecs that read
back what they wrote. Below `2 ^ 29` offsets that prefix is all of them. From
`2 ^ 29` on it is the first `8 · size(offsets) mod 2 ^ 32` bytes, and the rest of
the counts are those of zero offsets (`Mxe.Exchange.reachable_counted_lookup`).
-/

namespace Mxe

/-- Whether a completion of the connection reports bytes read from the socket. -/
def Event.transfers : Event → Bool
  | .requestRead (some _) => true
  | .offsetsRead (some _) => true
  | _ => false

/-- Whether a completion of the client reports bytes read from the socket. -/
def ClientEvent.transfers {E : Type} : ClientEvent E → Bool
  | .headerRead (.ok _) => true
  | .countsRead (.ok _) => true
  | _ => false

/-- The bytes a write of the connection carries. -/
def Write.bytes : Write → List Byte
  | .header b => b
  | .counts b => b
  | .error b => b

section Server

variable {P : Protocol}

/-- What a completion of the connection can be: the handler of the read it
waits on, or of a write. -/
theorem step_eq_some {c c' : Conn P} {e : Event} (h : step c e = some c') :
    match e with
    | .requestRead r => c.phase = .readingRequest ∧ readRequestDone c r = some c'
    | .offsetsRead r => c.phase = .readingOffsets ∧ readOffsetsDone c r = some c'
    | .written ok => writeDone c ok = some c' := by
  cases e <;> simpa only [step, Option.ite_none_right_eq_some] using h

/-- A completion of the connection that reads nothing from the socket keeps the
request side and leaves the reading phases. -/
theorem step_frame {c c' : Conn P} {e : Event} (he : e.transfers = false)
    (h : step c e = some c') : KeepsRequest c c' ∧ ¬c'.phase.Reading := by
  cases e with
  | requestRead r =>
    rcases r with _ | _
    · obtain ⟨-, h⟩ := step_eq_some h
      cases h
      simp [KeepsRequest, Phase.Reading]
    · cases he
  | offsetsRead r =>
    rcases r with _ | _
    · obtain ⟨-, h⟩ := step_eq_some h
      cases h
      exact respondWithError_frame c
    · cases he
  | written ok =>
    have h := step_eq_some h
    simp only [writeDone] at h
    split at h <;> cases h
    · split <;> simp [KeepsRequest, respondWithCounts, Phase.Reading]
    all_goals simp [KeepsRequest, Phase.Reading]

end Server

/-- The prefix of a list that is a prefix of another is the same in both. -/
theorem take_stable {l l' : List Byte} (h : l <+: l') {n : ℕ} (hn : n ≤ l.length) :
    l'.take n = l.take n := by
  obtain ⟨t, rfl⟩ := h
  exact List.take_append_of_le_length hn

/-- A client, the connection that serves it, and how many bytes each has read
of what the other wrote. -/
structure Exchange (P : Protocol) (Q : ClientSide P) where
  /-- The client. -/
  client : Client P Q
  /-- The connection. -/
  server : Conn P
  /-- How many of the bytes the client wrote the connection has read. -/
  upRead : ℕ
  /-- How many of the bytes the connection wrote the client has read. -/
  downRead : ℕ

namespace Exchange

variable {P : Protocol} {Q : ClientSide P}

/-- The bytes the client has written on the socket, in order. -/
def up (x : Exchange P Q) : List Byte := x.client.sent.flatten

/-- The bytes the connection has written on the socket, in order. -/
def down (x : Exchange P Q) : List Byte := (x.server.writes.map Write.bytes).flatten

/-- One step of the exchange: a completion of either party. A completion that
reports bytes gets the next bytes the peer wrote; `async_read` of a request
buffer completes with `request_buf_size` of them, and `async_read_some` with as
many as the connection's guard allows. -/
inductive Step : Exchange P Q → Exchange P Q → Prop
  /-- The client handles a completion that reads nothing. -/
  | client {x : Exchange P Q} {c : Client P Q} (e : ClientEvent Q.ErrorCode)
      (he : e.transfers = false) (h : x.client.step e = some c) : Step x { x with client := c }
  /-- The client's read of `resp_buf` completes with the next `n` bytes. -/
  | headerRead {x : Exchange P Q} {c : Client P Q} {n : ℕ} (hn : x.downRead + n ≤ x.down.length)
      (h : x.client.step (.headerRead (.ok ((x.down.drop x.downRead).take n))) = some c) :
      Step x { x with client := c, downRead := x.downRead + n }
  /-- The client's read of the counts completes with the next `n` bytes. -/
  | countsRead {x : Exchange P Q} {c : Client P Q} {n : ℕ} (hn : x.downRead + n ≤ x.down.length)
      (h : x.client.step (.countsRead (.ok ((x.down.drop x.downRead).take n))) = some c) :
      Step x { x with client := c, downRead := x.downRead + n }
  /-- The connection handles a completion that reads nothing. -/
  | server {x : Exchange P Q} {s : Conn P} (e : Event) (he : e.transfers = false)
      (h : step x.server e = some s) : Step x { x with server := s }
  /-- The connection's read of the request buffer completes with the next
  `request_buf_size` bytes. -/
  | requestRead {x : Exchange P Q} {s : Conn P} (hn : x.upRead + Q.requestBufSize ≤ x.up.length)
      (h : step x.server (.requestRead (some ((x.up.drop x.upRead).take Q.requestBufSize))) = some s) :
      Step x { x with server := s, upRead := x.upRead + Q.requestBufSize }
  /-- The connection's `async_read_some` of offsets completes with the next `n`
  bytes. -/
  | offsetsRead {x : Exchange P Q} {s : Conn P} {n : ℕ} (hn : x.upRead + n ≤ x.up.length)
      (h : step x.server (.offsetsRead (some ((x.up.drop x.upRead).take n))) = some s) :
      Step x { x with server := s, upRead := x.upRead + n }

/-- The exchange between a client and a connection that have not started, with
nothing read. -/
def init (c : Client P Q) (s : Conn P) : Exchange P Q := ⟨c, s, 0, 0⟩

/-- The states an exchange reaches from its start. -/
def Reachable (x₀ x : Exchange P Q) : Prop := Relation.ReflTransGen Step x₀ x

/-! ### The request stream -/

/-- The connection has read `req_buf`'s worth and then the offsets it received. -/
def Consumed (x : Exchange P Q) : Prop :=
  x.upRead = Q.requestBufSize + x.server.received.length ∧
    x.up.take x.upRead = x.up.take Q.requestBufSize ++ x.server.received

/-- The bytes the connection has read from the client: none while it waits on
the request, and otherwise none or `req_buf`'s worth and then the offsets; once
it has read offsets or counted, the request buffer held a request whose
header and fields the connection took. -/
structure UpInv (x : Exchange P Q) : Prop where
  le : x.upRead ≤ x.up.length
  fresh : x.server.phase = .readingRequest → x.upRead = 0
  consumed : (x.upRead = 0 ∧ x.server.received = []) ∨ Consumed x
  parsed : x.server.phase = .readingOffsets ∨ x.server.counted ≠ [] → Consumed x ∧
    ∃ k, P.headerFromChars (x.up.take Q.requestBufSize) = some (x.server.reqHdr, k) ∧
      P.requestFromChars ((x.up.take Q.requestBufSize).drop k) = some (x.server.req, x.server.nIntervals)

/-- The client only adds to what it wrote, so what the connection has read
stays as it was. -/
theorem UpInv.of_grows {x x' : Exchange P Q} (hx : UpInv x) (hup : x.up <+: x'.up)
    (hs : x'.server = x.server) (hr : x'.upRead = x.upRead) : UpInv x' := by
  have hc : Consumed x → Consumed x' := fun ⟨h₁, h₂⟩ => by
    have := hx.le
    refine ⟨hr ▸ hs ▸ h₁, ?_⟩
    rw [hr, hs, take_stable hup hx.le, take_stable hup (by omega), h₂]
  refine ⟨hr ▸ hx.le.trans hup.length_le, hr ▸ hs ▸ hx.fresh, ?_, fun h => ?_⟩
  · rw [hr, hs]
    exact hx.consumed.imp_right hc
  · rw [hs] at h
    obtain ⟨hcons, hp⟩ := hx.parsed h
    refine ⟨hc hcons, ?_⟩
    rw [hs, take_stable hup (by have := hx.le; have := hcons.1; omega)]
    exact hp

/-- A completion of the connection that reads nothing keeps what it has read. -/
theorem UpInv.server {x : Exchange P Q} (hx : UpInv x) {s : Conn P}
    (hk : KeepsRequest x.server s) (hp : ¬s.phase.Reading) : UpInv { x with server := s } where
  le := hx.le
  fresh h := absurd (.inl h) hp
  consumed := by
    rcases hx.consumed with h | ⟨h₁, h₂⟩
    · exact .inl (hk.1 ▸ h)
    · exact .inr ⟨hk.1 ▸ h₁, hk.1 ▸ h₂⟩
  parsed h := by
    obtain ⟨hr, hc, hn, hh, hq⟩ := hk
    have hne : x.server.counted ≠ [] := hc ▸ h.resolve_left fun h => hp (.inr h)
    obtain ⟨⟨h₁, h₂⟩, k, hk₁, hk₂⟩ := hx.parsed (.inr hne)
    exact ⟨⟨hr ▸ h₁, hr ▸ h₂⟩, k, hh ▸ hk₁, hq ▸ hn ▸ hk₂⟩

/-! ### The invariant of every exchange -/

/-- The invariant of every exchange from the client `c₀` and a connection whose
`resp_buf` started as `b`: each party keeps its own invariant, and the
connection has read what `Mxe.Exchange.UpInv` says. -/
structure Inv (c₀ : Client P Q) (b : List Byte) (x : Exchange P Q) : Prop where
  client : Client.Inv c₀ x.client
  server : ConnInv b x.server
  up : UpInv x

theorem inv_init (reqHdr : P.RequestHeader) (req : P.RequestFields) (nIntervals : U32)
    (offsets : List (U32 × U32)) (reqBuf respBuf : List Byte) (respHdr : P.ResponseHeader)
    (sReqHdr : P.RequestHeader) (sReq : P.RequestFields) (sRespHdr : P.ResponseHeader)
    (sResp : P.Response) (b : List Byte) :
    Inv (Client.init reqHdr req nIntervals offsets reqBuf respBuf respHdr) b
      (init (Client.init reqHdr req nIntervals offsets reqBuf respBuf respHdr : Client P Q)
        (Conn.init sReqHdr sReq sRespHdr sResp b)) :=
  ⟨Client.inv_init _ _ _ _ _ _ _, connInv_init _ _ _ _ _,
    ⟨Nat.zero_le _, fun _ => rfl, .inl ⟨rfl, rfl⟩, fun h => by simp [init, Conn.init] at h⟩⟩

theorem flatten_grows {l l' : List (List Byte)} (h : l <+: l') : l.flatten <+: l'.flatten := by
  obtain ⟨t, rfl⟩ := h
  rw [List.flatten_append]
  exact List.prefix_append _ _

/-- A step of the client keeps the invariant, whatever it has read of the
connection's bytes. -/
theorem Inv.client_step {c₀ : Client P Q} {b : List Byte} {x : Exchange P Q} (hx : Inv c₀ b x)
    {c : Client P Q} {e : ClientEvent Q.ErrorCode} (h : x.client.step e = some c) (d : ℕ) :
    Inv c₀ b { x with client := c, downRead := d } := by
  obtain ⟨hc, hp⟩ := Client.inv_step hx.client h
  exact ⟨hc, hx.server, hx.up.of_grows (flatten_grows hp) rfl rfl⟩

/-- **Every step keeps the invariant.** -/
theorem inv_step {c₀ : Client P Q} {b : List Byte} {x x' : Exchange P Q} (hx : Inv c₀ b x)
    (h : Step x x') : Inv c₀ b x' := by
  cases h with
  | client e he h => exact hx.client_step h _
  | headerRead hn h => exact hx.client_step h _
  | countsRead hn h => exact hx.client_step h _
  | server e he h =>
    obtain ⟨hk, hp⟩ := step_frame he h
    exact ⟨hx.client, connInv_step hx.server h, hx.up.server hk hp⟩
  | @requestRead s hn h =>
    have hs := connInv_step hx.server h
    obtain ⟨hp, h⟩ := step_eq_some h
    obtain ⟨hr, hcnt, hph, hparse⟩ := readRequestDone_frame h
    have h0 := hx.up.fresh hp
    have hrec : x.server.received = [] :=
      List.length_eq_zero.mp (hx.server.length_received.trans (hx.server.fresh hp))
    have hcons : Consumed { x with server := s, upRead := x.upRead + Q.requestBufSize } :=
      ⟨by simp [hr, hrec, h0], by simp [hr, hrec, h0]⟩
    refine ⟨hx.client, hs, hn, fun h => absurd h hph, .inr hcons, fun h => ⟨hcons, ?_⟩⟩
    have hcount : x.server.counted = [] := (hx.server.reading (.inl hp)).1
    obtain ⟨buf, hbuf, hp'⟩ := hparse (h.resolve_right fun h => h (hcnt.trans hcount))
    rw [h0, List.drop_zero, Option.some.injEq] at hbuf
    exact hbuf ▸ hp'
  | @offsetsRead s n hn h =>
    have hs := connInv_step hx.server h
    obtain ⟨hp, h⟩ := step_eq_some h
    obtain ⟨hr, hn', hh, hq, hph⟩ := readOffsetsDone_frame h
    obtain ⟨⟨h₁, h₂⟩, hparse⟩ := hx.up.parsed (.inl hp)
    have hlen : ((x.up.drop x.upRead).take n).length = n :=
      List.length_take_of_le (by rw [List.length_drop]; omega)
    have hcons : Consumed { x with server := s, upRead := x.upRead + n } := by
      refine ⟨show x.upRead + n = Q.requestBufSize + s.received.length from ?_,
        show x.up.take (x.upRead + n) = x.up.take Q.requestBufSize ++ s.received from ?_⟩
      · rw [hr, List.length_append, hlen, h₁]
        omega
      · rw [hr, List.take_add, h₂, List.append_assoc]
    obtain ⟨k, hk₁, hk₂⟩ := hparse
    exact ⟨hx.client, hs, hn, fun h => absurd h hph, .inr hcons,
      fun _ => ⟨hcons, k, hh ▸ hk₁, hq ▸ hn' ▸ hk₂⟩⟩

/-- **Every reachable state keeps the invariant.** -/
theorem inv_reachable {c₀ : Client P Q} {b : List Byte} {x₀ x : Exchange P Q} (h₀ : Inv c₀ b x₀)
    (h : Reachable x₀ x) : Inv c₀ b x := by
  induction h with
  | refl => exact h₀
  | tail _ hs ih => exact inv_step ih hs

/-! ### What the connection counts -/

section Counted

variable {c₀ : Client P Q} {b : List Byte} {x : Exchange P Q}

/-- The bytes on the wire: none, or the `req_buf` that `handle_connect`
composed, of `request_buf_size` bytes, and then the client's offsets. -/
theorem Inv.up_eq (hx : Inv c₀ b x) (h₀ : c₀.reqBuf.length = Q.requestBufSize) :
    x.up = [] ∨ (Client.composeRequest c₀ = .ok x.client.reqBuf ∧
      x.up = x.client.reqBuf ++ offsetsBytes c₀.offsets ∧
      x.client.reqBuf.length = Q.requestBufSize) := by
  rcases hx.client.sent with ⟨h, -⟩ | ⟨hc, h⟩
  · exact .inl (by rw [Exchange.up, h]; rfl)
  · refine .inr ⟨hc, ?_, Client.length_composeRequest h₀ hc⟩
    rw [Exchange.up, h, List.flatten_singleton, hx.client.request.2.2.2]

/-- The offset bytes the connection has received are the first ones of the
client's offsets. -/
theorem Inv.received_eq (hx : Inv c₀ b x) (h₀ : c₀.reqBuf.length = Q.requestBufSize) :
    x.server.received = (offsetsBytes c₀.offsets).take x.server.received.length := by
  rcases hx.up.consumed with ⟨-, h⟩ | ⟨h₁, h₂⟩
  · rw [h]; rfl
  have hle := hx.up.le
  rcases hx.up_eq h₀ with hup | ⟨-, hup, hlen⟩
  · rw [hup, List.length_nil] at hle
    rw [List.length_eq_zero.mp (show x.server.received.length = 0 by omega)]
    rfl
  · rw [h₁, hup, ← hlen, List.take_append, List.take_left' rfl] at h₂
    exact (List.append_cancel_left h₂).symm

/-- Each call of `handle_get_counts` sees the first `get_offsets_n_bytes()`
bytes of the client's offsets, and then zero bytes. -/
theorem Inv.counted_eq (hx : Inv c₀ b x) (h₀ : c₀.reqBuf.length = Q.requestBufSize) :
    ∀ o ∈ x.server.counted, getOffsetsNBytes x.server.nIntervals.val ≤ 8 * c₀.offsets.length ∧
      o = (offsetsBytes c₀.offsets).take (getOffsetsNBytes x.server.nIntervals.val) ++
        List.replicate (8 * x.server.nIntervals.val - getOffsetsNBytes x.server.nIntervals.val) 0 := by
  intro o ho
  rcases hx.server.counted with h | ⟨h, hrem⟩
  · rw [h] at ho; cases ho
  rw [h, List.mem_singleton] at ho
  have hbyte : x.server.offsetByte = getOffsetsNBytes x.server.nIntervals.val := by
    have := hx.server.sum
    omega
  have hrec := hx.received_eq h₀
  rw [hx.server.length_received, hbyte] at hrec
  have hlen := congrArg List.length hrec
  rw [List.length_take, length_offsetsBytes, hx.server.length_received, hbyte] at hlen
  refine ⟨by omega, ?_⟩
  rw [ho, hx.server.offsets_eq, hrec, hbyte]

/-- Once the connection has counted, the `request_buf_size` bytes it read are
the `req_buf` that `handle_connect` composed. -/
theorem Inv.take_up (hx : Inv c₀ b x) (h₀ : c₀.reqBuf.length = Q.requestBufSize) {buf : List Byte}
    (hbuf : Client.composeRequest c₀ = .ok buf) (hc : x.server.counted ≠ []) :
    x.up.take Q.requestBufSize = buf := by
  have h₁ := (hx.up.parsed (.inr hc)).1.1
  have hle := hx.up.le
  rcases hx.up_eq h₀ with hup | ⟨hcomp, hup, hlen⟩
  · rw [hup, List.length_nil] at hle
    rw [hup, List.take_nil]
    exact (List.length_eq_zero.mp (by rw [Client.length_composeRequest h₀ hbuf]; omega)).symm
  · rw [hup, List.take_left' hlen]
    exact Except.ok.inj (hcomp.symm.trans hbuf)

/-- With codecs that read back the request `handle_connect` composes, the
connection counts with the request header, the fields and the `n_intervals`
they read from it. -/
theorem Inv.parsed_eq (hx : Inv c₀ b x) (h₀ : c₀.reqBuf.length = Q.requestBufSize)
    {buf : List Byte} {hdr : P.RequestHeader} {k : ℕ} {fields : P.RequestFields} {n : U32}
    (hbuf : Client.composeRequest c₀ = .ok buf) (hhdr : P.headerFromChars buf = some (hdr, k))
    (hreq : P.requestFromChars (buf.drop k) = some (fields, n)) (hc : x.server.counted ≠ []) :
    x.server.reqHdr = hdr ∧ x.server.req = fields ∧ x.server.nIntervals = n := by
  obtain ⟨-, k', hh, hr⟩ := hx.up.parsed (.inr hc)
  rw [hx.take_up h₀ hbuf hc, hhdr, Option.some.injEq, Prod.mk.injEq] at hh
  obtain ⟨rfl, rfl⟩ := hh
  rw [hx.take_up h₀ hbuf hc, hreq, Option.some.injEq, Prod.mk.injEq] at hr
  exact ⟨rfl, hr.1.symm, hr.2.symm⟩

/-- With codecs that read back the request `handle_connect` composes, the
connection counts with the client's `n_intervals`. -/
theorem Inv.nIntervals_eq (hx : Inv c₀ b x) (h₀ : c₀.reqBuf.length = Q.requestBufSize)
    (hcodec : ∃ buf, Client.composeRequest c₀ = .ok buf ∧ ∃ hdr k fields,
      P.headerFromChars buf = some (hdr, k) ∧ P.requestFromChars (buf.drop k) = some (fields, c₀.nIntervals))
    (hc : x.server.counted ≠ []) : x.server.nIntervals = c₀.nIntervals := by
  obtain ⟨buf, hbuf, hdr, k, fields, hh, hr⟩ := hcodec
  exact (hx.parsed_eq h₀ hbuf hh hr hc).2.2

end Counted

/-- **The connection counts a prefix of the client's offsets.** In every state
of every exchange between a client whose `req_buf` has `request_buf_size` bytes
and a fresh connection, each call of `handle_get_counts` sees the first
`get_offsets_n_bytes()` bytes of the offsets the client wrote, then zero bytes up
to `8 · n_intervals`, whatever `n_intervals` the connection parsed; and it never
waits for more bytes than the client sent. -/
theorem reachable_counted (reqHdr : P.RequestHeader) (req : P.RequestFields) (nIntervals : U32)
    (offsets : List (U32 × U32)) {reqBuf : List Byte} (hb : reqBuf.length = Q.requestBufSize)
    (respBuf : List Byte) (respHdr : P.ResponseHeader) (sReqHdr : P.RequestHeader)
    (sReq : P.RequestFields) (sRespHdr : P.ResponseHeader) (sResp : P.Response) (b : List Byte)
    {x : Exchange P Q} (h : Reachable (init (Client.init reqHdr req nIntervals offsets reqBuf respBuf respHdr)
      (Conn.init sReqHdr sReq sRespHdr sResp b)) x) :
    ∀ o ∈ x.server.counted, getOffsetsNBytes x.server.nIntervals.val ≤ 8 * offsets.length ∧
      o = (offsetsBytes offsets).take (getOffsetsNBytes x.server.nIntervals.val) ++
        List.replicate (8 * x.server.nIntervals.val - getOffsetsNBytes x.server.nIntervals.val) 0 :=
  (inv_reachable (inv_init reqHdr req nIntervals offsets reqBuf respBuf respHdr sReqHdr sReq sRespHdr
    sResp b) h).counted_eq hb

/-- One offset, `(5, 7)`, sent and counted: the connection sees its eight
bytes. -/
theorem reachable_counted_one :
    ∃ x, Reachable (init (Client.init () () 1 [(5, 7)] [0, 0] [0] false : Client byteProtocol byteClient)
        (Conn.init () () false () [0])) x ∧ x.server.counted = [offsetsBytes [(5, 7)]] ∧
      ∀ o ∈ x.server.counted, getOffsetsNBytes x.server.nIntervals.val ≤ 8 * [((5 : U32), (7 : U32))].length ∧
        o = (offsetsBytes [(5, 7)]).take (getOffsetsNBytes x.server.nIntervals.val) ++
          List.replicate (8 * x.server.nIntervals.val - getOffsetsNBytes x.server.nIntervals.val) 0 := by
  have h₁ : Reachable (init (Client.init () () 1 [(5, 7)] [0, 0] [0] false : Client byteProtocol byteClient)
      (Conn.init () () false () [0])) _ := Relation.ReflTransGen.refl.tail (.client (.resolved none true) rfl rfl)
  have h₂ := h₁.tail (.client (.connected none) rfl rfl)
  have h₃ := h₂.tail (.requestRead (by decide) rfl)
  have h := h₃.tail (.offsetsRead (n := 8) (by decide) rfl)
  exact ⟨_, h, rfl, @reachable_counted byteProtocol byteClient () () 1 [(5, 7)] [0, 0] rfl [0] false
    () () false () [0] _ h⟩

/-- Below `2 ^ 29` offsets, the bytes counted for a lookup's `n_intervals` are
all of the offsets' bytes. -/
theorem lookupOffsets_of_lt {offsets : List (U32 × U32)} (hlt : offsets.length < 2 ^ 29) :
    (offsetsBytes offsets).take (getOffsetsNBytes (offsets.length % 2 ^ 32)) ++
      List.replicate (8 * (offsets.length % 2 ^ 32) - getOffsetsNBytes (offsets.length % 2 ^ 32)) 0 =
      offsetsBytes offsets := by
  rw [Nat.mod_eq_of_lt (by omega : offsets.length < 2 ^ 32), getOffsetsNBytes_of_lt hlt, Nat.sub_self,
    List.replicate_zero, List.append_nil]
  exact List.take_of_length_le (by rw [length_offsetsBytes])

/-- **A lookup's offsets reach `handle_get_counts` below `2 ^ 29` of them.** In
every state of every exchange between the client `lookup_client_main` builds,
with a `req_buf` of `request_buf_size` bytes, and a fresh connection, over codecs
that read back the request `handle_connect` composes, each call of
`handle_get_counts` sees the first `8 · size(offsets) mod 2 ^ 32` bytes of the
offsets, then zero bytes: all of them when there are fewer than `2 ^ 29`. -/
theorem reachable_counted_lookup (reqHdr : P.RequestHeader) (req : P.RequestFields)
    (offsets : List (U32 × U32)) {reqBuf : List Byte} (hb : reqBuf.length = Q.requestBufSize)
    (respBuf : List Byte) (respHdr : P.ResponseHeader) (sReqHdr : P.RequestHeader)
    (sReq : P.RequestFields) (sRespHdr : P.ResponseHeader) (sResp : P.Response) (b : List Byte)
    (hcodec : ∃ buf, Client.composeRequest (Client.lookup reqHdr req offsets reqBuf respBuf respHdr : Client P Q)
      = .ok buf ∧ ∃ hdr k fields, P.headerFromChars buf = some (hdr, k) ∧
        P.requestFromChars (buf.drop k) = some (fields, ⟨offsets.length % 2 ^ 32, Nat.mod_lt _ (by norm_num)⟩))
    {x : Exchange P Q} (h : Reachable (init (Client.lookup reqHdr req offsets reqBuf respBuf respHdr)
      (Conn.init sReqHdr sReq sRespHdr sResp b)) x) :
    ∀ o ∈ x.server.counted,
      o = (offsetsBytes offsets).take (getOffsetsNBytes (offsets.length % 2 ^ 32)) ++
          List.replicate (8 * (offsets.length % 2 ^ 32) - getOffsetsNBytes (offsets.length % 2 ^ 32)) 0 ∧
        (offsets.length < 2 ^ 29 → o = offsetsBytes offsets) := by
  have hx := inv_reachable (inv_init reqHdr req _ offsets reqBuf respBuf respHdr sReqHdr sReq sRespHdr
    sResp b) h
  intro o ho
  have hn : x.server.nIntervals.val = offsets.length % 2 ^ 32 :=
    congrArg Fin.val (hx.nIntervals_eq hb hcodec (List.ne_nil_of_mem ho))
  have ho := (hx.counted_eq hb o ho).2
  rw [hn] at ho
  exact ⟨ho, fun hlt => ho.trans (lookupOffsets_of_lt hlt)⟩

/-- A lookup of one offset, `(5, 7)`, over codecs that read the request back:
the connection counts its eight bytes. -/
theorem reachable_counted_lookup_one :
    ∃ x, Reachable (init (Client.lookup () () [(5, 7)] [0, 0] [0] false : Client byteProtocol byteClient)
        (Conn.init () () false () [0])) x ∧ x.server.counted = [offsetsBytes [(5, 7)]] ∧
      ∀ o ∈ x.server.counted,
        o = (offsetsBytes [(5, 7)]).take (getOffsetsNBytes ([((5 : U32), (7 : U32))].length % 2 ^ 32)) ++
            List.replicate (8 * ([((5 : U32), (7 : U32))].length % 2 ^ 32) -
              getOffsetsNBytes ([((5 : U32), (7 : U32))].length % 2 ^ 32)) 0 ∧
          ([((5 : U32), (7 : U32))].length < 2 ^ 29 → o = offsetsBytes [(5, 7)]) := by
  have h₁ : Reachable (init (Client.lookup () () [(5, 7)] [0, 0] [0] false : Client byteProtocol byteClient)
      (Conn.init () () false () [0])) _ := Relation.ReflTransGen.refl.tail (.client (.resolved none true) rfl rfl)
  have h₂ := h₁.tail (.client (.connected none) rfl rfl)
  have h₃ := h₂.tail (.requestRead (by decide) rfl)
  have h := h₃.tail (.offsetsRead (n := 8) (by decide) rfl)
  exact ⟨_, h, rfl, @reachable_counted_lookup byteProtocol byteClient () () [(5, 7)] [0, 0] rfl [0] false
    () () false () [0] ⟨[1, 1], rfl, (), 1, (), rfl, rfl⟩ _ h⟩

end Exchange

end Mxe
