import Mxe.Exchange

/-!
# The response stream

The other half of a lookup. Once `handle_get_counts` has run, the connection
formats `resp_hdr` into `resp_buf` and writes it, then writes `resp.counts`. On
every error path it writes `resp_buf` as it found it. The client reads
`response_buf_size` bytes into its own `resp_buf` and parses them. It then sizes
`resp.counts` for `n_intervals` counts and reads `get_counts_n_bytes()` bytes
into it.

Two invariants say what each side has done with the bytes that travel towards
the client. `Mxe.Answer` is the connection's: the response it writes is nothing
yet, its initial `resp_buf`, or the header and then the counts that
`handle_get_counts` returned for the request and the offsets it read.
`Mxe.Exchange.DownInv` is the client's: while it reads the counts and once it
has finished, its `resp_buf` holds the first bytes the connection wrote, and its
counts hold the bytes that follow them.

Together with the request stream of `Mxe.Exchange` they give the lookup end to
end. Take codecs that read back the request `handle_connect` composes, and fewer
than `2 ^ 29` offsets. When the client has finished without an error, the counts
it stores are the first `get_counts_n_bytes()` bytes of the counts that the
handler computed for the client's own request header, fields and offsets
(`Mxe.Exchange.reachable_lookup_counts`). The `resp_buf` it parsed is either the
header the connection formatted from the handler's answer, or the connection's
initial `resp_buf`, which every error response carries
(`Mxe.Exchange.reachable_lookup_header`). And such a lookup does finish: when
the connection's header parses and its counts are long enough, some run ends
with the connection closed and the client done, holding that header and those
counts (`Mxe.Exchange.reachable_lookup_done`).

The connection does answer. Take a request whose header and fields parse and
whose header the handler accepts. However its offsets arrive, the run that
reads them and completes the two writes leaves the header and then the counts
written, with `handle_get_counts` run once on the bytes sent
(`Mxe.run_answers`).
-/

namespace Mxe

/-- A protocol for examples whose handler answers with the offsets it was given
as the counts, and is otherwise `Mxe.byteProtocol`. -/
def echoProtocol : Protocol :=
  { byteProtocol with
    Response := List Byte
    handleGetCounts := fun _ _ offsets h _ => (h, offsets)
    countsBytes := id }

/-- `Mxe.byteClient`, over `Mxe.echoProtocol`. -/
def echoClient : ClientSide echoProtocol := { byteClient with }

/-! ### What the connection writes -/

section Server

variable {P : Protocol} (sRespHdr : P.ResponseHeader) (sResp : P.Response) (b : List Byte)

/-- What a connection started with `resp_hdr`, `resp` and `resp_buf` equal to
`sRespHdr`, `sResp` and `b` has formed and written. Until the request is read,
nothing has been formed. While the offsets are read, `resp_hdr` is what
`handle_header` made of the request header. Once `handle_get_counts` has run,
`resp_hdr` and `resp` are what it returned. The writes are none, the error
response `b`, or the formatted header and then the counts. -/
structure Answer (s : Conn P) : Prop where
  request : s.phase = .readingRequest → s.writes = [] ∧ s.respHdr = sRespHdr ∧ s.resp = sResp
  offsets : s.phase = .readingOffsets →
    s.writes = [] ∧ s.respHdr = P.handleHeader s.reqHdr sRespHdr ∧ s.resp = sResp
  counted : s.counted ≠ [] → (s.respHdr, s.resp) =
    P.handleGetCounts s.reqHdr s.req s.offsets (P.handleHeader s.reqHdr sRespHdr) sResp
  header : s.phase = .writingHeader → s.counted ≠ [] ∧ ∃ bytes,
    P.responseToChars s.respHdr = some bytes ∧ s.writes = [.header (bytes ++ b.drop bytes.length)]
  writes : s.writes = [] ∨ s.writes = [.error b] ∨ (s.counted ≠ [] ∧ ∃ bytes,
    P.responseToChars s.respHdr = some bytes ∧ (s.writes = [.header (bytes ++ b.drop bytes.length)] ∨
      s.writes = [.header (bytes ++ b.drop bytes.length), .counts (P.countsBytes s.resp)]))

variable {sRespHdr sResp b}

theorem answer_init (reqHdr : P.RequestHeader) (req : P.RequestFields) :
    Answer sRespHdr sResp b (Conn.init reqHdr req sRespHdr sResp b) :=
  ⟨fun _ => ⟨rfl, rfl, rfl⟩, nofun, fun h => absurd rfl h, nofun, .inl rfl⟩

/-- Dropping the connection changes nothing it formed or wrote. -/
theorem Answer.close {s : Conn P} (hs : Answer sRespHdr sResp b s) :
    Answer sRespHdr sResp b { s with phase := .closed } :=
  ⟨nofun, nofun, hs.counted, nofun, hs.writes⟩

/-- `respond_with_error`, before anything is counted or written and with
`resp_buf` untouched, writes `b` or nothing. -/
theorem answer_respondWithError {d : Conn P} (hw : d.writes = []) (hc : d.counted = [])
    (hb : d.respBuf = b) : Answer sRespHdr sResp b (respondWithError d) := by
  unfold respondWithError
  split
  · exact ⟨nofun, nofun, (absurd hc ·), nofun, .inl hw⟩
  · exact ⟨nofun, nofun, (absurd hc ·), nofun, .inr (.inl (by simp [hw, hb]))⟩

/-- `respond_with_header`, right after `handle_get_counts`, writes the header it
formats into `b`, or nothing. -/
theorem answer_respondWithHeader {d : Conn P} (hw : d.writes = []) (hc : d.counted ≠ [])
    (hb : d.respBuf = b) (hg : (d.respHdr, d.resp) =
      P.handleGetCounts d.reqHdr d.req d.offsets (P.handleHeader d.reqHdr sRespHdr) sResp) :
    Answer sRespHdr sResp b (respondWithHeader d) := by
  unfold respondWithHeader
  split
  · exact ⟨nofun, nofun, fun _ => hg, nofun, .inl hw⟩
  · rename_i bytes hbytes
    exact ⟨nofun, nofun, fun _ => hg, fun _ => ⟨hc, bytes, hbytes, by simp [hw, hb]⟩,
      .inr (.inr ⟨hc, bytes, hbytes, .inl (by simp [hw, hb])⟩)⟩

/-- **Every completion keeps what the connection formed and wrote.** -/
theorem answer_step {c c' : Conn P} (hc : ConnInv b c) (ha : Answer sRespHdr sResp b c) {e : Event}
    (h : step c e = some c') : Answer sRespHdr sResp b c' := by
  cases e with
  | requestRead r =>
    obtain ⟨hp, h⟩ := step_eq_some h
    obtain ⟨hw, hh, hr⟩ := ha.request hp
    obtain ⟨hcnt, hb⟩ := hc.reading (.inl hp)
    rcases r with _ | buf
    · cases h; exact ha.close
    simp only [readRequestDone] at h
    split at h
    · cases h; exact answer_respondWithError hw hcnt hb
    split at h
    · cases h; exact answer_respondWithError hw hcnt hb
    split at h
    · cases h; exact answer_respondWithError hw hcnt hb
    rw [readOffsets_eq_some h]
    exact ⟨nofun, fun _ => ⟨hw, by simp [prepareToReadOffsets, hh], hr⟩, (absurd hcnt ·), nofun, .inl hw⟩
  | offsetsRead r =>
    obtain ⟨hp, h⟩ := step_eq_some h
    obtain ⟨hw, hh, hr⟩ := ha.offsets hp
    obtain ⟨hcnt, hb⟩ := hc.reading (.inr hp)
    rcases r with _ | chunk
    · cases h; exact answer_respondWithError hw hcnt hb
    simp only [readOffsetsDone] at h
    split at h
    · split at h
      · cases h
        exact answer_respondWithHeader hw (by simp [handleGetCounts]) hb (by
          simp only [handleGetCounts, storeChunk, hh, hr])
      · rw [readOffsets_eq_some h]
        exact ⟨nofun, fun _ => ⟨hw, hh, hr⟩, (absurd hcnt ·), nofun, .inl hw⟩
    · cases h
  | written ok =>
    simp only [step, writeDone] at h
    split at h <;> cases h
    · rename_i hp
      cases ok
      · exact ha.close
      obtain ⟨hcnt, bytes, hbytes, hw⟩ := ha.header hp
      exact ⟨nofun, nofun, ha.counted, nofun,
        .inr (.inr ⟨hcnt, bytes, hbytes, .inr (by simp [respondWithCounts, hw])⟩)⟩
    all_goals exact ha.close

/-- The connection only adds to what it wrote. -/
theorem writes_grows {c c' : Conn P} {e : Event} (h : step c e = some c') :
    c.writes <+: c'.writes := by
  have herr : ∀ d : Conn P, d.writes = c.writes → c.writes <+: (respondWithError d).writes := by
    rintro d hd
    unfold respondWithError
    split <;> simp [hd]
  cases e with
  | requestRead r =>
    obtain ⟨-, h⟩ := step_eq_some h
    rcases r with _ | buf
    · cases h; exact List.prefix_refl _
    simp only [readRequestDone] at h
    split at h
    · cases h; exact herr _ rfl
    split at h
    · cases h; exact herr _ rfl
    split at h
    · cases h; exact herr _ rfl
    rw [readOffsets_eq_some h]
    exact List.prefix_refl _
  | offsetsRead r =>
    obtain ⟨-, h⟩ := step_eq_some h
    rcases r with _ | chunk
    · cases h; exact herr _ rfl
    simp only [readOffsetsDone] at h
    split at h
    · split at h
      · cases h
        unfold respondWithHeader
        split <;> simp [handleGetCounts, storeChunk]
      · rw [readOffsets_eq_some h]
        exact List.prefix_refl _
    · cases h
  | written ok =>
    simp only [step, writeDone] at h
    split at h <;> cases h
    · split <;> simp [respondWithCounts]
    all_goals exact List.prefix_refl _

/-- **Every run keeps what the connection formed and wrote.** -/
theorem answer_run {c c' : Conn P} (hc : ConnInv b c) (ha : Answer sRespHdr sResp b c)
    {evs : List Event} (h : run c evs = some c') : Answer sRespHdr sResp b c' := by
  induction evs generalizing c with
  | nil => cases h; exact ha
  | cons e evs ih =>
    obtain ⟨c₁, h₁, h₂⟩ := Option.bind_eq_some.mp h
    exact ih (connInv_step hc h₁) (answer_step hc ha h₁) h₂

end Server

/-- **The connection answers at most once, with the handler's answer.** On every
run from `start`, whatever the peer sends and however its bytes arrive, the
connection has written nothing, or the `resp_buf` it was built with as an error
response, or the header `to_chars` formatted from the `resp_hdr` that
`handle_get_counts` returned, followed at most by the counts it returned. In the
last case `handle_get_counts` ran exactly once, on the request the connection
read and the offsets it stored. -/
theorem run_writes_answer {P : Protocol} (reqHdr : P.RequestHeader) (req : P.RequestFields)
    (sRespHdr : P.ResponseHeader) (sResp : P.Response) (b : List Byte) {evs : List Event}
    {c : Conn P} (h : run (Conn.init reqHdr req sRespHdr sResp b) evs = some c) :
    c.writes = [] ∨ c.writes = [.error b] ∨
      (c.counted = [c.offsets] ∧ (c.respHdr, c.resp) =
        P.handleGetCounts c.reqHdr c.req c.offsets (P.handleHeader c.reqHdr sRespHdr) sResp ∧
        ∃ bytes, P.responseToChars c.respHdr = some bytes ∧
          (c.writes = [.header (bytes ++ b.drop bytes.length)] ∨
            c.writes = [.header (bytes ++ b.drop bytes.length), .counts (P.countsBytes c.resp)])) := by
  have hc := connInv_run (connInv_init reqHdr req sRespHdr sResp b) h
  have ha := answer_run (connInv_init reqHdr req sRespHdr sResp b) (answer_init reqHdr req) h
  rcases ha.writes with hw | hw | ⟨hcnt, bytes, hbytes, hw⟩
  · exact .inl hw
  · exact .inr (.inl hw)
  · have hone : c.counted = [c.offsets] := hc.counted.resolve_left hcnt |>.1
    exact .inr (.inr ⟨hone, ha.counted hcnt, bytes, hbytes, hw⟩)

/-- A request for one offset pair, answered by the echoing handler: the
connection writes the header and then the eight bytes it was sent. -/
theorem run_writes_answer_echo :
    ∃ c, run (Conn.init (P := echoProtocol) () () false [] [0])
        [.requestRead (some [1, 1]), .offsetsRead (some [5, 0, 0, 0, 7, 0, 0, 0]), .written true] =
        some c ∧ c.writes = [.header [0], .counts [5, 0, 0, 0, 7, 0, 0, 0]] ∧
      (c.writes = [] ∨ c.writes = [.error [0]] ∨
        (c.counted = [c.offsets] ∧ (c.respHdr, c.resp) = echoProtocol.handleGetCounts c.reqHdr c.req
          c.offsets (echoProtocol.handleHeader c.reqHdr false) [] ∧
          ∃ bytes, echoProtocol.responseToChars c.respHdr = some bytes ∧
            (c.writes = [.header (bytes ++ [0].drop bytes.length)] ∨
              c.writes = [.header (bytes ++ [0].drop bytes.length),
                .counts (echoProtocol.countsBytes c.resp)]))) :=
  ⟨_, rfl, rfl, @run_writes_answer echoProtocol () () false [] [0]
    [.requestRead (some [1, 1]), .offsetsRead (some [5, 0, 0, 0, 7, 0, 0, 0]), .written true] _ rfl⟩

/-! ### Every well-formed request is answered -/

section Answering

variable {P : Protocol} {b : List Byte}

theorem run_cons_of_step {c c₁ : Conn P} {e : Event} (h : step c e = some c₁) (evs : List Event) :
    run c (e :: evs) = run c₁ evs := by
  rw [run, List.foldlM_cons, h]; rfl

/-- **The offsets stream, chunk by chunk.** When the bytes that remain arrive
in completions that each transfer some, or, with none remaining, in one that
transfers none, the last completion runs `handle_get_counts` and
`respond_with_header`; until then only the members of the stream move. -/
theorem run_offsetsRead_chunks : ∀ {chunks : List (List Byte)} {c : Conn P},
    ConnInv b c → c.phase = .readingOffsets → chunks ≠ [] →
    ((∀ ch ∈ chunks, ch ≠ []) ∨ chunks = [[]]) → chunks.flatten.length = c.offsetRemaining →
    ∃ d : Conn P, run c (chunks.map fun ch => .offsetsRead (some ch)) =
        some (respondWithHeader (handleGetCounts d)) ∧ ConnInv b d ∧
      d = { c with offsets := d.offsets, offsetByte := d.offsetByte, offsetRemaining := 0,
                   received := c.received ++ chunks.flatten }
  | [], _, _, _, hne, _, _ => absurd rfl hne
  | [ch], c, hc, hp, _, _, hlen => by
    simp only [List.flatten_cons, List.flatten_nil, List.append_nil] at hlen
    refine ⟨storeChunk c ch, ?_, connInv_storeChunk hc hp hlen.le, ?_⟩
    · simp only [List.map_cons, List.map_nil, run, List.foldlM_cons, List.foldlM_nil, step, hp,
        if_true, readOffsetsDone]
      rw [if_pos ⟨hlen.le, by omega⟩, if_pos (by simp [storeChunk, hlen])]
      rfl
    · simp [storeChunk, hlen]
  | ch :: ch' :: rest, c, hc, hp, _, hch, hlen => by
    replace hch := hch.resolve_right (by simp)
    have hpos := List.length_pos.mpr (hch ch' (by simp))
    have hpos₀ := List.length_pos.mpr (hch ch (by simp))
    simp only [List.flatten_cons, List.length_append] at hlen
    have hs := connInv_storeChunk hc hp (show ch.length ≤ c.offsetRemaining by omega)
    have h₁ : step c (.offsetsRead (some ch)) = some { storeChunk c ch with phase := .readingOffsets } := by
      simp only [step, hp, if_true, readOffsetsDone]
      rw [if_pos ⟨by omega, by omega⟩, if_neg (by simp [storeChunk]; omega), readOffsets,
        if_pos hs.offsets_inBounds]
    obtain ⟨d, hrun, hd, hdeq⟩ := run_offsetsRead_chunks (connInv_step hc h₁) rfl
      (List.cons_ne_nil ch' rest) (.inl fun x hx => hch x (List.mem_cons_of_mem _ hx))
      (by simp only [storeChunk, List.flatten_cons, List.length_append]; omega)
    refine ⟨d, (run_cons_of_step h₁ _).trans hrun, hd, ?_⟩
    conv_lhs => rw [hdeq]
    cases c
    dsimp only at hp
    subst hp
    simp only [storeChunk, List.flatten_cons, List.append_assoc]

/-- **Every well-formed request is answered.** Take a request buffer whose
header and fields parse, whose header the handler accepts, and that asks for
fewer than `2 ^ 29` offsets, and a handler's answer whose header formats. Let the
offset bytes arrive in any completions that keep the contract of
`async_read_some`. Then the run that reads the request and the offsets and
completes both writes ends with the socket shut down. `handle_get_counts` ran
once, on exactly the bytes sent, and the connection wrote the formatted header
and then the counts. -/
theorem run_answers (reqHdr : P.RequestHeader) (req : P.RequestFields) (sRespHdr : P.ResponseHeader)
    (sResp : P.Response) (b : List Byte) {buf : List Byte} {hdr : P.RequestHeader} {k : ℕ}
    {fields : P.RequestFields} {n : U32} (hhdr : P.headerFromChars buf = some (hdr, k))
    (hok : P.error (P.handleHeader hdr sRespHdr) = false)
    (hreq : P.requestFromChars (buf.drop k) = some (fields, n)) (hn : n.val < 2 ^ 29)
    {chunks : List (List Byte)} (hne : chunks ≠ []) (hch : (∀ ch ∈ chunks, ch ≠ []) ∨ chunks = [[]])
    (hlen : chunks.flatten.length = 8 * n.val) {bytes : List Byte}
    (hfmt : P.responseToChars
      (P.handleGetCounts hdr fields chunks.flatten (P.handleHeader hdr sRespHdr) sResp).1 = some bytes) :
    ∃ c, run (Conn.init reqHdr req sRespHdr sResp b)
        (.requestRead (some buf) :: chunks.map (fun ch => .offsetsRead (some ch)) ++
          [.written true, .written true]) = some c ∧
      c.phase = .closed ∧ c.counted = [chunks.flatten] ∧
      c.writes = [.header (bytes ++ b.drop bytes.length), .counts (P.countsBytes
        (P.handleGetCounts hdr fields chunks.flatten (P.handleHeader hdr sRespHdr) sResp).2)] := by
  have hc₀ := connInv_init reqHdr req sRespHdr sResp b
  have h₁ : step (Conn.init reqHdr req sRespHdr sResp b) (.requestRead (some buf)) =
      some { (prepareToReadOffsets { (Conn.init reqHdr req sRespHdr sResp b) with
        reqHdr := hdr, respHdr := P.handleHeader hdr sRespHdr, req := fields, nIntervals := n })
        with phase := .readingOffsets } := by
    simp only [step, Conn.init, if_true, readRequestDone, hhdr, hok, hreq, Bool.false_eq_true,
      if_false]
    exact readOffsets_prepareToReadOffsets _
  obtain ⟨d, hrun, hd, hdeq⟩ := run_offsetsRead_chunks (connInv_step hc₀ h₁) rfl hne hch
    (by rw [hlen]; exact (getOffsetsNBytes_of_lt hn).symm)
  obtain ⟨hqh, hqf, hrh, hrs, hw, hcnt, hb, hrec, hN, hrem⟩ : d.reqHdr = hdr ∧ d.req = fields ∧
      d.respHdr = P.handleHeader hdr sRespHdr ∧ d.resp = sResp ∧ d.writes = [] ∧ d.counted = [] ∧
      d.respBuf = b ∧ d.received = chunks.flatten ∧ d.nIntervals = n ∧ d.offsetRemaining = 0 := by
    rw [hdeq]
    simp [prepareToReadOffsets, Conn.init]
  have hoff : d.offsets = chunks.flatten := by
    have hbyte := hd.sum
    rw [hrem, hN, getOffsetsNBytes_of_lt hn] at hbyte
    rw [hd.offsets_eq, hrec, hN, Nat.add_zero] at *
    rw [hbyte, Nat.sub_self, List.replicate_zero, List.append_nil]
  have hhd : respondWithHeader (handleGetCounts d) =
      { (handleGetCounts d) with
        respBuf := bytes ++ b.drop bytes.length, phase := .writingHeader,
        writes := [.header (bytes ++ b.drop bytes.length)] } := by
    have : P.responseToChars (handleGetCounts d).respHdr = some bytes := by
      simp only [handleGetCounts, hqh, hqf, hrh, hrs, hoff]
      exact hfmt
    unfold respondWithHeader
    rw [this]
    simp only [handleGetCounts, hw, hb, List.nil_append]
  have hpre : run (Conn.init reqHdr req sRespHdr sResp b)
      (.requestRead (some buf) :: chunks.map fun ch => .offsetsRead (some ch)) =
      some (respondWithHeader (handleGetCounts d)) := (run_cons_of_step h₁ _).trans hrun
  refine ⟨{ respondWithCounts (respondWithHeader (handleGetCounts d)) with phase := .closed }, ?_, rfl,
    ?_, ?_⟩
  · rw [run, List.foldlM_append, ← run, hpre, hhd]
    rfl
  · rw [hhd]
    simp [respondWithCounts, handleGetCounts, hcnt, hoff]
  · rw [hhd]
    simp [respondWithCounts, handleGetCounts, hqh, hqf, hrh, hrs, hoff]

/-- A request for one offset pair, whose eight bytes arrive in two reads of
four, answered by the echoing handler. -/
theorem run_answers_echo :
    ∃ c, run (Conn.init (P := echoProtocol) () () false [] [0])
        (.requestRead (some [1, 1]) ::
          [[5, 0, 0, 0], [7, 0, 0, 0]].map (fun ch => .offsetsRead (some ch)) ++
          [.written true, .written true]) = some c ∧
      c.phase = .closed ∧ c.counted = [[5, 0, 0, 0, 7, 0, 0, 0]] ∧
      c.writes = [.header [0], .counts [5, 0, 0, 0, 7, 0, 0, 0]] :=
  @run_answers echoProtocol () () false [] [0] [1, 1] () 1 () 1 rfl rfl rfl (by decide)
    [[5, 0, 0, 0], [7, 0, 0, 0]] (by decide) (.inl (by decide)) rfl [0] rfl

end Answering

/-! ### What the client does with what it reads -/

namespace Client

variable {P : Protocol} {Q : ClientSide P}

/-- The client waits on an operation before the read of the counts: the
resolve, the connection, the write of the request or the read of the response
header. -/
def Early (c : Client P Q) : Prop := c.op ≠ none ∧ c.op ≠ some .readCounts

/-- A completion of the client that reads nothing from the socket leaves
`resp_buf` and the counts as they are. It keeps the operation and the status,
moves between the operations before the counts, or records an error. -/
theorem step_quiet {c c' : Client P Q} {e : ClientEvent Q.ErrorCode} (he : e.transfers = false)
    (h : c.step e = some c') :
    c'.respBuf = c.respBuf ∧ c'.counts = c.counts ∧
      ((c'.op = c.op ∧ c'.status = c.status) ∨ (c.Early ∧ c'.Early) ∨ c'.status ≠ none) := by
  cases e with
  | resolved err opened =>
    obtain ⟨ho, rfl⟩ := step_eq_some h
    cases err <;> simp [handleResolve, Early, ho]
  | connected err =>
    obtain ⟨ho, -, rfl⟩ := step_eq_some h
    unfold handleConnect
    split <;> simp [Early, ho]
  | requestWritten err =>
    obtain ⟨ho, rfl⟩ := step_eq_some h
    cases err <;> simp [handleWriteRequest, Early, ho]
  | headerRead r =>
    rcases r with err | _
    · obtain ⟨-, -, rfl⟩ := step_eq_some h
      simp [handleReadResponseHeader]
    · cases he
  | countsRead r =>
    rcases r with err | _
    · obtain ⟨-, rfl⟩ := step_eq_some h
      simp [doFinish]
    · cases he
  | expired =>
    obtain ⟨-, rfl⟩ := step_eq_some h
    simp
  | waitCompleted =>
    obtain ⟨-, rfl⟩ := step_eq_some h
    simp
  | deadlineChecked =>
    obtain ⟨-, rfl⟩ := step_eq_some h
    simp only [checkDeadline]
    split_ifs <;> simp

/-- The read of the response header stores the bytes at the start of
`resp_buf`, then reads the counts into `resp.counts` sized for `n_intervals`
counts, or records the parse error. -/
theorem step_headerRead {c c' : Client P Q} {bytes : List Byte}
    (h : c.step (.headerRead (.ok bytes)) = some c') :
    c.op = some .readHeader ∧ bytes.length = c.headerWanted ∧ c'.respBuf = writeAt c.respBuf 0 bytes ∧
      ((c'.op = some .readCounts ∧ c'.counts = resizeElems Q.countBytes c.counts c.nIntervals.val) ∨
        c'.status ≠ none) := by
  obtain ⟨ho, hn, rfl⟩ := step_eq_some h
  refine ⟨ho, hn _ rfl, ?_⟩
  simp only [handleReadResponseHeader]
  split <;> simp [doReadCounts, doFinish, setExpiry]

/-- The read of the counts stores the bytes at the start of `resp.counts` and
ends the transaction. -/
theorem step_countsRead {c c' : Client P Q} {bytes : List Byte}
    (h : c.step (.countsRead (.ok bytes)) = some c') :
    c.op = some .readCounts ∧ bytes.length = c.countsWanted ∧ c'.op = none ∧
      c'.status = c.status ∧ c'.respBuf = c.respBuf ∧ c'.counts = writeAt c.counts 0 bytes := by
  obtain ⟨ho, hn, rfl⟩ := step_eq_some h
  exact ⟨ho, hn, rfl, rfl, rfl, rfl⟩

/-- A client that has recorded an error waits on nothing. -/
theorem Inv.op_of_status {c₀ c : Client P Q} (hc : Inv c₀ c) (hs : c.status ≠ none) :
    c.op = none :=
  by_contra fun ho => hs (hc.busy ho)

end Client

/-! ### What the client has read -/

/-- A full `resp_buf` written at its start is what was written. -/
theorem writeAt_zero_of_length {bytes chunk : List Byte} (h : chunk.length = bytes.length) :
    writeAt bytes 0 chunk = chunk := by
  simp [writeAt, h]

/-- A stretch of a list that lies in a prefix of another is the same in both. -/
theorem drop_take_stable {l l' : List Byte} (h : l <+: l') {a n : ℕ} (hn : a + n ≤ l.length) :
    (l'.drop a).take n = (l.drop a).take n := by
  obtain ⟨t, rfl⟩ := h
  rw [List.drop_append_of_le_length (by omega), List.take_append_of_le_length (by simp; omega)]

namespace Exchange

variable {P : Protocol} {Q : ClientSide P}

/-- How many bytes of counts a client built as `c₀` reads:
`get_counts_n_bytes()`, and at most the size of `resp.counts` once it holds
`n_intervals` counts. -/
def countsLength (c₀ : Client P Q) : ℕ :=
  min (Q.getCountsNBytes c₀.nIntervals.val) (Q.countBytes * c₀.nIntervals.val)

/-- What a client built as `c₀` has read of what the connection wrote. Before
the counts it has read nothing. While it reads them, `resp_buf` holds the
response header at its start. Once the transaction has ended without an error,
`resp.counts` also holds, at its start, the bytes that follow the header. -/
structure DownInv (c₀ : Client P Q) (x : Exchange P Q) : Prop where
  le : x.downRead ≤ x.down.length
  early : x.client.Early →
    x.downRead = 0 ∧ x.client.respBuf = c₀.respBuf ∧ x.client.counts = c₀.counts
  counting : x.client.op = some .readCounts → x.downRead = c₀.headerWanted ∧
    x.client.respBuf = writeAt c₀.respBuf 0 (x.down.take c₀.headerWanted) ∧
    x.client.counts = resizeElems Q.countBytes c₀.counts c₀.nIntervals.val
  done : x.client.op = none → x.client.status = none →
    x.downRead = c₀.headerWanted + countsLength c₀ ∧
    x.client.respBuf = writeAt c₀.respBuf 0 (x.down.take c₀.headerWanted) ∧
    x.client.counts = writeAt (resizeElems Q.countBytes c₀.counts c₀.nIntervals.val) 0
      ((x.down.drop c₀.headerWanted).take (countsLength c₀))

section Down

variable {c₀ : Client P Q}

theorem downInv_init (h₀ : c₀.op = some .resolve) (s : Conn P) : DownInv c₀ (init c₀ s) :=
  ⟨Nat.zero_le _, fun _ => ⟨rfl, rfl, rfl⟩, fun h => absurd (h₀.symm.trans h) nofun,
    fun h => absurd (h₀.symm.trans h) nofun⟩

/-- The connection only adds to what it wrote, so what the client has read
stays as it was. -/
theorem DownInv.of_grows {x x' : Exchange P Q} (hx : DownInv c₀ x) (hd : x.down <+: x'.down)
    (hc : x'.client = x.client) (hr : x'.downRead = x.downRead) : DownInv c₀ x' := by
  refine ⟨hr ▸ hx.le.trans hd.length_le, fun h => ?_, fun h => ?_, fun h₁ h₂ => ?_⟩
  · rw [hc] at h ⊢
    rw [hr]
    exact hx.early h
  · rw [hc] at h ⊢
    obtain ⟨h₁, h₂, h₃⟩ := hx.counting h
    rw [hr, take_stable hd (h₁ ▸ hx.le)]
    exact ⟨h₁, h₂, h₃⟩
  · rw [hc] at h₁ h₂ ⊢
    obtain ⟨h₃, h₄, h₅⟩ := hx.done h₁ h₂
    have hle := hx.le
    rw [hr, take_stable hd (by omega), drop_take_stable hd (h₃ ▸ hle)]
    exact ⟨h₃, h₄, h₅⟩

/-- A completion of the client that reads nothing keeps what it has read. -/
theorem DownInv.quiet {x : Exchange P Q} (hx : DownInv c₀ x) {c : Client P Q}
    (hc : Client.Inv c₀ c) {e : ClientEvent Q.ErrorCode} (he : e.transfers = false)
    (h : x.client.step e = some c) : DownInv c₀ { x with client := c } := by
  obtain ⟨hb, hcs, hop⟩ := Client.step_quiet he h
  refine ⟨hx.le, fun (hE : c.Early) => ?_, fun (ho : c.op = some .readCounts) => ?_,
    fun (ho : c.op = none) (hs : c.status = none) => ?_⟩
  · have hE' : x.client.Early := by
      rcases hop with ⟨ho, -⟩ | ⟨hE', -⟩ | hs
      · exact ⟨ho ▸ hE.1, ho ▸ hE.2⟩
      · exact hE'
      · exact absurd (hc.op_of_status hs) hE.1
    obtain ⟨h₁, h₂, h₃⟩ := hx.early hE'
    exact ⟨h₁, hb.trans h₂, hcs.trans h₃⟩
  · have ho' : x.client.op = some .readCounts := by
      rcases hop with ⟨ho', -⟩ | ⟨-, hE⟩ | hs
      · exact ho'.symm.trans ho
      · exact absurd ho hE.2
      · exact absurd (hc.op_of_status hs) (by simp [ho])
    obtain ⟨h₁, h₂, h₃⟩ := hx.counting ho'
    exact ⟨h₁, hb.trans h₂, hcs.trans h₃⟩
  · have hd : x.client.op = none ∧ x.client.status = none := by
      rcases hop with ⟨ho', hs'⟩ | ⟨-, hE⟩ | hs'
      · exact ⟨ho'.symm.trans ho, hs'.symm.trans hs⟩
      · exact absurd ho hE.1
      · exact absurd hs hs'
    obtain ⟨h₁, h₂, h₃⟩ := hx.done hd.1 hd.2
    exact ⟨h₁, hb.trans h₂, hcs.trans h₃⟩

/-- The read of the response header takes the first bytes the connection wrote. -/
theorem DownInv.headerRead {x : Exchange P Q} (hx : DownInv c₀ x) (hxc : Client.Inv c₀ x.client)
    {c : Client P Q} (hc : Client.Inv c₀ c) {n : ℕ} (hn : x.downRead + n ≤ x.down.length)
    (h : x.client.step (.headerRead (.ok ((x.down.drop x.downRead).take n))) = some c) :
    DownInv c₀ { x with client := c, downRead := x.downRead + n } := by
  obtain ⟨ho, hlen, hbuf, hnext⟩ := Client.step_headerRead h
  obtain ⟨h₀, hr, hcs⟩ := hx.early ⟨by simp [ho], by simp [ho]⟩
  have hn' : n = c₀.headerWanted := by
    rw [List.length_take, List.length_drop, Client.headerWanted, hr] at hlen
    rw [Client.headerWanted, ← hlen]
    omega
  refine ⟨hn, fun (hE : c.Early) => ?_, fun (ho' : c.op = some .readCounts) => ?_,
    fun (ho' : c.op = none) (hs : c.status = none) => ?_⟩
  · rcases hnext with ⟨ho', -⟩ | hs
    · exact absurd ho' hE.2
    · exact absurd (hc.op_of_status hs) hE.1
  · rcases hnext with ⟨-, hcs'⟩ | hs
    · refine ⟨show x.downRead + n = _ by omega, by rw [hbuf, hr, h₀, List.drop_zero, hn']; rfl, ?_⟩
      rw [hcs', hcs, hxc.request.2.2.1]
    · exact absurd (hc.op_of_status hs) (by simp [ho'])
  · rcases hnext with ⟨ho'', -⟩ | hs'
    · exact absurd (ho'.symm.trans ho'') nofun
    · exact absurd hs hs'

/-- The read of the counts takes the bytes that follow the header, and ends
the transaction. -/
theorem DownInv.countsRead {x : Exchange P Q} (hx : DownInv c₀ x) (hxc : Client.Inv c₀ x.client)
    {c : Client P Q} {n : ℕ} (hn : x.downRead + n ≤ x.down.length)
    (h : x.client.step (.countsRead (.ok ((x.down.drop x.downRead).take n))) = some c) :
    DownInv c₀ { x with client := c, downRead := x.downRead + n } := by
  obtain ⟨ho, hlen, hop, -, hbuf, hcounts⟩ := Client.step_countsRead h
  obtain ⟨h₀, hr, hcs⟩ := hx.counting ho
  have hn' : n = countsLength c₀ := by
    rw [List.length_take, List.length_drop, Client.countsWanted, hcs, length_resizeElems,
      hxc.request.2.2.1] at hlen
    rw [countsLength, ← hlen]
    omega
  refine ⟨hn, fun (hE : c.Early) => absurd hop hE.1,
    fun (ho' : c.op = some .readCounts) => absurd (hop.symm.trans ho') nofun,
    fun _ _ => ⟨show x.downRead + n = _ by rw [h₀, hn'], hbuf.trans hr, ?_⟩⟩
  rw [hcounts, hcs, h₀, hn']
  rfl

end Down

/-! ### The invariant of every exchange, both ways -/

/-- The bytes the connection wrote only grow. -/
theorem down_grows {x x' : Exchange P Q} {e : Event} (h : step x.server e = some x'.server) :
    x.down <+: x'.down := by
  obtain ⟨t, ht⟩ := writes_grows h
  rw [Exchange.down, Exchange.down, ← ht, List.map_append, List.flatten_append]
  exact List.prefix_append _ _

/-- The invariant of every exchange from the client `c₀` and a connection
started with `sRespHdr`, `sResp` and `b`: the request stream's, what the
connection formed and wrote, and what the client has read. -/
structure FullInv (c₀ : Client P Q) (sRespHdr : P.ResponseHeader) (sResp : P.Response)
    (b : List Byte) (x : Exchange P Q) : Prop where
  inv : Inv c₀ b x
  answer : Answer sRespHdr sResp b x.server
  down : DownInv c₀ x

theorem fullInv_init (reqHdr : P.RequestHeader) (req : P.RequestFields) (nIntervals : U32)
    (offsets : List (U32 × U32)) (reqBuf respBuf : List Byte) (respHdr : P.ResponseHeader)
    (sReqHdr : P.RequestHeader) (sReq : P.RequestFields) (sRespHdr : P.ResponseHeader)
    (sResp : P.Response) (b : List Byte) :
    FullInv (Client.init reqHdr req nIntervals offsets reqBuf respBuf respHdr) sRespHdr sResp b
      (init (Client.init reqHdr req nIntervals offsets reqBuf respBuf respHdr : Client P Q)
        (Conn.init sReqHdr sReq sRespHdr sResp b)) :=
  ⟨inv_init _ _ _ _ _ _ _ _ _ _ _ _, answer_init _ _, downInv_init rfl _⟩

section Full

variable {c₀ : Client P Q} {sRespHdr : P.ResponseHeader} {sResp : P.Response} {b : List Byte}

/-- **Every step keeps the invariant, both ways.** -/
theorem fullInv_step {x x' : Exchange P Q} (hx : FullInv c₀ sRespHdr sResp b x) (h : Step x x') :
    FullInv c₀ sRespHdr sResp b x' := by
  have hinv := inv_step hx.inv h
  cases h with
  | client e he h => exact ⟨hinv, hx.answer, hx.down.quiet hinv.client he h⟩
  | headerRead hn h => exact ⟨hinv, hx.answer, hx.down.headerRead hx.inv.client hinv.client hn h⟩
  | countsRead hn h => exact ⟨hinv, hx.answer, hx.down.countsRead hx.inv.client hn h⟩
  | server e he h =>
    exact ⟨hinv, answer_step hx.inv.server hx.answer h, hx.down.of_grows (down_grows h) rfl rfl⟩
  | requestRead hn h =>
    exact ⟨hinv, answer_step hx.inv.server hx.answer h, hx.down.of_grows (down_grows h) rfl rfl⟩
  | offsetsRead hn h =>
    exact ⟨hinv, answer_step hx.inv.server hx.answer h, hx.down.of_grows (down_grows h) rfl rfl⟩

/-- **Every reachable state keeps the invariant, both ways.** -/
theorem fullInv_reachable {x₀ x : Exchange P Q} (h₀ : FullInv c₀ sRespHdr sResp b x₀)
    (h : Reachable x₀ x) : FullInv c₀ sRespHdr sResp b x := by
  induction h with
  | refl => exact h₀
  | tail _ hs ih => exact fullInv_step ih hs

end Full

/-! ### A lookup, end to end -/

section Lookup

variable {c₀ : Client P Q} {sRespHdr : P.ResponseHeader} {sResp : P.Response} {b : List Byte}
  {x : Exchange P Q}

/-- The bytes the connection wrote: nothing, the error response `b`, or the
header formatted into `b` and then the counts. -/
theorem FullInv.down_eq (hx : FullInv c₀ sRespHdr sResp b x) :
    x.down = [] ∨ x.down = b ∨ (x.server.counted ≠ [] ∧ ∃ bytes,
      P.responseToChars x.server.respHdr = some bytes ∧ (x.down = bytes ++ b.drop bytes.length ∨
        x.down = bytes ++ b.drop bytes.length ++ P.countsBytes x.server.resp)) := by
  rcases hx.answer.writes with hw | hw | ⟨hc, bytes, hbytes, hw | hw⟩
  · exact .inl (by simp [Exchange.down, hw])
  · exact .inr (.inl (by simp [Exchange.down, hw, Write.bytes]))
  · exact .inr (.inr ⟨hc, bytes, hbytes, .inl (by simp [Exchange.down, hw, Write.bytes])⟩)
  · exact .inr (.inr ⟨hc, bytes, hbytes, .inr (by simp [Exchange.down, hw, Write.bytes])⟩)

/-- With response buffers of one size, to which `to_chars` keeps, the header the
connection formats takes exactly the bytes the client reads as the header. -/
theorem length_header {bytes : List Byte} (hchars : bytes.length ≤ b.length) :
    (bytes ++ b.drop bytes.length).length = b.length := by
  simp only [List.length_append, List.length_drop]
  omega

/-- When the client has ended its transaction without an error, the counts it
stores are the first bytes of the counts the connection holds, and the
connection has counted whenever there were counts to read. -/
theorem FullInv.counts_eq (hx : FullInv c₀ sRespHdr sResp b x) (hR : c₀.headerWanted = b.length)
    (hchars : ∀ h bytes, P.responseToChars h = some bytes → bytes.length ≤ b.length)
    (hop : x.client.op = none) (hst : x.client.status = none) :
    x.client.counts = writeAt (resizeElems Q.countBytes c₀.counts c₀.nIntervals.val) 0
        ((P.countsBytes x.server.resp).take (countsLength c₀)) ∧
      (0 < countsLength c₀ → x.server.counted ≠ []) := by
  obtain ⟨hread, -, hcounts⟩ := hx.down.done hop hst
  suffices h : (x.down.drop b.length).take (countsLength c₀) =
      (P.countsBytes x.server.resp).take (countsLength c₀) ∧ (0 < countsLength c₀ → x.server.counted ≠ []) by
    rw [hcounts, hR, h.1]
    exact ⟨rfl, h.2⟩
  have hshort : x.down.length ≤ b.length → countsLength c₀ = 0 := fun h => by
    have := hx.down.le
    omega
  rcases hx.down_eq with hd | hd | ⟨hc, bytes, hbytes, hd | hd⟩
  · simp [hshort (by simp [hd])]
  · simp [hshort (by simp [hd])]
  · simp [hshort (by rw [hd, length_header (hchars _ _ hbytes)])]
  · rw [hd, List.drop_left' (length_header (hchars _ _ hbytes))]
    exact ⟨rfl, fun _ => hc⟩

/-- Once the client has read the response header, its `resp_buf` is the
connection's initial `resp_buf`, or the header the connection formatted after
`handle_get_counts`. -/
theorem FullInv.respBuf_eq (hx : FullInv c₀ sRespHdr sResp b x) (hR : c₀.headerWanted = b.length)
    (hlen₀ : c₀.respBuf.length = b.length)
    (hchars : ∀ h bytes, P.responseToChars h = some bytes → bytes.length ≤ b.length)
    (hread : x.client.op = some .readCounts ∨ (x.client.op = none ∧ x.client.status = none)) :
    x.client.respBuf = b ∨ (x.server.counted ≠ [] ∧ ∃ bytes,
      P.responseToChars x.server.respHdr = some bytes ∧ x.client.respBuf = bytes ++ b.drop bytes.length) := by
  obtain ⟨hle, hbuf⟩ : b.length ≤ x.down.length ∧
      x.client.respBuf = writeAt c₀.respBuf 0 (x.down.take b.length) := by
    have := hx.down.le
    rcases hread with ho | ⟨ho, hs⟩
    · obtain ⟨h₁, h₂, -⟩ := hx.down.counting ho
      exact ⟨by omega, hR ▸ h₂⟩
    · obtain ⟨h₁, h₂, -⟩ := hx.down.done ho hs
      exact ⟨by omega, hR ▸ h₂⟩
  have hfull : ∀ l : List Byte, l.length = b.length → writeAt c₀.respBuf 0 l = l :=
    fun l hl => writeAt_zero_of_length (hl.trans hlen₀.symm)
  rcases hx.down_eq with hd | hd | ⟨hc, bytes, hbytes, hd | hd⟩
  · have hb : b = [] := List.length_eq_zero.mp (by simpa [hd] using hle)
    exact .inl (by rw [hbuf, hd, List.take_nil, hfull [] (by rw [hb]), hb])
  · exact .inl (by rw [hbuf, hd, List.take_length, hfull b rfl])
  · have hlen := length_header (hchars _ _ hbytes)
    exact .inr ⟨hc, bytes, hbytes, by rw [hbuf, hd, List.take_of_length_le hlen.le, hfull _ hlen]⟩
  · have hlen := length_header (hchars _ _ hbytes)
    exact .inr ⟨hc, bytes, hbytes, by rw [hbuf, hd, List.take_left' hlen, hfull _ hlen]⟩

/-- Once the connection has counted for a lookup of fewer than `2 ^ 29`
offsets, over codecs that read the request back, its `resp_hdr` and `resp` are
what `handle_get_counts` returned for the client's request header, fields and
offsets. -/
theorem FullInv.answer_lookup {reqHdr : P.RequestHeader} {req : P.RequestFields}
    {offsets : List (U32 × U32)} {reqBuf respBuf : List Byte} {respHdr : P.ResponseHeader}
    (hx : FullInv (Client.lookup reqHdr req offsets reqBuf respBuf respHdr) sRespHdr sResp b x)
    (hb : reqBuf.length = Q.requestBufSize) {buf : List Byte} {hdr : P.RequestHeader} {k : ℕ}
    {fields : P.RequestFields}
    (hbuf : Client.composeRequest (Client.lookup reqHdr req offsets reqBuf respBuf respHdr : Client P Q) =
      .ok buf)
    (hhdr : P.headerFromChars buf = some (hdr, k))
    (hreq : P.requestFromChars (buf.drop k) =
      some (fields, ⟨offsets.length % 2 ^ 32, Nat.mod_lt _ (by norm_num)⟩))
    (hlt : offsets.length < 2 ^ 29) (hc : x.server.counted ≠ []) :
    (x.server.respHdr, x.server.resp) =
      P.handleGetCounts hdr fields (offsetsBytes offsets) (P.handleHeader hdr sRespHdr) sResp := by
  obtain ⟨h₁, h₂, h₃⟩ := hx.inv.parsed_eq hb hbuf hhdr hreq hc
  have hmem : x.server.offsets ∈ x.server.counted := by
    rcases hx.inv.server.counted with h | ⟨h, -⟩
    · exact absurd h hc
    · rw [h]
      exact List.mem_singleton_self _
  have hoff : x.server.offsets = offsetsBytes offsets := by
    rw [(hx.inv.counted_eq hb _ hmem).2, h₃]
    exact lookupOffsets_of_lt hlt
  rw [hx.answer.counted hc, h₁, h₂, hoff]

end Lookup

/-- **The client stores the counts the handler computed for its own request.**
Take an exchange between the client `lookup_client_main` builds and a fresh
connection, whose response buffers have `response_buf_size` bytes and into
which `to_chars` keeps. Take codecs that read back the request
`handle_connect` composes, and fewer than `2 ^ 29` offsets. Whenever the client
has ended its transaction without an error, its `resp.counts` holds the first
`get_counts_n_bytes()` bytes of the counts that `handle_get_counts` returned
for the client's request header, its fields and its offsets, and zero bytes
after them. -/
theorem reachable_lookup_counts (reqHdr : P.RequestHeader) (req : P.RequestFields)
    (offsets : List (U32 × U32)) {reqBuf : List Byte} (hb : reqBuf.length = Q.requestBufSize)
    {respBuf : List Byte} (hR : respBuf.length = Q.responseBufSize) (respHdr : P.ResponseHeader)
    (sReqHdr : P.RequestHeader) (sReq : P.RequestFields) (sRespHdr : P.ResponseHeader)
    (sResp : P.Response) {b : List Byte} (hbR : b.length = Q.responseBufSize)
    (hchars : ∀ h bytes, P.responseToChars h = some bytes → bytes.length ≤ Q.responseBufSize)
    {buf : List Byte} {hdr : P.RequestHeader} {k : ℕ} {fields : P.RequestFields}
    (hbuf : Client.composeRequest (Client.lookup reqHdr req offsets reqBuf respBuf respHdr : Client P Q) =
      .ok buf)
    (hhdr : P.headerFromChars buf = some (hdr, k))
    (hreq : P.requestFromChars (buf.drop k) =
      some (fields, ⟨offsets.length % 2 ^ 32, Nat.mod_lt _ (by norm_num)⟩))
    (hlt : offsets.length < 2 ^ 29) {x : Exchange P Q}
    (h : Reachable (init (Client.lookup reqHdr req offsets reqBuf respBuf respHdr)
      (Conn.init sReqHdr sReq sRespHdr sResp b)) x)
    (hop : x.client.op = none) (hst : x.client.status = none) :
    x.client.counts = writeAt (List.replicate (Q.countBytes * offsets.length) 0) 0
      ((P.countsBytes (P.handleGetCounts hdr fields (offsetsBytes offsets)
        (P.handleHeader hdr sRespHdr) sResp).2).take
          (min (Q.getCountsNBytes offsets.length) (Q.countBytes * offsets.length))) := by
  have hx : FullInv (Client.lookup reqHdr req offsets reqBuf respBuf respHdr) sRespHdr sResp b x :=
    fullInv_reachable (fullInv_init reqHdr req _ offsets reqBuf respBuf respHdr sReqHdr sReq sRespHdr
      sResp b) h
  have hn : offsets.length % 2 ^ 32 = offsets.length := Nat.mod_eq_of_lt (by omega)
  have hm : countsLength (Client.lookup reqHdr req offsets reqBuf respBuf respHdr : Client P Q) =
      min (Q.getCountsNBytes offsets.length) (Q.countBytes * offsets.length) := by
    show min (Q.getCountsNBytes (offsets.length % 2 ^ 32)) (Q.countBytes * (offsets.length % 2 ^ 32)) = _
    rw [hn]
  have hres : resizeElems Q.countBytes (Client.lookup reqHdr req offsets reqBuf respBuf respHdr : Client P Q).counts
      (Client.lookup reqHdr req offsets reqBuf respBuf respHdr : Client P Q).nIntervals.val =
      List.replicate (Q.countBytes * offsets.length) 0 := by
    show resizeElems Q.countBytes [] (offsets.length % 2 ^ 32) = _
    rw [hn]
    simp [resizeElems]
  obtain ⟨hcounts, hpos⟩ := hx.counts_eq (by simp [Client.headerWanted, Client.lookup, Client.init, hR, hbR])
    (fun h bytes hh => hbR ▸ hchars h bytes hh) hop hst
  rw [hcounts, hres, hm]
  rcases Nat.eq_zero_or_pos (min (Q.getCountsNBytes offsets.length) (Q.countBytes * offsets.length))
    with h0 | hpos'
  · simp only [h0, List.take_zero]
  · have hresp : x.server.resp = (P.handleGetCounts hdr fields (offsetsBytes offsets)
        (P.handleHeader hdr sRespHdr) sResp).2 :=
      congrArg Prod.snd (hx.answer_lookup hb hbuf hhdr hreq hlt (hpos (hm ▸ hpos')))
    rw [hresp]

/-- A lookup of one offset, `(5, 7)`, from a handler that echoes the offsets: the
client stores their eight bytes. -/
theorem reachable_lookup_counts_echo :
    ∃ x, Reachable (init (Client.lookup () () [(5, 7)] [0, 0] [0] false : Client echoProtocol echoClient)
        (Conn.init () () false [] [0])) x ∧ x.client.counts = offsetsBytes [(5, 7)] ∧
      x.client.counts = writeAt (List.replicate (echoClient.countBytes * [((5 : U32), (7 : U32))].length) 0) 0
        ((echoProtocol.countsBytes (echoProtocol.handleGetCounts () () (offsetsBytes [(5, 7)])
          (echoProtocol.handleHeader () false) []).2).take
            (min (echoClient.getCountsNBytes [((5 : U32), (7 : U32))].length)
              (echoClient.countBytes * [((5 : U32), (7 : U32))].length))) := by
  have h₁ : Reachable (init (Client.lookup () () [(5, 7)] [0, 0] [0] false : Client echoProtocol echoClient)
      (Conn.init () () false [] [0])) _ := Relation.ReflTransGen.refl.tail (.client (.resolved none true) rfl rfl)
  have h₂ := h₁.tail (.client (.connected none) rfl rfl)
  have h₃ := h₂.tail (.client (.requestWritten none) rfl rfl)
  have h₄ := h₃.tail (.requestRead (by decide) rfl)
  have h₅ := h₄.tail (.offsetsRead (n := 8) (by decide) rfl)
  have h₆ := h₅.tail (.server (.written true) rfl rfl)
  have h₇ := h₆.tail (.headerRead (n := 1) (by decide) rfl)
  have h := h₇.tail (.countsRead (n := 8) (by decide) rfl)
  exact ⟨_, h, rfl, @reachable_lookup_counts echoProtocol echoClient () () [(5, 7)] [0, 0] rfl [0] rfl false
    () () false [] [0] rfl (fun _ _ hh => by cases Option.some.inj hh; exact le_rfl) [1, 1] () 1 ()
    rfl rfl rfl (by norm_num) _ h rfl rfl⟩

/-- **The client parses the connection's header, or its initial `resp_buf`.**
Under the assumptions of `Mxe.Exchange.reachable_lookup_counts`, once the client
has read the response header, its `resp_buf` is either the connection's initial
`resp_buf`, which every error response carries, or the header `to_chars`
formatted from the `resp_hdr` that `handle_get_counts` returned for the
client's request header, its fields and its offsets, over the rest of that
initial `resp_buf`. -/
theorem reachable_lookup_header (reqHdr : P.RequestHeader) (req : P.RequestFields)
    (offsets : List (U32 × U32)) {reqBuf : List Byte} (hb : reqBuf.length = Q.requestBufSize)
    {respBuf : List Byte} (hR : respBuf.length = Q.responseBufSize) (respHdr : P.ResponseHeader)
    (sReqHdr : P.RequestHeader) (sReq : P.RequestFields) (sRespHdr : P.ResponseHeader)
    (sResp : P.Response) {b : List Byte} (hbR : b.length = Q.responseBufSize)
    (hchars : ∀ h bytes, P.responseToChars h = some bytes → bytes.length ≤ Q.responseBufSize)
    {buf : List Byte} {hdr : P.RequestHeader} {k : ℕ} {fields : P.RequestFields}
    (hbuf : Client.composeRequest (Client.lookup reqHdr req offsets reqBuf respBuf respHdr : Client P Q) =
      .ok buf)
    (hhdr : P.headerFromChars buf = some (hdr, k))
    (hreq : P.requestFromChars (buf.drop k) =
      some (fields, ⟨offsets.length % 2 ^ 32, Nat.mod_lt _ (by norm_num)⟩))
    (hlt : offsets.length < 2 ^ 29) {x : Exchange P Q}
    (h : Reachable (init (Client.lookup reqHdr req offsets reqBuf respBuf respHdr)
      (Conn.init sReqHdr sReq sRespHdr sResp b)) x)
    (hread : x.client.op = some .readCounts ∨ (x.client.op = none ∧ x.client.status = none)) :
    x.client.respBuf = b ∨ ∃ bytes, P.responseToChars (P.handleGetCounts hdr fields (offsetsBytes offsets)
        (P.handleHeader hdr sRespHdr) sResp).1 = some bytes ∧ x.client.respBuf = bytes ++ b.drop bytes.length := by
  have hx : FullInv (Client.lookup reqHdr req offsets reqBuf respBuf respHdr) sRespHdr sResp b x :=
    fullInv_reachable (fullInv_init reqHdr req _ offsets reqBuf respBuf respHdr sReqHdr sReq sRespHdr
      sResp b) h
  rcases hx.respBuf_eq (by simp [Client.headerWanted, Client.lookup, Client.init, hR, hbR])
      (by simp [Client.lookup, Client.init, hR, hbR]) (fun h bytes hh => hbR ▸ hchars h bytes hh) hread
    with hb' | ⟨hc, bytes, hbytes, hbuf'⟩
  · exact .inl hb'
  · have hhdr' : x.server.respHdr = (P.handleGetCounts hdr fields (offsetsBytes offsets)
        (P.handleHeader hdr sRespHdr) sResp).1 :=
      congrArg Prod.fst (hx.answer_lookup hb hbuf hhdr hreq hlt hc)
    exact .inr ⟨bytes, hhdr' ▸ hbytes, hbuf'⟩

/-- The same lookup, stopped once the client reads the counts: it has parsed
the header `0` the connection formatted. -/
theorem reachable_lookup_header_echo :
    ∃ x, Reachable (init (Client.lookup () () [(5, 7)] [0, 0] [0] false : Client echoProtocol echoClient)
        (Conn.init () () false [] [0])) x ∧ x.client.respBuf = [0] ∧
      (x.client.respBuf = [0] ∨ ∃ bytes, echoProtocol.responseToChars
        (echoProtocol.handleGetCounts () () (offsetsBytes [(5, 7)]) (echoProtocol.handleHeader () false) []).1 =
          some bytes ∧ x.client.respBuf = bytes ++ [(0 : Byte)].drop bytes.length) := by
  have h₁ : Reachable (init (Client.lookup () () [(5, 7)] [0, 0] [0] false : Client echoProtocol echoClient)
      (Conn.init () () false [] [0])) _ := Relation.ReflTransGen.refl.tail (.client (.resolved none true) rfl rfl)
  have h₂ := h₁.tail (.client (.connected none) rfl rfl)
  have h₃ := h₂.tail (.client (.requestWritten none) rfl rfl)
  have h₄ := h₃.tail (.requestRead (by decide) rfl)
  have h₅ := h₄.tail (.offsetsRead (n := 8) (by decide) rfl)
  have h₆ := h₅.tail (.server (.written true) rfl rfl)
  have h := h₆.tail (.headerRead (n := 1) (by decide) rfl)
  exact ⟨_, h, rfl, @reachable_lookup_header echoProtocol echoClient () () [(5, 7)] [0, 0] rfl [0] rfl false
    () () false [] [0] rfl (fun _ _ hh => by cases Option.some.inj hh; exact le_rfl) [1, 1] () 1 ()
    rfl rfl rfl (by norm_num) _ h (.inl rfl)⟩

/-- **A well-formed lookup runs to its end.** Take a request that
`handle_connect` composes into a buffer the connection's codecs read back, a
header the handler accepts, fewer than `2 ^ 29` offsets, a formatted header
that fits `response_buf_size` and that the client parses, and a handler whose
counts are at least `get_counts_n_bytes()` bytes long. Then some run of the
exchange ends with the connection closed and the client finished without an
error, holding the parsed header and the counts the handler computed. -/
theorem reachable_lookup_done (reqHdr : P.RequestHeader) (req : P.RequestFields)
    (offsets : List (U32 × U32)) {reqBuf : List Byte} (hb : reqBuf.length = Q.requestBufSize)
    {respBuf : List Byte} (hR : respBuf.length = Q.responseBufSize) (respHdr : P.ResponseHeader)
    (sReqHdr : P.RequestHeader) (sReq : P.RequestFields) (sRespHdr : P.ResponseHeader)
    (sResp : P.Response) {b : List Byte} (hbR : b.length = Q.responseBufSize)
    {buf : List Byte} {hdr : P.RequestHeader} {k : ℕ} {fields : P.RequestFields}
    (hbuf : Client.composeRequest (Client.lookup reqHdr req offsets reqBuf respBuf respHdr : Client P Q) =
      .ok buf)
    (hhdr : P.headerFromChars buf = some (hdr, k))
    (hok : P.error (P.handleHeader hdr sRespHdr) = false)
    (hreq : P.requestFromChars (buf.drop k) =
      some (fields, ⟨offsets.length % 2 ^ 32, Nat.mod_lt _ (by norm_num)⟩))
    (hlt : offsets.length < 2 ^ 29) {bytes : List Byte}
    (hfmt : P.responseToChars (P.handleGetCounts hdr fields (offsetsBytes offsets)
      (P.handleHeader hdr sRespHdr) sResp).1 = some bytes)
    (hchars : bytes.length ≤ Q.responseBufSize) {h : P.ResponseHeader}
    (hparse : Q.parse (bytes ++ b.drop bytes.length) = .ok h)
    (hcounts : min (Q.getCountsNBytes offsets.length) (Q.countBytes * offsets.length) ≤
      (P.countsBytes (P.handleGetCounts hdr fields (offsetsBytes offsets)
        (P.handleHeader hdr sRespHdr) sResp).2).length) :
    ∃ x, Reachable (init (Client.lookup reqHdr req offsets reqBuf respBuf respHdr : Client P Q)
        (Conn.init sReqHdr sReq sRespHdr sResp b)) x ∧
      x.client.op = none ∧ x.client.status = none ∧ x.server.phase = .closed ∧ x.client.respHdr = h ∧
      x.client.counts = writeAt (List.replicate (Q.countBytes * offsets.length) 0) 0
        ((P.countsBytes (P.handleGetCounts hdr fields (offsetsBytes offsets)
          (P.handleHeader hdr sRespHdr) sResp).2).take
            (min (Q.getCountsNBytes offsets.length) (Q.countBytes * offsets.length))) := by
  have hn : offsets.length % 2 ^ 32 = offsets.length := Nat.mod_eq_of_lt (by omega)
  have hlen := Client.length_composeRequest (by exact hb) hbuf
  set c₀ : Client P Q := Client.lookup reqHdr req offsets reqBuf respBuf respHdr with hc₀
  set s₀ : Conn P := Conn.init sReqHdr sReq sRespHdr sResp b with hs₀
  -- the client resolves, connects, which writes the request and the offsets, and
  -- sees the write complete
  set c₁ : Client P Q := Client.handleResolve { c₀ with op := none } true none with hc₁
  set c₂ : Client P Q := Client.setExpiry { Client.setExpiry { c₁ with op := none } .never with
    reqBuf := buf, op := some .writeRequest, sent := [buf ++ offsetsBytes offsets] } .later with hc₂
  set c₃ : Client P Q := Client.handleWriteRequest { c₂ with op := none } none with hc₃
  have e₂ : c₁.step (.connected none) = some c₂ := by
    show some (Client.handleConnect { c₁ with op := none } none) = some c₂
    unfold Client.handleConnect
    rw [show Client.composeRequest { c₁ with op := none } = .ok buf from hbuf]
    rfl
  have r₃ : Reachable (init c₀ s₀) ⟨c₃, s₀, 0, 0⟩ :=
    ((Relation.ReflTransGen.single (Step.client (x := init c₀ s₀) (c := c₁) (.resolved none true) rfl rfl)).tail
      (Step.client (c := c₂) (.connected none) rfl e₂)).tail
        (Step.client (c := c₃) (.requestWritten none) rfl rfl)
  -- the connection reads the request and the offsets, and writes the header
  set nI : U32 := ⟨offsets.length % 2 ^ 32, Nat.mod_lt _ (by norm_num)⟩ with hnI
  set s₁ : Conn P := { (prepareToReadOffsets { s₀ with
    reqHdr := hdr, respHdr := P.handleHeader hdr sRespHdr, req := fields, nIntervals := nI })
    with phase := .readingOffsets } with hs₁
  set s₂ : Conn P := respondWithHeader (handleGetCounts (storeChunk s₁ (offsetsBytes offsets))) with hs₂
  have hup : c₃.sent.flatten = buf ++ offsetsBytes offsets := by
    show [buf ++ offsetsBytes offsets].flatten = _
    simp
  have e₄ : step s₀ (.requestRead (some buf)) = some s₁ := by
    simp only [hs₀, step, Conn.init, if_true, readRequestDone, hhdr, hok, hreq, Bool.false_eq_true,
      if_false]
    exact readOffsets_prepareToReadOffsets _
  have hrem : s₁.offsetRemaining = (offsetsBytes offsets).length := by
    show getOffsetsNBytes (offsets.length % 2 ^ 32) = _
    rw [hn, getOffsetsNBytes_of_lt hlt, length_offsetsBytes]
  have e₅ : step s₁ (.offsetsRead (some (offsetsBytes offsets))) = some s₂ := by
    simp only [step, show s₁.phase = .readingOffsets from rfl, if_true, readOffsetsDone]
    rw [if_pos ⟨hrem.ge, by rw [hrem]⟩,
      if_pos (show (storeChunk s₁ (offsetsBytes offsets)).offsetRemaining = 0 by
        show s₁.offsetRemaining - _ = 0; rw [hrem, Nat.sub_self])]
  have r₅ : Reachable (init c₀ s₀) ⟨c₃, s₂, 0 + Q.requestBufSize + 8 * offsets.length, 0⟩ :=
    (r₃.tail (Step.requestRead (s := s₁) (by show 0 + _ ≤ c₃.sent.flatten.length; rw [hup]; simp; omega)
      (by show step s₀ (.requestRead (some ((c₃.sent.flatten.drop 0).take Q.requestBufSize))) = _
          rw [hup, List.drop_zero, List.take_left' hlen]; exact e₄))).tail
    (Step.offsetsRead (s := s₂) (n := 8 * offsets.length)
      (by show 0 + Q.requestBufSize + _ ≤ c₃.sent.flatten.length; rw [hup]; simp [hlen])
      (by show step s₁ (.offsetsRead (some ((c₃.sent.flatten.drop (0 + Q.requestBufSize)).take
              (8 * offsets.length)))) = _
          rw [hup, Nat.zero_add, List.drop_left' hlen, ← length_offsetsBytes, List.take_length]
          exact e₅))
  -- the header the connection formats, over the rest of `b`
  set resp := P.handleGetCounts hdr fields (offsetsBytes offsets) (P.handleHeader hdr sRespHdr) sResp
    with hresp
  have hhl : (bytes ++ b.drop bytes.length).length = b.length := length_header (by omega)
  have hoff : (storeChunk s₁ (offsetsBytes offsets)).offsets = offsetsBytes offsets := by
    show writeAt (resizeOffsets [] (offsets.length % 2 ^ 32)) 0 (offsetsBytes offsets) = _
    rw [hn]
    exact writeAt_zero_of_length (by rw [length_offsetsBytes, length_resizeOffsets])
  have hs₂' : s₂ = { handleGetCounts (storeChunk s₁ (offsetsBytes offsets)) with
      respBuf := bytes ++ b.drop bytes.length, phase := .writingHeader,
      writes := [.header (bytes ++ b.drop bytes.length)] } := by
    have : P.responseToChars (handleGetCounts (storeChunk s₁ (offsetsBytes offsets))).respHdr = some bytes := by
      show P.responseToChars (P.handleGetCounts hdr fields
        (storeChunk s₁ (offsetsBytes offsets)).offsets (P.handleHeader hdr sRespHdr) sResp).1 = _
      rw [hoff]; exact hfmt
    rw [hs₂]
    unfold respondWithHeader
    rw [this]
    rfl
  -- the client reads the header, the connection writes the counts, the client reads them
  set c₄ : Client P Q := Client.doReadCounts { Client.setExpiry { c₃ with op := none } .never with
    respBuf := bytes ++ b.drop bytes.length, respHdr := h } with hc₄
  have e₆ : c₃.step (.headerRead (.ok (bytes ++ b.drop bytes.length))) = some c₄ := by
    rw [Client.step, if_pos ⟨rfl, by
      show _ = min Q.responseBufSize respBuf.length
      rw [hhl, hR, hbR, min_self]⟩]
    dsimp only [Client.handleReadResponseHeader]
    rw [show writeAt c₃.respBuf 0 (bytes ++ b.drop bytes.length) =
      bytes ++ b.drop bytes.length from writeAt_zero_of_length (hhl.trans (hbR.trans hR.symm)), hparse]
  set s₃ : Conn P := respondWithCounts s₂ with hs₃
  have e₇ : step s₂ (.written true) = some s₃ := by
    show writeDone s₂ true = _
    rw [writeDone, show s₂.phase = .writingHeader by rw [hs₂']]
    rfl
  have hdown : (s₃.writes.map Write.bytes).flatten = (bytes ++ b.drop bytes.length) ++ P.countsBytes resp.2 := by
    rw [hs₃, hs₂']
    simp [respondWithCounts, handleGetCounts, hoff, Write.bytes]
    rfl
  have r₇ : Reachable (init c₀ s₀) ⟨c₄, s₃, 0 + Q.requestBufSize + 8 * offsets.length, 0 + b.length⟩ :=
    (r₅.tail (Step.server (s := s₃) (.written true) rfl e₇)).tail
      (Step.headerRead (c := c₄) (n := b.length)
        (by show 0 + _ ≤ (s₃.writes.map Write.bytes).flatten.length; rw [hdown, List.length_append, hhl]; omega)
        (by show c₃.step (.headerRead (.ok (((s₃.writes.map Write.bytes).flatten.drop 0).take b.length))) = _
            rw [hdown, List.drop_zero, List.take_left' hhl]; exact e₆))
  set cw := min (Q.getCountsNBytes offsets.length) (Q.countBytes * offsets.length) with hcw
  have hc₄ : c₄.counts = List.replicate (Q.countBytes * offsets.length) 0 := by
    show resizeElems Q.countBytes [] (offsets.length % 2 ^ 32) = _
    rw [hn]
    simp [resizeElems]
  set c₅ : Client P Q := Client.doFinish { c₄ with
    op := none, counts := writeAt c₄.counts 0 ((P.countsBytes resp.2).take cw) } none with hc₅
  have e₈ : c₄.step (.countsRead (.ok ((P.countsBytes resp.2).take cw))) = some c₅ := by
    rw [Client.step, if_pos ⟨rfl, by
      show _ = min (Q.getCountsNBytes (offsets.length % 2 ^ 32)) c₄.counts.length
      rw [hc₄, hn, List.length_take, List.length_replicate, min_eq_left hcounts]⟩]
  have r₈ : Reachable (init c₀ s₀)
      ⟨c₅, s₃, 0 + Q.requestBufSize + 8 * offsets.length, 0 + b.length + cw⟩ :=
    r₇.tail (Step.countsRead (c := c₅) (n := cw)
      (by show 0 + _ + _ ≤ (s₃.writes.map Write.bytes).flatten.length; rw [hdown, List.length_append, hhl]; omega)
      (by show c₄.step (.countsRead (.ok (((s₃.writes.map Write.bytes).flatten.drop (0 + b.length)).take cw))) = _
          rw [hdown, Nat.zero_add, List.drop_left' hhl]; exact e₈))
  refine ⟨_, r₈.tail (Step.server (s := { s₃ with phase := .closed }) (.written true) rfl
    (by show writeDone s₃ true = _; rfl)), rfl, rfl, rfl, rfl, ?_⟩
  show writeAt c₄.counts 0 _ = _
  rw [hc₄]
/-- The lookup of one offset, `(5, 7)`, from a handler that echoes the offsets
runs to its end: the client parses the header `0` as `false` and stores the
eight bytes of the offsets. -/
theorem reachable_lookup_done_echo :
    ∃ x, Reachable (init (Client.lookup () () [(5, 7)] [0, 0] [0] false : Client echoProtocol echoClient)
        (Conn.init () () false [] [0])) x ∧
      x.client.op = none ∧ x.client.status = none ∧ x.server.phase = .closed ∧ x.client.respHdr = false ∧
      x.client.counts = writeAt (List.replicate (echoClient.countBytes * [((5 : U32), (7 : U32))].length) 0) 0
        ((echoProtocol.countsBytes (echoProtocol.handleGetCounts () () (offsetsBytes [(5, 7)])
          (echoProtocol.handleHeader () false) []).2).take
            (min (echoClient.getCountsNBytes [((5 : U32), (7 : U32))].length)
              (echoClient.countBytes * [((5 : U32), (7 : U32))].length))) :=
  @reachable_lookup_done echoProtocol echoClient () () [(5, 7)] [0, 0] rfl [0] rfl false () () false [] [0]
    rfl [1, 1] () 1 () rfl rfl rfl rfl (by norm_num) [0] rfl (by decide) false rfl (by decide)

end Exchange

end Mxe
