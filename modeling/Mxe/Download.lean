import Mxe.Charconv

/-!
# Downloading a file

`download` makes sure the output directory exists and that the output file can
be created, then runs `do_download` as a coroutine. That coroutine opens the
file, resolves the host, connects, sends a `GET` and reads the response into
the file. It then shuts the socket down and fills `header` with the status,
the reason and the response's fields. When any of these steps fails it removes
the file and returns.

Each step is modelled by its outcome, which the network, the peer and the file
system decide: the model quantifies over all of them. The results are about
every combination.

* Once the directory checks pass, the check on `Status` and `Reason` at the
  end of `download` never fires, so `download` returns exactly what `do_download`
  left (`Mxe.download_of_ready`); in particular every error `download` returns
  after running `do_download` is the one `do_download` left
  (`Mxe.download_error`).
* An error comes with no header and no downloaded byte on disk, with one
  exception. A peer that has already closed the connection makes `shutdown`
  report `not_connected`, which `do_download` lets through. The transfer is then
  complete, and the header and the file are there, but `download` still reports
  the error (`Mxe.download_error`).
* No error means the response's body is in the file and its status, reason and
  fields are in the header. The other way to get no error is for
  `create_directories` or `remove` to report failure without an error code,
  which they do when another process made the directory or removed the file
  first. `download` then returns an empty header and no downloaded file: the
  output file as it was after `create_directories`, none after `remove`
  (`Mxe.download_ok`).
-/

namespace Mxe

/-- The values of `std::error_code` that `download` tells apart, and the
others. -/
inductive ErrorCode
  /-- `std::errc::file_exists`. -/
  | fileExists
  /-- `std::errc::invalid_argument`. -/
  | invalidArgument
  /-- `boost::beast::errc::not_connected`. -/
  | notConnected
  /-- Any other error. -/
  | other (code : ℕ)
  deriving DecidableEq, Repr

/-- The HTTP response `async_read` parses, as `do_download` reads it. -/
structure HttpResponse where
  /-- `res.result_int()`. -/
  status : ℕ
  /-- `res.result()` written to a stream. -/
  reason : String
  /-- The fields of `res.base()`, in order: name and value. -/
  fields : List (String × String)
  /-- The body, written to the output file. -/
  body : List Byte

/-- The outcome of each step of `do_download`: `none` for success. -/
structure Transfer where
  /-- `body.open(outfile, file_mode::write, ec)`. -/
  openError : Option ErrorCode
  /-- `resolver.async_resolve`. -/
  resolveError : Option ErrorCode
  /-- `stream.async_connect`, within `connect_timeout_seconds`. -/
  connectError : Option ErrorCode
  /-- `http::async_write` of the request, within `download_timeout_seconds`. -/
  writeError : Option ErrorCode
  /-- `http::async_read` of the response. -/
  response : Except ErrorCode HttpResponse
  /-- `socket().shutdown(shutdown_both, ec)`. -/
  shutdownError : Option ErrorCode

/-- What the file system answers to `download`'s checks on the output. -/
structure DirOutcomes where
  /-- `std::filesystem::exists(outdir)`. -/
  outdirExists : Bool
  /-- `std::filesystem::is_directory(outdir)`. -/
  outdirIsDirectory : Bool
  /-- The result of `create_directories(outdir, out_ec)`. -/
  madeDir : Bool
  /-- The error it sets. -/
  createError : Option ErrorCode
  /-- `std::ofstream out_test(outfile)`: `none` when it opens, otherwise the
  error of `errno`. -/
  testError : Option ErrorCode
  /-- The result of `remove(outfile, out_ec)`: `false` without an error when
  the file was already gone. -/
  removed : Bool
  /-- The error it sets. -/
  removeError : Option ErrorCode

/-- `header.emplace(k, v)` on the header map, kept as its list of entries:
nothing changes when `k` is already a key (`Mxe.emplace` is the same call on
the maps of `cpg_index_set`). -/
def headerEmplace (header : List (String × String)) (k v : String) : List (String × String) :=
  if k ∈ header.map Prod.fst then header else header ++ [(k, v)]

/-- The header `do_download` fills after `header.clear()`: `Status`, `Reason`,
then every field of the response. -/
def responseHeader (res : HttpResponse) : List (String × String) :=
  res.fields.foldl (fun h f => headerEmplace h f.1 f.2)
    (headerEmplace (headerEmplace [] "Status" (toString res.status)) "Reason" res.reason)

/-- What `do_download` writes to: `ec`, `header`, and the output file, absent
(`none`) or with its bytes. -/
structure DownloadState where
  ec : Option ErrorCode
  header : List (String × String)
  outfile : Option (List Byte)

/-- A failed step: `ec` holds its error and `std::filesystem::remove(outfile)`
deletes the file. -/
def DownloadState.fail (st : DownloadState) (e : ErrorCode) : DownloadState :=
  { st with ec := some e, outfile := none }

/-- The end of a transfer: the body is in the file, and `header` holds the
response's. -/
def DownloadState.finish (ec : Option ErrorCode) (res : HttpResponse) : DownloadState :=
  ⟨ec, responseHeader res, some res.body⟩

/-- `do_download`. -/
def doDownload (t : Transfer) (st : DownloadState) : DownloadState :=
  match t.openError with
  | some e => { st with ec := some e }
  | none =>
    match t.resolveError with
    | some e => st.fail e
    | none =>
      match t.connectError with
      | some e => st.fail e
      | none =>
        match t.writeError with
        | some e => st.fail e
        | none =>
          match t.response with
          | .error e => st.fail e
          | .ok res =>
            match t.shutdownError with
            | some e => if e ≠ .notConnected then st.fail e else .finish (some e) res
            | none => .finish none res

/-- `download`: the header and the error code it returns, and the output file
after it, from the file as it was. -/
def download (d : DirOutcomes) (t : Transfer) (outfile : Option (List Byte)) :
    List (String × String) × Option ErrorCode × Option (List Byte) :=
  if d.outdirExists ∧ ¬d.outdirIsDirectory then ([], some .fileExists, outfile)
  else if ¬d.outdirExists ∧ ¬d.madeDir then ([], d.createError, outfile)
  else
    match d.testError with
    | some e => ([], some e, outfile)
    | none =>
      if ¬d.removed then ([], d.removeError, if d.removeError = none then none else some [])
      else
        let st := doDownload t ⟨none, [], none⟩
        (st.header,
          if st.ec = none ∧ ¬("Status" ∈ st.header.map Prod.fst ∧ "Reason" ∈ st.header.map Prod.fst) then
            some .invalidArgument
          else st.ec,
          st.outfile)

/-! ### How `do_download` ends -/

theorem mem_headerEmplace_of_mem {header : List (String × String)} {k' : String} (k v : String)
    (h : k' ∈ header.map Prod.fst) : k' ∈ (headerEmplace header k v).map Prod.fst := by
  unfold headerEmplace
  split <;> simp_all

/-- The header of a response has `Status` and `Reason`, whatever its fields. -/
theorem status_reason_mem_responseHeader (res : HttpResponse) :
    "Status" ∈ (responseHeader res).map Prod.fst ∧ "Reason" ∈ (responseHeader res).map Prod.fst := by
  have hfold : ∀ (fs : List (String × String)) (h : List (String × String)) (k : String),
      k ∈ h.map Prod.fst → k ∈ (fs.foldl (fun h f => headerEmplace h f.1 f.2) h).map Prod.fst := by
    intro fs
    induction fs with
    | nil => exact fun _ _ h => h
    | cons f fs ih => exact fun h k hk => ih _ k (mem_headerEmplace_of_mem _ _ hk)
  unfold responseHeader
  exact ⟨hfold _ _ _ (by simp [headerEmplace]), hfold _ _ _ (by simp [headerEmplace])⟩

/-- **Every way `do_download` ends.** A file that does not open leaves
everything else as it was. Any other failed step removes the file. A transfer
that completes leaves the body in the file and the response's header, with no
error or with the `not_connected` of the shutdown. -/
theorem doDownload_cases (t : Transfer) (st : DownloadState) :
    (∃ e, doDownload t st = { st with ec := some e }) ∨
      (∃ e, doDownload t st = st.fail e) ∨
      (∃ res, t.response = .ok res ∧ (t.shutdownError = none ∨ t.shutdownError = some .notConnected) ∧
        doDownload t st = .finish t.shutdownError res) := by
  unfold doDownload
  split
  · exact .inl ⟨_, rfl⟩
  split
  · exact .inr (.inl ⟨_, rfl⟩)
  split
  · exact .inr (.inl ⟨_, rfl⟩)
  split
  · exact .inr (.inl ⟨_, rfl⟩)
  split
  · exact .inr (.inl ⟨_, rfl⟩)
  rename_i res hres
  split
  · rename_i e he
    split
    · exact .inr (.inl ⟨_, rfl⟩)
    · rename_i hnc
      rw [not_not] at hnc
      exact .inr (.inr ⟨res, hres, .inr (hnc ▸ he), by rw [he, hnc]⟩)
  · rename_i he
    exact .inr (.inr ⟨res, hres, .inl he, by rw [he]⟩)

/-- When `do_download` ends without an error, `header` has `Status` and
`Reason`. -/
theorem doDownload_status_reason (t : Transfer) (st : DownloadState)
    (h : (doDownload t st).ec = none) :
    "Status" ∈ (doDownload t st).header.map Prod.fst ∧
      "Reason" ∈ (doDownload t st).header.map Prod.fst := by
  rcases doDownload_cases t st with ⟨e, he⟩ | ⟨e, he⟩ | ⟨res, -, -, he⟩
  · rw [he] at h; cases h
  · rw [he] at h; cases h
  · rw [he]
    exact status_reason_mem_responseHeader res

/-! ### What `download` returns -/

/-- The output directory is there or was made, and the test file was created
and removed: `download` goes on to `do_download`. -/
def DirOutcomes.Ready (d : DirOutcomes) : Prop :=
  (d.outdirExists = true → d.outdirIsDirectory = true) ∧ (d.outdirExists = false → d.madeDir = true) ∧
    d.testError = none ∧ d.removed = true

/-- The state `download` hands to `do_download`: no error, an empty header,
and the output file removed. -/
def DownloadState.init : DownloadState := ⟨none, [], none⟩

/-- **The check on `Status` and `Reason` never fires.** Once the output
directory is there and the test file was created and removed, `download`
returns the header, the error and the file that `do_download` left. -/
theorem download_of_ready {d : DirOutcomes} (hd : d.Ready) (t : Transfer)
    (outfile : Option (List Byte)) :
    download d t outfile =
      ((doDownload t .init).header, (doDownload t .init).ec, (doDownload t .init).outfile) := by
  obtain ⟨h₁, h₂, h₃, h₄⟩ := hd
  have hc₁ : ¬(d.outdirExists = true ∧ ¬d.outdirIsDirectory = true) := fun h => h.2 (h₁ h.1)
  have hc₂ : ¬(¬d.outdirExists = true ∧ ¬d.madeDir = true) := fun h => h.2 (h₂ (by simpa using h.1))
  simp only [download, if_neg hc₁, if_neg hc₂, h₃, h₄, not_true_eq_false, if_false]
  rw [if_neg fun h => h.2 (doDownload_status_reason t _ h.1)]
  rfl

/-- Before `do_download`, `download` stops with an empty header: with an error
at the directory checks or at the test file, and the output file as it was;
without one after `create_directories` reported failure with no error code,
the output file as it was; with an error from `remove`, and the file truncated
by the test; or without one after `remove` found the file gone. -/
theorem download_of_not_ready {d : DirOutcomes} (hd : ¬d.Ready) (t : Transfer)
    (outfile : Option (List Byte)) :
    (∃ e, download d t outfile = ([], some e, outfile)) ∨
      (d.outdirExists = false ∧ d.madeDir = false ∧ d.createError = none ∧
        download d t outfile = ([], none, outfile)) ∨
      (∃ e, download d t outfile = ([], some e, some [])) ∨
      (d.removed = false ∧ d.removeError = none ∧ download d t outfile = ([], none, none)) := by
  unfold download
  split
  · exact .inl ⟨_, rfl⟩
  rename_i h₁
  split
  · rename_i h₂
    cases hc : d.createError
    · exact .inr (.inl ⟨by simpa using h₂.1, by simpa using h₂.2, rfl, rfl⟩)
    · exact .inl ⟨_, rfl⟩
  rename_i h₂
  split
  · exact .inl ⟨_, rfl⟩
  rename_i hte
  split
  · rename_i hr
    cases hc : d.removeError
    · exact .inr (.inr (.inr ⟨by simpa using hr, rfl, rfl⟩))
    · exact .inr (.inr (.inl ⟨_, rfl⟩))
  rename_i hr
  refine absurd ⟨fun h => ?_, fun h => ?_, hte, by simpa using hr⟩ hd
  · by_contra hd
    exact h₁ ⟨h, hd⟩
  · by_contra hm
    exact h₂ ⟨by simp [h], hm⟩

/-- **An error leaves no downloaded byte, except `not_connected`, and the check
on `Status` and `Reason` never fires.** Whenever `download` returns an error,
it is the error `do_download` left, if `download` ran it; and the header is
empty and the output file is as it was, empty, or gone. The one exception is a
`not_connected` from the shutdown after a complete transfer: `download` returns
it with the full header and the whole body in the file. -/
theorem download_error (d : DirOutcomes) (t : Transfer) (outfile : Option (List Byte)) {e : ErrorCode}
    (h : (download d t outfile).2.1 = some e) :
    (d.Ready → (doDownload t .init).ec = some e) ∧
      (((download d t outfile).1 = [] ∧ ((download d t outfile).2.2 = outfile ∨
          (download d t outfile).2.2 = some [] ∨ (download d t outfile).2.2 = none)) ∨
        (e = .notConnected ∧ ∃ res, t.response = .ok res ∧ t.shutdownError = some .notConnected ∧
          download d t outfile = (responseHeader res, some .notConnected, some res.body))) := by
  refine ⟨fun hd => by rwa [download_of_ready hd] at h, ?_⟩
  by_cases hd : d.Ready
  swap
  · rcases download_of_not_ready hd t outfile with ⟨e', hd⟩ | ⟨-, -, -, hd⟩ | ⟨e', hd⟩ | ⟨-, -, hd⟩
    · exact .inl ⟨by rw [hd], .inl (by rw [hd])⟩
    · rw [hd] at h; cases h
    · exact .inl ⟨by rw [hd], .inr (.inl (by rw [hd]))⟩
    · rw [hd] at h; cases h
  rw [download_of_ready hd] at h ⊢
  rcases doDownload_cases t .init with ⟨e', he⟩ | ⟨e', he⟩ | ⟨res, hres, hsd, he⟩
  · exact .inl ⟨by rw [he]; rfl, .inr (.inr (by rw [he]; rfl))⟩
  · exact .inl ⟨by rw [he]; rfl, .inr (.inr (by rw [he]; rfl))⟩
  · rw [he] at h ⊢
    rcases hsd with hsd | hsd <;> rw [hsd] at h ⊢
    · cases h
    · cases h
      exact .inr ⟨rfl, res, hres, rfl, rfl⟩

/-- A complete transfer whose peer has closed the connection: `download`
reports the `not_connected` of `do_download`, with the header and the file. -/
theorem download_error_notConnected :
    (download ⟨true, true, false, none, none, true, none⟩
        ⟨none, none, none, none, .ok ⟨200, "OK", [], [7]⟩, some .notConnected⟩ (some [1])).2.1 =
        some .notConnected ∧
      ((DirOutcomes.Ready ⟨true, true, false, none, none, true, none⟩ →
          (doDownload ⟨none, none, none, none, .ok ⟨200, "OK", [], [7]⟩, some .notConnected⟩ .init).ec =
            some .notConnected) ∧
        (((download ⟨true, true, false, none, none, true, none⟩
            ⟨none, none, none, none, .ok ⟨200, "OK", [], [7]⟩, some .notConnected⟩ (some [1])).1 = [] ∧
          ((download ⟨true, true, false, none, none, true, none⟩
              ⟨none, none, none, none, .ok ⟨200, "OK", [], [7]⟩, some .notConnected⟩ (some [1])).2.2 =
              some [1] ∨
            (download ⟨true, true, false, none, none, true, none⟩
              ⟨none, none, none, none, .ok ⟨200, "OK", [], [7]⟩, some .notConnected⟩ (some [1])).2.2 =
              some [] ∨
            (download ⟨true, true, false, none, none, true, none⟩
              ⟨none, none, none, none, .ok ⟨200, "OK", [], [7]⟩, some .notConnected⟩ (some [1])).2.2 =
              none)) ∨
          (ErrorCode.notConnected = .notConnected ∧ ∃ res,
            (Except.ok ⟨200, "OK", [], [7]⟩ : Except ErrorCode HttpResponse) = .ok res ∧
            some ErrorCode.notConnected = some .notConnected ∧
            download ⟨true, true, false, none, none, true, none⟩
                ⟨none, none, none, none, .ok ⟨200, "OK", [], [7]⟩, some .notConnected⟩ (some [1]) =
              (responseHeader res, some .notConnected, some res.body)))) :=
  ⟨rfl, download_error ⟨true, true, false, none, none, true, none⟩
    ⟨none, none, none, none, .ok ⟨200, "OK", [], [7]⟩, some .notConnected⟩ (some [1]) rfl⟩

/-- **No error means the body is downloaded, or a race.** Whenever `download`
returns no error, either the transfer completed and the shutdown succeeded, and
`download` returns the response's header with the body in the file; or
`create_directories` reported failure without an error code, and `download`
returns an empty header with the output file as it was; or `remove` reported
failure without an error code, and `download` returns an empty header with no
output file. -/
theorem download_ok (d : DirOutcomes) (t : Transfer) (outfile : Option (List Byte))
    (h : (download d t outfile).2.1 = none) :
    (∃ res, t.response = .ok res ∧ t.shutdownError = none ∧
        download d t outfile = (responseHeader res, none, some res.body)) ∨
      (d.outdirExists = false ∧ d.madeDir = false ∧ d.createError = none ∧
          download d t outfile = ([], none, outfile)) ∨
      (d.removed = false ∧ d.removeError = none ∧ download d t outfile = ([], none, none)) := by
  by_cases hd : d.Ready
  swap
  · rcases download_of_not_ready hd t outfile with ⟨e', hd⟩ | hc | ⟨e', hd⟩ | hr
    · rw [hd] at h; cases h
    · exact .inr (.inl hc)
    · rw [hd] at h; cases h
    · exact .inr (.inr hr)
  rw [download_of_ready hd] at h ⊢
  rcases doDownload_cases t .init with ⟨e', he⟩ | ⟨e', he⟩ | ⟨res, hres, hsd, he⟩
  · rw [he] at h; cases h
  · rw [he] at h; cases h
  · rw [he] at h ⊢
    rcases hsd with hsd | hsd <;> rw [hsd] at h ⊢
    · exact .inl ⟨res, hres, rfl, rfl⟩
    · cases h

/-- Another process removed the test file first: `remove` reports failure
without an error code, and `download` returns no error, no header and no
file. -/
theorem download_ok_removed :
    (download ⟨true, true, false, none, none, false, none⟩
        ⟨none, none, none, none, .ok ⟨200, "OK", [], [7]⟩, none⟩ (some [1])).2.1 = none ∧
      ((∃ res, (Except.ok ⟨200, "OK", [], [7]⟩ : Except ErrorCode HttpResponse) = .ok res ∧
          (none : Option ErrorCode) = none ∧
          download ⟨true, true, false, none, none, false, none⟩
              ⟨none, none, none, none, .ok ⟨200, "OK", [], [7]⟩, none⟩ (some [1]) =
            (responseHeader res, none, some res.body)) ∨
        (true = false ∧ false = false ∧ (none : Option ErrorCode) = none ∧
          download ⟨true, true, false, none, none, false, none⟩
              ⟨none, none, none, none, .ok ⟨200, "OK", [], [7]⟩, none⟩ (some [1]) = ([], none, some [1])) ∨
        (false = false ∧ (none : Option ErrorCode) = none ∧
          download ⟨true, true, false, none, none, false, none⟩
              ⟨none, none, none, none, .ok ⟨200, "OK", [], [7]⟩, none⟩ (some [1]) = ([], none, none))) :=
  ⟨rfl, download_ok ⟨true, true, false, none, none, false, none⟩
    ⟨none, none, none, none, .ok ⟨200, "OK", [], [7]⟩, none⟩ (some [1]) rfl⟩

end Mxe
