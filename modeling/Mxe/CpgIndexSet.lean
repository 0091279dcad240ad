import Mxe.Pattern

/-!
# The set of CpG indexes

The constructor of `cpg_index_set` walks the index directory. For every entry
whose file name `cpg_index_filename_re` accepts, it takes the assembly name
that `assembly_re`, the pattern `^[_[:alnum:]]+`, finds at the front of the
name; it reads the index file and `emplace`s it under the assembly, then reads
the index's default metadata file and `emplace`s that. An `emplace` on a key
already present changes nothing. When either read fails it clears both maps and
returns.

The file system, the two `read`s, `get_default_cpg_index_meta_filename`, and
the file-name pattern (which embeds `cpg_index::filename_extension`) are not in
the constructor's source: they are parameters, and every result below holds for
each directory listing, in each order, and each pattern of read failures. Each
map keeps beside its value the path of the index file the value came from, a
field the code does not have, so that "read from the same file" can be stated.

The invariant `Mxe.SetInv` says that the two maps have the same keys and that
under each key both values were read from one index file and its metadata
file. Every step of the walk keeps it (`Mxe.setInv_loadEntries`); a failed read
anywhere in the listing leaves both maps empty (`Mxe.loadEntries_of_failed`).

With the file-name pattern of the code (`Mxe.cpgIndexFilenameRe`), the key of
an entry is the longest run of word characters at the front of its name
(`Mxe.assemblyMatch_eq_searchPrefix`), and two names may share it. When no
two loaded names do, the walk's steps commute and the order of the listing
does not matter (`Mxe.cpgIndexSet_perm`). But the pattern's `.`s are not
escaped, so `A-cpg_idx` is loaded under `A` beside `A.cpg_idx`, and the first of
the two the iterator yields is the one served
(`Mxe.cpgIndexSet_order_dependent`).

The `index` command checks only that `std::filesystem::path::extension()` of the
file it is to write is the extension, so it writes `stem.cpg_idx` for any
non-empty stem. The walk loads such a file under the assembly `stem` exactly
when the stem is a word of at least two characters
(`Mxe.commandIndexMain_loaded`); `a.cpg_idx`, `hg-38.cpg_idx` and
`hg38.p14.cpg_idx` are written, and the walk never loads them under their stems.
-/

namespace Mxe

/-! ### The walk over the directory -/

/-- `std::regex_search(name, base_match, assembly_re)` with `assembly_re` the
pattern `^[_[:alnum:]]+`: the longest prefix of word characters, when it is not
empty. -/
def assemblyMatch (name : List Byte) : Option (List Byte) :=
  if name.takeWhile isAlnumUnderscore = [] then none else some (name.takeWhile isAlnumUnderscore)

/-- `assembly_re`'s match is the one ECMAScript's matcher finds for
`assembly_ptrn`. -/
theorem assemblyMatch_eq_searchPrefix (name : List Byte) :
    assemblyMatch name = searchPrefix assemblyPtrn name := by
  rw [assemblyMatch, searchPrefix_assemblyPtrn]

/-- The assembly of a name that starts with a word and then a character that is
not a word character is that word. -/
theorem assemblyMatch_word_append {a : List Byte} (ha : a ≠ [])
    (hw : ∀ x ∈ a, isAlnumUnderscore x = true) {c : Byte} (hc : isAlnumUnderscore c = false)
    (rest : List Byte) : assemblyMatch (a ++ c :: rest) = some a := by
  rw [assemblyMatch, List.takeWhile_append_of_pos hw, List.takeWhile_cons_of_neg (by simp [hc]),
    List.append_nil, if_neg ha]

/-- A map keyed by assembly name, each value with the path of the index file
it was read from. -/
abbrev AssemblyMap (α : Type) := List Byte → Option (List Byte × α)

/-- `std::unordered_map::emplace`: inserts unless the key is present. -/
def emplace {α : Type} (m : AssemblyMap α) (k : List Byte) (v : List Byte × α) : AssemblyMap α :=
  fun k' => if k' = k then (m k').or (some v) else m k'

@[simp] theorem emplace_self {α : Type} (m : AssemblyMap α) (k : List Byte) (v : List Byte × α) :
    emplace m k v k = (m k).or (some v) := if_pos rfl

/-- The two maps of a `cpg_index_set`. -/
structure CpgIndexSet (Index Meta : Type) where
  /-- `assembly_to_cpg_index`. -/
  indexes : AssemblyMap Index
  /-- `assembly_to_cpg_index_meta`. -/
  metas : AssemblyMap Meta

/-- Both maps empty, as at the start and after the `clear()`s. -/
def CpgIndexSet.empty {Index Meta : Type} : CpgIndexSet Index Meta := ⟨fun _ => none, fun _ => none⟩

/-- An entry of `std::filesystem::directory_iterator`. -/
structure DirEntry where
  /-- `dir_entry.path().string()`. -/
  path : List Byte
  /-- `dir_entry.path().filename().string()`. -/
  filename : List Byte
  deriving DecidableEq, Repr

section Constructor

variable {Index Meta : Type} (indexFilename : List Byte → Bool)
  (readIndex : List Byte → Option Index) (readMeta : List Byte → Option Meta)
  (metaFilename : List Byte → List Byte)

/-- The constructor's loop from the maps `s` over `entries`: `indexFilename` is
`std::regex_search(name, cpg_index_filename_re)`, `readIndex` and `readMeta` are
`cpg_index::read` and `cpg_index_meta::read` (`none` on an error), and
`metaFilename` is `get_default_cpg_index_meta_filename`. -/
def loadEntries (s : CpgIndexSet Index Meta) : List DirEntry → CpgIndexSet Index Meta
  | [] => s
  | e :: es =>
    if indexFilename e.filename then
      match assemblyMatch e.filename with
      | none => loadEntries s es
      | some assembly =>
        match readIndex e.path with
        | none => .empty
        | some index =>
          match readMeta (metaFilename e.path) with
          | none => .empty
          | some cim =>
            loadEntries ⟨emplace s.indexes assembly (e.path, index),
              emplace s.metas assembly (e.path, cim)⟩ es
    else loadEntries s es

/-- An entry whose name passes, whose assembly is found and whose two reads
succeed is emplaced under its assembly. -/
theorem loadEntries_cons_of_read {s : CpgIndexSet Index Meta} {e : DirEntry} (es : List DirEntry)
    {a : List Byte} {index : Index} {cim : Meta} (hname : indexFilename e.filename = true)
    (ha : assemblyMatch e.filename = some a) (hi : readIndex e.path = some index)
    (hm : readMeta (metaFilename e.path) = some cim) :
    loadEntries indexFilename readIndex readMeta metaFilename s (e :: es) =
      loadEntries indexFilename readIndex readMeta metaFilename
        ⟨emplace s.indexes a (e.path, index), emplace s.metas a (e.path, cim)⟩ es := by
  rw [loadEntries, if_pos hname]
  simp only [ha, hi, hm]

/-- `cpg_index_set::cpg_index_set`, on the directory's entries in the order the
iterator yields them. -/
def cpgIndexSet (entries : List DirEntry) : CpgIndexSet Index Meta :=
  loadEntries indexFilename readIndex readMeta metaFilename .empty entries

/-- `cpg_index_set::get_cpg_index_meta`: the metadata, or `none` for
`invalid_argument`. -/
def getCpgIndexMeta (s : CpgIndexSet Index Meta) (assembly : List Byte) : Option Meta :=
  (s.metas assembly).map Prod.snd

/-- `cpg_index_set::get_cpg_index_with_meta`: the index and the metadata, or
`none` for `invalid_argument`. -/
def getCpgIndexWithMeta (s : CpgIndexSet Index Meta) (assembly : List Byte) : Option (Index × Meta) :=
  (s.indexes assembly).bind fun i => (s.metas assembly).map fun m => (i.2, m.2)

/-! ### The invariant -/

/-- The maps have the same keys, and under each key both values were read
from one index file and its default metadata file. -/
structure SetInv (s : CpgIndexSet Index Meta) : Prop where
  /-- The same keys. -/
  sameKeys : ∀ a, (s.indexes a).isSome = (s.metas a).isSome
  /-- Under each key, one index file. -/
  sameFile : ∀ a p index p' cim, s.indexes a = some (p, index) → s.metas a = some (p', cim) →
    p' = p ∧ readIndex p = some index ∧ readMeta (metaFilename p) = some cim

theorem setInv_empty : SetInv readIndex readMeta metaFilename (CpgIndexSet.empty : CpgIndexSet Index Meta) :=
  ⟨fun _ => rfl, fun _ _ _ _ _ h => nomatch h⟩

/-- Emplacing what one file gave under one key in both maps keeps the
invariant: either the key is new to both, or neither map changes. -/
theorem setInv_emplace {s : CpgIndexSet Index Meta} (hs : SetInv readIndex readMeta metaFilename s)
    {assembly p : List Byte} {index : Index} {cim : Meta} (hi : readIndex p = some index)
    (hm : readMeta (metaFilename p) = some cim) :
    SetInv readIndex readMeta metaFilename
      ⟨emplace s.indexes assembly (p, index), emplace s.metas assembly (p, cim)⟩ := by
  have hkey := hs.sameKeys assembly
  constructor
  · intro a
    by_cases ha : a = assembly
    · simp [emplace, ha]
    · simp [emplace, ha, hs.sameKeys a]
  · intro a q i q' c hI hM
    by_cases ha : a = assembly
    · subst ha
      simp only [emplace, if_true] at hI hM
      cases hI' : s.indexes a <;> cases hM' : s.metas a <;>
        simp only [hI', hM', Option.isSome_none, Option.isSome_some, Bool.false_eq_true,
          Bool.true_eq_false] at hkey hI hM
      · -- the key is new to both maps
        simp only [Option.none_or, Option.some.injEq, Prod.mk.injEq] at hI hM
        obtain ⟨⟨rfl, rfl⟩, rfl, rfl⟩ := And.intro hI hM
        exact ⟨rfl, hi, hm⟩
      · -- the key is in both maps, which do not change
        simp only [Option.or_some] at hI hM
        exact hs.sameFile a q i q' c (hI'.trans hI) (hM'.trans hM)
    · simp only [emplace, ha, if_false] at hI hM
      exact hs.sameFile a q i q' c hI hM

/-- **The walk keeps the invariant**, whatever the entries and the reads. -/
theorem setInv_loadEntries (entries : List DirEntry) :
    ∀ {s : CpgIndexSet Index Meta}, SetInv readIndex readMeta metaFilename s →
      SetInv readIndex readMeta metaFilename (loadEntries indexFilename readIndex readMeta metaFilename s entries) := by
  induction entries with
  | nil => exact id
  | cons e es ih =>
    intro s hs
    rw [loadEntries]
    split
    · split
      · exact ih hs
      · split
        · exact setInv_empty readIndex readMeta metaFilename
        · split
          · exact setInv_empty readIndex readMeta metaFilename
          · exact ih (setInv_emplace readIndex readMeta metaFilename hs ‹_› ‹_›)
    · exact ih hs

/-- **A failed read empties both maps.** When the listing holds an entry that
the walk loads and whose index or metadata read fails, the walk ends with both
maps empty: it fails at that entry, or at an earlier one. -/
theorem loadEntries_of_failed {entries : List DirEntry} {e : DirEntry} (he : e ∈ entries)
    (hname : indexFilename e.filename = true) (hasm : (assemblyMatch e.filename).isSome)
    (hfail : readIndex e.path = none ∨ readMeta (metaFilename e.path) = none)
    (s : CpgIndexSet Index Meta) :
    loadEntries indexFilename readIndex readMeta metaFilename s entries = .empty := by
  induction entries generalizing s with
  | nil => cases he
  | cons e' es ih =>
    rcases List.mem_cons.mp he with rfl | he'
    · obtain ⟨a, ha⟩ := Option.isSome_iff_exists.mp hasm
      rw [loadEntries, if_pos hname, ha]
      rcases hfail with hi | hm
      · simp only [hi]
      · cases readIndex e.path <;> simp only [hm]
    · rw [loadEntries]
      split
      · split
        · exact ih he' s
        · split
          · rfl
          · split
            · rfl
            · exact ih he' _
      · exact ih he' s

/-! ### The order of the listing -/

/-- What the walk emplaces for an entry it loads: the assembly, and the index
and metadata read for it; `none` for an entry it skips or fails on. -/
def entryValue (e : DirEntry) : Option (List Byte × Index × Meta) :=
  if indexFilename e.filename then
    (assemblyMatch e.filename).bind fun a =>
      (readIndex e.path).bind fun index => (readMeta (metaFilename e.path)).map fun cim => (a, index, cim)
  else none

/-- One step of the walk over an entry whose reads do not fail. -/
def loadEntry (s : CpgIndexSet Index Meta) (e : DirEntry) : CpgIndexSet Index Meta :=
  match entryValue indexFilename readIndex readMeta metaFilename e with
  | none => s
  | some (a, index, cim) => ⟨emplace s.indexes a (e.path, index), emplace s.metas a (e.path, cim)⟩

theorem entryValue_eq_some {e : DirEntry} {a : List Byte} {index : Index} {cim : Meta}
    (h : entryValue indexFilename readIndex readMeta metaFilename e = some (a, index, cim)) :
    indexFilename e.filename = true ∧ assemblyMatch e.filename = some a := by
  unfold entryValue at h
  split at h
  case isFalse => cases h
  case isTrue hname =>
  obtain ⟨a', ha', h₁⟩ := Option.bind_eq_some.mp h
  obtain ⟨i, -, h₂⟩ := Option.bind_eq_some.mp h₁
  obtain ⟨m, -, h₃⟩ := Option.map_eq_some'.mp h₂
  exact ⟨hname, ha'.trans (congrArg some (Prod.mk.inj h₃).1)⟩

/-- Where no read fails, the walk is a fold of `Mxe.loadEntry`. -/
theorem loadEntries_eq_foldl {entries : List DirEntry}
    (hread : ∀ e ∈ entries, indexFilename e.filename = true → (assemblyMatch e.filename).isSome →
      readIndex e.path ≠ none ∧ readMeta (metaFilename e.path) ≠ none)
    (s : CpgIndexSet Index Meta) :
    loadEntries indexFilename readIndex readMeta metaFilename s entries =
      entries.foldl (loadEntry indexFilename readIndex readMeta metaFilename) s := by
  induction entries generalizing s with
  | nil => rfl
  | cons e es ih =>
    have ih' := ih fun e' he' => hread e' (List.mem_cons_of_mem _ he')
    rw [loadEntries, List.foldl_cons, loadEntry, entryValue]
    split
    case isFalse => exact ih' s
    case isTrue hname =>
    cases ha : assemblyMatch e.filename with
    | none => exact ih' s
    | some a =>
      obtain ⟨hi, hm⟩ := hread e (List.mem_cons_self _ _) hname (by simp [ha])
      obtain ⟨index, hi⟩ := Option.ne_none_iff_exists'.mp hi
      obtain ⟨cim, hm⟩ := Option.ne_none_iff_exists'.mp hm
      simp only [hi, hm, Option.some_bind, Option.map_some']
      exact ih' _

/-- Emplaces under two different keys commute. -/
theorem emplace_comm {α : Type} (m : AssemblyMap α) {k k' : List Byte} (v v' : List Byte × α)
    (h : k ≠ k') : emplace (emplace m k v) k' v' = emplace (emplace m k' v') k v := by
  funext x
  by_cases hx : x = k
  · subst hx
    simp [emplace, h]
  · by_cases hx' : x = k'
    · subst hx'
      simp [emplace, hx]
    · simp [emplace, hx, hx']

/-- Two entries loaded under different assemblies, or skipped, commute. -/
theorem loadEntry_comm {e e' : DirEntry}
    (hkey : indexFilename e.filename = true → indexFilename e'.filename = true →
      ∀ a, assemblyMatch e.filename = some a → assemblyMatch e'.filename ≠ some a)
    (s : CpgIndexSet Index Meta) :
    loadEntry indexFilename readIndex readMeta metaFilename
        (loadEntry indexFilename readIndex readMeta metaFilename s e) e' =
      loadEntry indexFilename readIndex readMeta metaFilename
        (loadEntry indexFilename readIndex readMeta metaFilename s e') e := by
  unfold loadEntry
  cases hv : entryValue indexFilename readIndex readMeta metaFilename e with
  | none => rfl
  | some x =>
    cases hv' : entryValue indexFilename readIndex readMeta metaFilename e' with
    | none => rfl
    | some y =>
      obtain ⟨a, index, cim⟩ := x
      obtain ⟨a', index', cim'⟩ := y
      have hne : a ≠ a' := by
        rintro rfl
        obtain ⟨hn, ha⟩ := entryValue_eq_some _ _ _ _ hv
        obtain ⟨hn', ha'⟩ := entryValue_eq_some _ _ _ _ hv'
        exact hkey hn hn' a ha ha'
      dsimp only
      rw [emplace_comm _ _ _ hne, emplace_comm _ _ _ hne]

/-- **Without competing names the order does not matter.** When no two entries
of a listing that the walk would load have the same assembly, every order of
the listing gives the same set. -/
theorem cpgIndexSet_perm {entries entries' : List DirEntry} (hp : entries.Perm entries')
    (hkey : ∀ e ∈ entries, ∀ e' ∈ entries, indexFilename e.filename = true →
      indexFilename e'.filename = true → ∀ a, assemblyMatch e.filename = some a →
      assemblyMatch e'.filename = some a → e = e') :
    cpgIndexSet indexFilename readIndex readMeta metaFilename entries =
      cpgIndexSet indexFilename readIndex readMeta metaFilename entries' := by
  by_cases hfail : ∃ e ∈ entries, indexFilename e.filename = true ∧ (assemblyMatch e.filename).isSome ∧
      (readIndex e.path = none ∨ readMeta (metaFilename e.path) = none)
  · obtain ⟨e, he, hname, hasm, hf⟩ := hfail
    rw [cpgIndexSet, cpgIndexSet,
      loadEntries_of_failed indexFilename readIndex readMeta metaFilename he hname hasm hf,
      loadEntries_of_failed indexFilename readIndex readMeta metaFilename (hp.subset he) hname hasm hf]
  · have hread : ∀ e ∈ entries, indexFilename e.filename = true → (assemblyMatch e.filename).isSome →
        readIndex e.path ≠ none ∧ readMeta (metaFilename e.path) ≠ none := by
      intro e he hname hasm
      have := fun h => hfail ⟨e, he, hname, hasm, h⟩
      exact ⟨fun h => this (.inl h), fun h => this (.inr h)⟩
    rw [cpgIndexSet, cpgIndexSet, loadEntries_eq_foldl _ _ _ _ hread,
      loadEntries_eq_foldl _ _ _ _ fun e he => hread e (hp.symm.subset he)]
    refine hp.foldl_eq' (fun e he e' he' s => ?_) _
    by_cases hee : e = e'
    · rw [hee]
    · exact loadEntry_comm _ _ _ _ (fun hn hn' a ha ha' => hee (hkey e he e' he' hn hn' a ha ha')) s

/-- `hg38.cpg_idx` and `mm10.cpg_idx`, each file read as its own path, give the
same set in either order. -/
theorem cpgIndexSet_perm_two :
    cpgIndexSet (cpgIndexFilenameRe cpgIdx) (fun p => some p) (fun p => some p) id
        [⟨[1], [104, 103, 51, 56] ++ cpgIdx.bytes⟩, ⟨[2], [109, 109, 49, 48] ++ cpgIdx.bytes⟩] =
      cpgIndexSet (cpgIndexFilenameRe cpgIdx) (fun p => some p) (fun p => some p) id
        [⟨[2], [109, 109, 49, 48] ++ cpgIdx.bytes⟩, ⟨[1], [104, 103, 51, 56] ++ cpgIdx.bytes⟩] := by
  have h₁ : assemblyMatch ([104, 103, 51, 56] ++ cpgIdx.bytes) = some [104, 103, 51, 56] := by decide
  have h₂ : assemblyMatch ([109, 109, 49, 48] ++ cpgIdx.bytes) = some [109, 109, 49, 48] := by decide
  refine cpgIndexSet_perm _ _ _ _ (.swap _ _ _) ?_
  simp only [List.mem_cons, List.not_mem_nil, or_false]
  rintro e (rfl | rfl) e' (rfl | rfl) - - a h h' <;> simp only [h₁, h₂, Option.some.injEq] at h h'
  all_goals first | rfl | exact absurd (h.trans h'.symm) (by decide)

theorem isSome_getCpgIndexWithMeta {s : CpgIndexSet Index Meta}
    (hs : SetInv readIndex readMeta metaFilename s) (a : List Byte) :
    (getCpgIndexWithMeta s a).isSome = (getCpgIndexMeta s a).isSome := by
  have := hs.sameKeys a
  unfold getCpgIndexWithMeta getCpgIndexMeta
  cases hI : s.indexes a <;> cases hM : s.metas a <;> simp_all

/-- **The constructed set is consistent.** For every listing and every pattern
of read failures: the two maps have the same keys and hold, under each key,
values read from one index file and its metadata file (`Mxe.SetInv`); if a
read the walk makes fails, both maps are empty; and so
`get_cpg_index_with_meta` succeeds for exactly the assemblies
`get_cpg_index_meta` succeeds for. -/
theorem cpgIndexSet_consistent (entries : List DirEntry) :
    SetInv readIndex readMeta metaFilename
        (cpgIndexSet indexFilename readIndex readMeta metaFilename entries) ∧
      (∀ e ∈ entries, indexFilename e.filename = true → (assemblyMatch e.filename).isSome →
        readIndex e.path = none ∨ readMeta (metaFilename e.path) = none →
        cpgIndexSet indexFilename readIndex readMeta metaFilename entries = .empty) ∧
      ∀ a, (getCpgIndexWithMeta (cpgIndexSet indexFilename readIndex readMeta metaFilename entries) a).isSome =
        (getCpgIndexMeta (cpgIndexSet indexFilename readIndex readMeta metaFilename entries) a).isSome := by
  have hinv := setInv_loadEntries indexFilename readIndex readMeta metaFilename entries
    (setInv_empty readIndex readMeta metaFilename)
  exact ⟨hinv, fun e he hname hasm hfail => loadEntries_of_failed indexFilename readIndex readMeta
    metaFilename he hname hasm hfail _, isSome_getCpgIndexWithMeta readIndex readMeta metaFilename hinv⟩

end Constructor

/-! ### Two names for one assembly -/

/-- **Two names compete for one assembly, and the order of the listing
decides.** Take an extension `.rest`, such as `.cpg_idx`, and an assembly `A` of
at least two word characters. The index file `A.rest` and the file `A-rest`
both pass `cpg_index_filename_re`, the second because the pattern's `.`s are not
escaped, and `assembly_re` takes `A` from both, though `A-rest` does not end in
the extension. Listed in either order, the set serves under `A` the index and
metadata read for the entry listed first. -/
theorem cpgIndexSet_order_dependent {Index Meta : Type} {ext : Extension} {rest : List Byte}
    (hext : ext.bytes = period :: rest) {assembly : List Byte} (hlen : 2 ≤ assembly.length)
    (hword : ∀ x ∈ assembly, isAlnumUnderscore x = true)
    {readIndex : List Byte → Option Index} {readMeta : List Byte → Option Meta}
    {metaFilename : List Byte → List Byte} {p₁ p₂ : List Byte} {i₁ i₂ : Index} {m₁ m₂ : Meta}
    (hi₁ : readIndex p₁ = some i₁) (hm₁ : readMeta (metaFilename p₁) = some m₁)
    (hi₂ : readIndex p₂ = some i₂) (hm₂ : readMeta (metaFilename p₂) = some m₂) :
    cpgIndexFilenameRe ext (assembly ++ ext.bytes) = true ∧
      cpgIndexFilenameRe ext (assembly ++ hyphen :: rest) = true ∧
      assemblyMatch (assembly ++ ext.bytes) = some assembly ∧
      assemblyMatch (assembly ++ hyphen :: rest) = some assembly ∧
      ¬ext.bytes <:+ assembly ++ hyphen :: rest ∧
      getCpgIndexWithMeta (cpgIndexSet (cpgIndexFilenameRe ext) readIndex readMeta metaFilename
          [⟨p₁, assembly ++ ext.bytes⟩, ⟨p₂, assembly ++ hyphen :: rest⟩]) assembly = some (i₁, m₁) ∧
      getCpgIndexWithMeta (cpgIndexSet (cpgIndexFilenameRe ext) readIndex readMeta metaFilename
          [⟨p₂, assembly ++ hyphen :: rest⟩, ⟨p₁, assembly ++ ext.bytes⟩]) assembly = some (i₂, m₂) := by
  have hne : assembly ≠ [] := by rintro rfl; simp at hlen
  have hacc₁ : cpgIndexFilenameRe ext (assembly ++ ext.bytes) = true := by
    rw [hext]; exact cpgIndexFilenameRe_word_append hext hlen hword (by decide)
  have hacc₂ : cpgIndexFilenameRe ext (assembly ++ hyphen :: rest) = true :=
    cpgIndexFilenameRe_word_append hext hlen hword (by decide)
  have hkey₁ : assemblyMatch (assembly ++ ext.bytes) = some assembly := by
    rw [hext]; exact assemblyMatch_word_append hne hword (by decide) rest
  have hkey₂ : assemblyMatch (assembly ++ hyphen :: rest) = some assembly :=
    assemblyMatch_word_append hne hword (by decide) rest
  refine ⟨hacc₁, hacc₂, hkey₁, hkey₂, ?_, ?_, ?_⟩
  · rintro ⟨t, ht⟩
    rw [hext] at ht
    have := (List.append_inj' ht rfl).2
    exact absurd (List.cons.inj this).1 (by decide)
  · rw [cpgIndexSet, loadEntries_cons_of_read _ _ _ _ _ hacc₁ hkey₁ hi₁ hm₁,
      loadEntries_cons_of_read _ _ _ _ _ hacc₂ hkey₂ hi₂ hm₂, loadEntries]
    simp [getCpgIndexWithMeta, CpgIndexSet.empty]
  · rw [cpgIndexSet, loadEntries_cons_of_read _ _ _ _ _ hacc₂ hkey₂ hi₂ hm₂,
      loadEntries_cons_of_read _ _ _ _ _ hacc₁ hkey₁ hi₁ hm₁, loadEntries]
    simp [getCpgIndexWithMeta, CpgIndexSet.empty]

/-- The assembly `hg38` with the extension `.cpg_idx`, each file read as its own
path: `hg38.cpg_idx` and `hg38-cpg_idx` compete, and each order of the listing
serves the file listed first. -/
theorem cpgIndexSet_order_dependent_hg38 :
    cpgIndexFilenameRe cpgIdx ([104, 103, 51, 56] ++ cpgIdx.bytes) = true ∧
      cpgIndexFilenameRe cpgIdx ([104, 103, 51, 56] ++ hyphen :: [99, 112, 103, 95, 105, 100, 120]) = true ∧
      assemblyMatch ([104, 103, 51, 56] ++ cpgIdx.bytes) = some [104, 103, 51, 56] ∧
      assemblyMatch ([104, 103, 51, 56] ++ hyphen :: [99, 112, 103, 95, 105, 100, 120]) =
        some [104, 103, 51, 56] ∧
      ¬cpgIdx.bytes <:+ [104, 103, 51, 56] ++ hyphen :: [99, 112, 103, 95, 105, 100, 120] ∧
      getCpgIndexWithMeta (cpgIndexSet (cpgIndexFilenameRe cpgIdx) (fun p => some p) (fun p => some p) id
          [⟨[1], [104, 103, 51, 56] ++ cpgIdx.bytes⟩,
            ⟨[2], [104, 103, 51, 56] ++ hyphen :: [99, 112, 103, 95, 105, 100, 120]⟩])
          [104, 103, 51, 56] = some ([1], [1]) ∧
      getCpgIndexWithMeta (cpgIndexSet (cpgIndexFilenameRe cpgIdx) (fun p => some p) (fun p => some p) id
          [⟨[2], [104, 103, 51, 56] ++ hyphen :: [99, 112, 103, 95, 105, 100, 120]⟩,
            ⟨[1], [104, 103, 51, 56] ++ cpgIdx.bytes⟩])
          [104, 103, 51, 56] = some ([2], [2]) :=
  cpgIndexSet_order_dependent rfl (by decide)
    (by simp only [List.forall_mem_cons, List.not_mem_nil, IsEmpty.forall_iff, implies_true, and_true]; decide)
    rfl rfl rfl rfl

/-! ### The indexes the `index` command writes -/

/-- The character `'/'`, the separator of a POSIX path. -/
def slash : Byte := 47

/-- `std::filesystem::path::filename()` of a POSIX path: what follows its last
`'/'`, or all of it when it has none. -/
def pathFilename (p : List Byte) : List Byte := (p.reverse.takeWhile (· != slash)).reverse

/-- `std::filesystem::path::extension()`: the suffix of the file name from its
last `'.'` on; empty when the name has no `'.'`, when its only `'.'` is its
first character, and for the names `.` and `..`. -/
def pathExtension (p : List Byte) : List Byte :=
  let f := pathFilename p
  let e := (f.reverse.takeWhile (· != period)).reverse
  if f = [period] ∨ f = [period, period] ∨ f.length ≤ e.length + 1 then [] else period :: e

/-- A non-empty extension follows a non-empty stem. -/
theorem exists_stem_of_pathExtension {p : List Byte} (he : pathExtension p ≠ []) :
    ∃ stem, stem ≠ [] ∧ pathFilename p = stem ++ pathExtension p := by
  dsimp only [pathExtension] at he ⊢
  split_ifs at he ⊢ with hc
  · exact absurd rfl he
  generalize pathFilename p = f at *
  have hsplit := List.takeWhile_append_dropWhile (· != period) f.reverse
  generalize f.reverse.takeWhile (· != period) = t at *
  have hlen := congrArg List.length hsplit
  simp only [List.length_append, List.length_reverse, not_or, not_le] at hlen hc
  cases hd : f.reverse.dropWhile (· != period) with
  | nil => rw [hd, List.length_nil] at hlen; omega
  | cons c d =>
    have hc' := List.head_dropWhile_not (· != period) f.reverse (by simp [hd])
    simp only [hd, List.head_cons, bne_eq_false_iff_eq] at hc'
    rw [hd, hc'] at hsplit
    rw [hd, List.length_cons] at hlen
    refine ⟨d.reverse, fun h => by simp [List.reverse_eq_nil_iff.mp h] at hlen; omega, ?_⟩
    rw [← List.reverse_reverse f, ← hsplit]
    simp

/-- Why `command_index_main` returns `EXIT_FAILURE` once its options are parsed
and its logger is up, by the error it logs. -/
inductive IndexFailure
  /-- `Required filename extension {} (given: {})`, with the extension found. -/
  | extension (found : List Byte)
  /-- `Genome file not found: {}`, or `Error constructing index: {}`. -/
  | construct
  /-- `Error writing cpg index {}: {}`. -/
  | writeIndex
  /-- `Error writing cpg index metadata: {}`. -/
  | writeMeta
  deriving DecidableEq, Repr

/-- `command_index_main` from the extension check on: the failure it logs, or
the index file it wrote. `constructed`, `written` and `metaWritten` are whether
`initialize_cpg_index`, `cpg_index::write` and `cpg_index_meta::write`, which are
not in the source, succeed. -/
def commandIndexMain (ext : Extension) (indexFile : List Byte)
    (constructed written metaWritten : Bool) : Except IndexFailure (List Byte) :=
  if pathExtension indexFile ≠ ext.bytes then .error (.extension (pathExtension indexFile))
  else if !constructed then .error .construct
  else if !written then .error .writeIndex
  else if !metaWritten then .error .writeMeta
  else .ok indexFile

theorem commandIndexMain_eq_ok {ext : Extension} {indexFile out : List Byte}
    {constructed written metaWritten : Bool}
    (h : commandIndexMain ext indexFile constructed written metaWritten = .ok out) :
    pathExtension indexFile = ext.bytes ∧ out = indexFile := by
  unfold commandIndexMain at h
  split_ifs at h with hx
  cases h
  exact ⟨not_not.mp hx, rfl⟩

/-- **Which indexes the server loads under their own name.** Every index file
that the `index` command writes is named `stem.rest` for an extension `.rest`,
such as `.cpg_idx`, and a non-empty stem. The walk of `cpg_index_set` over a
directory holding it, whose reads of it succeed, loads it under the assembly
`stem` exactly when the stem is a word of at least two characters. -/
theorem commandIndexMain_loaded {ext : Extension} {rest : List Byte}
    (hext : ext.bytes = period :: rest) {indexFile out : List Byte}
    {constructed written metaWritten : Bool}
    (h : commandIndexMain ext indexFile constructed written metaWritten = .ok out)
    {Index Meta : Type} {readIndex : List Byte → Option Index} {readMeta : List Byte → Option Meta}
    {metaFilename : List Byte → List Byte} {e : DirEntry} (hname : e.filename = pathFilename indexFile)
    {index : Index} {cim : Meta} (hi : readIndex e.path = some index)
    (hm : readMeta (metaFilename e.path) = some cim) :
    out = indexFile ∧ ∃ stem, stem ≠ [] ∧ pathFilename indexFile = stem ++ ext.bytes ∧
      (entryValue (cpgIndexFilenameRe ext) readIndex readMeta metaFilename e = some (stem, index, cim) ↔
        2 ≤ stem.length ∧ ∀ c ∈ stem, isAlnumUnderscore c = true) := by
  obtain ⟨hx, rfl⟩ := commandIndexMain_eq_ok h
  obtain ⟨stem, hs, hf⟩ := exists_stem_of_pathExtension (by rw [hx, hext]; exact List.cons_ne_nil _ _)
  rw [hx] at hf
  refine ⟨rfl, stem, hs, hf, ⟨fun hv => ?_, fun ⟨hlen, hw⟩ => ?_⟩⟩
  · obtain ⟨hre, ha⟩ := entryValue_eq_some _ _ _ _ hv
    rw [hname, hf] at hre ha
    have hw : ∀ c ∈ stem, isAlnumUnderscore c = true := by
      rw [assemblyMatch] at ha
      split_ifs at ha
      exact fun c hc => List.mem_takeWhile_imp (Option.some.inj ha ▸ hc)
    refine ⟨?_, hw⟩
    by_contra hlt
    have h1 : stem.length = 1 := by have := List.length_pos.mpr hs; omega
    obtain ⟨x, rfl⟩ := List.length_eq_one.mp h1
    rw [List.singleton_append, cpgIndexFilenameRe_singleton] at hre
    cases hre
  · rw [hext] at hf
    have hre := cpgIndexFilenameRe_word_append hext hlen hw (by decide : anyChar period = true)
    have ha := assemblyMatch_word_append hs hw (by decide : isAlnumUnderscore period = false) rest
    simp [entryValue, hname, hf, hre, ha, hi, hm]

/-- `xfrase index -x i/hg38.cpg_idx` writes an index that is loaded under
`hg38`. -/
theorem commandIndexMain_loaded_hg38 :
    commandIndexMain cpgIdx ([105, 47, 104, 103, 51, 56] ++ cpgIdx.bytes) true true true =
        .ok ([105, 47, 104, 103, 51, 56] ++ cpgIdx.bytes) ∧
      ∃ stem, stem ≠ [] ∧ pathFilename ([105, 47, 104, 103, 51, 56] ++ cpgIdx.bytes) = stem ++ cpgIdx.bytes ∧
        (entryValue (cpgIndexFilenameRe cpgIdx) (fun p => some p) (fun p => some p) id
            ⟨[1], [104, 103, 51, 56] ++ cpgIdx.bytes⟩ = some (stem, [1], [1]) ↔
          2 ≤ stem.length ∧ ∀ c ∈ stem, isAlnumUnderscore c = true) :=
  have h : commandIndexMain cpgIdx ([105, 47, 104, 103, 51, 56] ++ cpgIdx.bytes) true true true =
      .ok ([105, 47, 104, 103, 51, 56] ++ cpgIdx.bytes) := rfl
  ⟨h, (commandIndexMain_loaded rfl h (e := ⟨[1], [104, 103, 51, 56] ++ cpgIdx.bytes⟩) rfl rfl rfl).2⟩

end Mxe
