import Mxe.Charconv

/-!
# The file-name patterns of the index directory

`cpg_index_set` finds its indexes with two `std::regex` patterns in the default
ECMAScript grammar. `assembly_ptrn` is `^[_[:alnum:]]+`, and the file-name
pattern is `std::format("{}.{}$", assembly_ptrn, cpg_index::filename_extension)`.
The `.` between the two is not escaped. In a pattern it matches any character
but a line terminator, and so does every `.` of the extension
(`Mxe.Extension`). Neither pattern needs more of ECMAScript than a sequence of
atoms, each one character of a class or, with `+`, one or more of them
(`Mxe.Atom`).

`std::regex_search` runs ECMAScript's backtracking matcher, which tries the
choices of a `+` greedily, longest first (`Mxe.backtrack`). What a pattern
matches is the language `Mxe.Matches`: the matcher finds a match exactly when
the language holds one (`Mxe.backtrack_isSome_iff`), and on the assembly
pattern the match it returns is the longest run of word characters at the
front of the name (`Mxe.searchPrefix_assemblyPtrn`). So a file name is accepted
exactly when it is a non-empty run of word characters, then any one character,
then a text the extension's pattern matches (`Mxe.cpgIndexFilenameRe_iff`): the
character before the extension may be anything, and a one-character assembly
leaves no room for it (`Mxe.cpgIndexFilenameRe_singleton`).
-/

namespace Mxe

/-! ### Patterns and what they match -/

/-- The character `'\r'`, the other line terminator. -/
def carriageReturn : Byte := 13

/-- The character `'.'`. -/
def period : Byte := 46

/-- The character `'-'`. -/
def hyphen : Byte := 45

/-- Whether the ECMAScript pattern `.` matches a character: every character but
the line terminators `'\n'` and `'\r'`. -/
def anyChar (c : Byte) : Bool := c != newline && c != carriageReturn

/-- An atom of the patterns `cpg_index_set` builds. -/
inductive Atom
  /-- One character of a class: a literal, `.`, or a bracket expression. -/
  | one (p : Byte → Bool)
  /-- A bracket expression followed by `+`: one or more characters of the class. -/
  | plus (p : Byte → Bool)

/-- The strings a sequence of atoms matches as a whole. -/
def Matches : List Atom → List Byte → Prop
  | [], s => s = []
  | .one p :: pat, s => ∃ c t, s = c :: t ∧ p c = true ∧ Matches pat t
  | .plus p :: pat, s => ∃ u t, s = u ++ t ∧ u ≠ [] ∧ (∀ c ∈ u, p c = true) ∧ Matches pat t

/-- ECMAScript's backtracking matcher on a sequence of atoms, from the front of
`s`. A `+` takes as many characters as it can and gives them back one at a time
while the rest of the pattern fails; `k` is the continuation, given the text
left after the match. -/
def backtrack {α : Type} : List Atom → List Byte → (List Byte → Option α) → Option α
  | [], s, k => k s
  | .one p :: pat, c :: s, k => if p c then backtrack pat s k else none
  | .plus p :: pat, c :: s, k =>
    if p c then (backtrack (.plus p :: pat) s k).or (backtrack pat s k) else none
  | _ :: _, [], _ => none

/-- `std::regex_search(s, re)` for the pattern `^pat$`: a match from the front
of `s` that ends at its end. -/
def searchWhole (pat : List Atom) (s : List Byte) : Bool :=
  (backtrack pat s fun rest => if rest = [] then some () else none).isSome

/-- `std::regex_search(s, m, re)` for the pattern `^pat`: `m[0]`, the text of the
first match the matcher finds, or `none`. -/
def searchPrefix (pat : List Atom) (s : List Byte) : Option (List Byte) :=
  (backtrack pat s some).map fun rest => s.take (s.length - rest.length)

theorem not_matches_cons_nil (a : Atom) (pat : List Atom) : ¬Matches (a :: pat) [] := by
  cases a with
  | one p => rintro ⟨c, t, h, -⟩; cases h
  | plus p =>
    rintro ⟨u, t, h, hu, -⟩
    exact hu (List.append_eq_nil.mp h.symm).1

theorem matches_one_cons {p : Byte → Bool} {pat : List Atom} {c : Byte} {s : List Byte} :
    Matches (.one p :: pat) (c :: s) ↔ p c = true ∧ Matches pat s := by
  constructor
  · rintro ⟨c', t, h, hp, hm⟩
    obtain ⟨rfl, rfl⟩ := List.cons.inj h
    exact ⟨hp, hm⟩
  · rintro ⟨hp, hm⟩
    exact ⟨c, s, rfl, hp, hm⟩

theorem matches_plus_cons {p : Byte → Bool} {pat : List Atom} {c : Byte} {s : List Byte} :
    Matches (.plus p :: pat) (c :: s) ↔
      p c = true ∧ (Matches (.plus p :: pat) s ∨ Matches pat s) := by
  constructor
  · rintro ⟨_ | ⟨c', u⟩, t, h, hu, hp, hm⟩
    · exact absurd rfl hu
    obtain ⟨rfl, rfl⟩ := List.cons.inj h
    refine ⟨hp c (List.mem_cons_self _ _), ?_⟩
    rcases u with _ | ⟨d, u⟩
    · exact .inr hm
    · exact .inl ⟨d :: u, t, rfl, List.cons_ne_nil _ _,
        fun x hx => hp x (List.mem_cons_of_mem _ hx), hm⟩
  · rintro ⟨hc, ⟨u, t, rfl, -, hp, hm⟩ | hm⟩
    · exact ⟨c :: u, t, rfl, List.cons_ne_nil _ _,
        List.forall_mem_cons.mpr ⟨hc, hp⟩, hm⟩
    · exact ⟨[c], s, rfl, List.cons_ne_nil _ _, by simpa using hc, hm⟩

theorem exists_matches_nil_iff {s : List Byte} {q : List Byte → Prop} :
    (∃ u v, s = u ++ v ∧ Matches [] u ∧ q v) ↔ q s := by
  constructor
  · rintro ⟨u, v, rfl, hu, hq⟩
    rwa [show u = [] from hu, List.nil_append]
  · exact fun h => ⟨[], s, rfl, rfl, h⟩

/-- A match of a non-empty pattern takes the first character. -/
theorem exists_matches_cons_iff {a : Atom} {pat : List Atom} {c : Byte} {s : List Byte}
    {q : List Byte → Prop} :
    (∃ u v, c :: s = u ++ v ∧ Matches (a :: pat) u ∧ q v) ↔
      ∃ u v, s = u ++ v ∧ Matches (a :: pat) (c :: u) ∧ q v := by
  constructor
  · rintro ⟨_ | ⟨c', u⟩, v, h, hm, hq⟩
    · exact absurd hm (not_matches_cons_nil a pat)
    obtain ⟨rfl, rfl⟩ := List.cons.inj h
    exact ⟨u, v, rfl, hm, hq⟩
  · rintro ⟨u, v, rfl, hm, hq⟩
    exact ⟨c :: u, v, rfl, hm, hq⟩

/-- **The backtracking matcher is complete**: it finds a match, and the
continuation accepts what is left, exactly when some prefix of `s` is in the
pattern's language and the continuation accepts the rest. -/
theorem backtrack_isSome_iff {α : Type} (k : List Byte → Option α) :
    ∀ (s : List Byte) (pat : List Atom),
      (backtrack pat s k).isSome ↔ ∃ u v, s = u ++ v ∧ Matches pat u ∧ (k v).isSome := by
  intro s
  induction s with
  | nil =>
    intro pat
    cases pat with
    | nil => rw [backtrack]; exact (exists_matches_nil_iff (q := fun v => (k v).isSome = true)).symm
    | cons a pat =>
      simp only [backtrack, Option.isSome_none, Bool.false_eq_true, false_iff, not_exists, not_and]
      intro u v h hm
      exact (not_matches_cons_nil a pat ((List.append_eq_nil.mp h.symm).1 ▸ hm)).elim
  | cons c s ih =>
    intro pat
    cases pat with
    | nil => rw [backtrack]; exact (exists_matches_nil_iff (q := fun v => (k v).isSome = true)).symm
    | cons a pat =>
      rw [exists_matches_cons_iff]
      cases a with
      | one p =>
        by_cases hp : p c = true
        · simp only [backtrack, hp, if_true, ih, matches_one_cons, true_and]
        · simp [backtrack, hp, matches_one_cons]
      | plus p =>
        by_cases hp : p c = true
        · simp only [backtrack, hp, if_true, Option.isSome_or, Bool.or_eq_true, ih,
            matches_plus_cons, true_and, or_and_right, and_or_left, exists_or]
        · simp [backtrack, hp, matches_plus_cons]

/-- `^pat$` finds a match exactly when `s` is in the pattern's language. -/
theorem searchWhole_iff (pat : List Atom) (s : List Byte) :
    searchWhole pat s = true ↔ Matches pat s := by
  rw [searchWhole, backtrack_isSome_iff]
  constructor
  · rintro ⟨u, v, rfl, hm, hv⟩
    rw [show v = [] by by_contra h; simp [h] at hv, List.append_nil]
    exact hm
  · intro hm
    exact ⟨s, [], (List.append_nil s).symm, hm, rfl⟩

/-- **`p+` is greedy**: from the front of `s` it takes the longest run of
characters of the class. -/
theorem backtrack_plus_nil (p : Byte → Bool) (s : List Byte) :
    backtrack [.plus p] s some = if s.takeWhile p = [] then none else some (s.dropWhile p) := by
  induction s with
  | nil => rfl
  | cons c s ih =>
    by_cases hp : p c = true
    · rw [backtrack, if_pos hp, ih, List.takeWhile_cons_of_pos hp, List.dropWhile_cons_of_pos hp,
        if_neg (List.cons_ne_nil _ _)]
      by_cases hs : s.takeWhile p = []
      · have hdrop := List.takeWhile_append_dropWhile p s
        rw [hs, List.nil_append] at hdrop
        rw [if_pos hs, hdrop, Option.none_or, backtrack]
      · rw [if_neg hs]
        rfl
    · rw [backtrack, if_neg hp, List.takeWhile_cons_of_neg hp, if_pos rfl]

/-- `assembly_ptrn`, `^[_[:alnum:]]+`, without its anchor. -/
def assemblyPtrn : List Atom := [.plus isAlnumUnderscore]

/-- `base_match[0]` of `assembly_re`: the longest run of word characters at the
front of the name, when it is not empty. -/
theorem searchPrefix_assemblyPtrn (s : List Byte) :
    searchPrefix assemblyPtrn s =
      if s.takeWhile isAlnumUnderscore = [] then none else some (s.takeWhile isAlnumUnderscore) := by
  rw [searchPrefix, assemblyPtrn, backtrack_plus_nil]
  split
  · rfl
  · have hlen := congrArg List.length (List.takeWhile_append_dropWhile isAlnumUnderscore s)
    rw [List.length_append] at hlen
    rw [Option.map_some', show s.length - (s.dropWhile isAlnumUnderscore).length =
      (s.takeWhile isAlnumUnderscore).length by omega, take_length_takeWhile]

/-! ### The file-name pattern -/

/-- `cpg_index::filename_extension`, a constant the sources use and do not
define. The index command compares it with the `std::filesystem::path::extension()`
of the index file, and documents it as `'.cpg_idx'`. The results hold for every
extension of word characters and `.`s, whose text, as part of a pattern, is read
one atom per character. -/
structure Extension where
  /-- The characters of the extension. -/
  bytes : List Byte
  /-- Only word characters and `.`s: no other character of the pattern syntax. -/
  plain : ∀ c ∈ bytes, isAlnumUnderscore c = true ∨ c = period

/-- `'.cpg_idx'`. -/
def cpgIdx : Extension :=
  ⟨[46, 99, 112, 103, 95, 105, 100, 120], by
    simp only [List.forall_mem_cons, List.not_mem_nil, IsEmpty.forall_iff, implies_true, and_true]
    decide⟩

/-- The atom a character of the extension reads as: `.` for `'.'`, and the
character itself for a word character. -/
def extAtom (c : Byte) : Atom := if c = period then .one anyChar else .one (· == c)

/-- `cpg_index_filename_ptrn`, the text of
`std::format("{}.{}$", assembly_ptrn, cpg_index::filename_extension)`, without its
anchors: the assembly pattern, the `.` of the format string, the extension. -/
def cpgIndexFilenamePtrn (ext : Extension) : List Atom :=
  assemblyPtrn ++ .one anyChar :: ext.bytes.map extAtom

/-- `std::regex_search(name, cpg_index_filename_re)`. -/
def cpgIndexFilenameRe (ext : Extension) (name : List Byte) : Bool :=
  searchWhole (cpgIndexFilenamePtrn ext) name

/-- Whether a character of the extension's pattern matches a character of a
name. -/
def extCharMatches (x y : Byte) : Bool := if x = period then anyChar y else y == x

theorem matches_map_extAtom (b e : List Byte) :
    Matches (b.map extAtom) e ↔ List.Forall₂ (fun x y => extCharMatches x y = true) b e := by
  induction b generalizing e with
  | nil => rw [List.map_nil, List.forall₂_nil_left_iff]; exact Iff.rfl
  | cons x b ih =>
    rw [List.map_cons]
    cases e with
    | nil =>
      exact iff_of_false (not_matches_cons_nil _ _) (by simp)
    | cons y e =>
      rw [List.forall₂_cons, ← ih, extAtom, extCharMatches]
      split <;> exact matches_one_cons

/-- The extension's pattern matches the extension itself. -/
theorem matches_map_extAtom_self (b : List Byte) : Matches (b.map extAtom) b := by
  rw [matches_map_extAtom]
  refine List.forall₂_same.mpr fun x _ => ?_
  unfold extCharMatches
  split
  · subst x; rfl
  · exact beq_self_eq_true x

/-- **The names the file-name pattern accepts**: a non-empty run of word
characters, any one character but a line terminator, and a text the
extension's pattern matches. -/
theorem cpgIndexFilenameRe_iff (ext : Extension) (name : List Byte) :
    cpgIndexFilenameRe ext name = true ↔
      ∃ a c e, name = a ++ c :: e ∧ a ≠ [] ∧ (∀ x ∈ a, isAlnumUnderscore x = true) ∧
        anyChar c = true ∧ Matches (ext.bytes.map extAtom) e := by
  rw [cpgIndexFilenameRe, searchWhole_iff, cpgIndexFilenamePtrn, assemblyPtrn, List.singleton_append]
  constructor
  · rintro ⟨a, t, rfl, ha, hw, c, e, rfl, hc, he⟩
    exact ⟨a, c, e, rfl, ha, hw, hc, he⟩
  · rintro ⟨a, c, e, rfl, ha, hw, hc, he⟩
    exact ⟨a, c :: e, rfl, ha, hw, c, e, rfl, hc, he⟩

/-- A word character is not a line terminator. -/
theorem anyChar_of_isAlnumUnderscore {c : Byte} (h : isAlnumUnderscore c = true) :
    anyChar c = true := by
  simp only [isAlnumUnderscore, isDigit, Bool.or_eq_true, Bool.and_eq_true, decide_eq_true_eq,
    beq_iff_eq] at h
  simp only [anyChar, newline, carriageReturn, Bool.and_eq_true, bne_iff_ne, ne_eq, Fin.ext_iff]
  omega

/-- **Any character may stand for the `.` of the extension.** For an extension
`.rest`, a word of at least two characters followed by any character but a line
terminator and `rest` is accepted: the pattern's `.` after the assembly takes
the word's last character, and the extension's `.` the character after it. -/
theorem cpgIndexFilenameRe_word_append {ext : Extension} {rest : List Byte}
    (hext : ext.bytes = period :: rest) {a : List Byte} (ha : 2 ≤ a.length)
    (hw : ∀ x ∈ a, isAlnumUnderscore x = true) {c : Byte} (hc : anyChar c = true) :
    cpgIndexFilenameRe ext (a ++ c :: rest) = true := by
  obtain ⟨a', b, rfl⟩ := List.eq_nil_or_concat a |>.resolve_left (by rintro rfl; simp at ha)
  rw [List.concat_eq_append] at ha hw ⊢
  have ha' : a' ≠ [] := by rintro rfl; simp at ha
  refine (cpgIndexFilenameRe_iff ext _).mpr ⟨a', b, c :: rest, by simp, ha',
    fun x hx => hw x (List.mem_append_left _ hx),
    anyChar_of_isAlnumUnderscore (hw b (List.mem_append_right _ (List.mem_singleton_self b))), ?_⟩
  rw [hext, matches_map_extAtom, List.forall₂_cons]
  exact ⟨by rw [extCharMatches, if_pos rfl]; exact hc,
    (matches_map_extAtom _ _).mp (matches_map_extAtom_self rest)⟩

/-- **A one-character assembly is never accepted**: the pattern needs a word
character and one more character before the extension. -/
theorem cpgIndexFilenameRe_singleton (ext : Extension) (x : Byte) :
    cpgIndexFilenameRe ext (x :: ext.bytes) = false := by
  by_contra h
  obtain ⟨a, c, e, heq, ha, -, -, he⟩ := (cpgIndexFilenameRe_iff ext _).mp (Bool.not_eq_false _ ▸ h)
  have hlen := congrArg List.length heq
  have hpos := List.length_pos.mpr ha
  have he := ((matches_map_extAtom _ _).mp he).length_eq
  simp only [List.length_cons, List.length_append] at hlen
  omega

end Mxe
