import Mxe.Charconv

/-!
# The configuration file of the server

`xfrase server --make-config FILE` stores its arguments in `FILE` and exits:
`command_server_main` calls `write_config_file(args)`, which prints
`format_as_config(args)` into the file. `format_as_config` writes one line
`name = value` for each member that `BOOST_DESCRIBE_STRUCT` lists for
`server_argset`, in the order of that list, after `std::ranges::replace` has
turned every `_` of the member's name into `-`. A server started with
`--config-file FILE` takes the options of `set_common_opts_impl` from such a
file, by their long names.

Read back as `name = value` lines, the text `format_as_config` writes holds
exactly the members it was given, under their new names and with their values,
as long as no value holds a line break or begins or ends with a blank
(`Mxe.readConfig_formatAsConfig`), and so does every file `--make-config`
writes (`Mxe.readConfig_writeConfigFile`). For the server, two of those names
are not names of its options. The members `log_filename` and `n_threads` become
`log-filename` and `n-threads`, while the options are `log-file` and `threads`,
so every configuration file the server writes has these two lines under names
that the server does not declare.

The reader of configuration files (`argset_base::parse`) and the formatter of
`xfrase_log_level` are not in the source. The reader here takes the plain
`name = value` syntax of such files and drops the blanks around names and
values. The log level is held as the text `std::format` makes of it.
-/

namespace Mxe

/-! ### Writing -/

/-- `std::ranges::replace(name, '_', '-')`. -/
def replaceUnderscore (name : List Char) : List Char :=
  name.map fun c => if c = '_' then '-' else c

/-- `std::format("{} = {}\n", name, value)`. -/
def configLine (name value : List Char) : List Char :=
  name ++ [' ', '=', ' '] ++ value ++ ['\n']

/-- `format_as_config(t)`, for the members `boost::describe` lists for the type
of `t`: each member's name, and the text `std::format("{}")` makes of its
value. -/
def formatAsConfig (members : List (List Char × List Char)) : List Char :=
  members.flatMap fun m => configLine (replaceUnderscore m.1) m.2

/-- The members of a `server_argset` that `write_config_file` reads: those
`BOOST_DESCRIBE_STRUCT` lists, then `config_out` and `config_file`. -/
structure ServerArgset where
  hostname : List Char
  port : List Char
  methylomeDir : List Char
  indexDir : List Char
  logFilename : List Char
  /-- The text `std::format("{}")` makes of `log_level`. -/
  logLevel : List Char
  nThreads : U32
  maxResident : U32
  daemonize : Bool
  /-- `config_out`, the file given with `--make-config`. -/
  configOut : List Char
  /-- `config_file`, the member of `argset_base` that `--config-file` sets. -/
  configFile : List Char

/-- `std::format("{}")` of a `uint32_t`. -/
def formatU32 (v : U32) : List Char := Nat.toDigits 10 v.val

/-- `std::format("{}")` of a `bool`. -/
def formatBool (b : Bool) : List Char := if b then ['t', 'r', 'u', 'e'] else ['f', 'a', 'l', 's', 'e']

/-- `BOOST_DESCRIBE_STRUCT(server_argset, ...)`: the described members in the
order of that list, each with its name and its formatted value. -/
def ServerArgset.describeMembers (a : ServerArgset) : List (List Char × List Char) :=
  [("hostname".toList, a.hostname), ("port".toList, a.port),
    ("methylome_dir".toList, a.methylomeDir), ("index_dir".toList, a.indexDir),
    ("log_filename".toList, a.logFilename), ("log_level".toList, a.logLevel),
    ("n_threads".toList, formatU32 a.nThreads), ("max_resident".toList, formatU32 a.maxResident),
    ("daemonize".toList, formatBool a.daemonize)]

/-- The long names of the options `server_argset::set_common_opts_impl`
declares, which are the options a configuration file may set. -/
def ServerArgset.setCommonOptsImpl : List (List Char) :=
  ["hostname".toList, "port".toList, "daemonize".toList, "methylome-dir".toList,
    "index-dir".toList, "max-resident".toList, "threads".toList, "log-level".toList,
    "log-file".toList]

/-- `write_config_file(args)`, when opening `config_out` fails with `openError`
or printing into it fails with `writeError`: the line it prints on the console,
and the error it returns or the text it wrote. `message` is the text of an
error code. -/
def writeConfigFile {E : Type} (message : E → List Char) (a : ServerArgset)
    (openError writeError : Option E) : List Char × Except E (List Char) :=
  match openError, writeError with
  | some e, _ =>
    ("Failed to open config file ".toList ++ a.configOut ++ [':', ' '] ++ message e ++ ['\n'], .error e)
  | none, some e =>
    ("Failed to write config file ".toList ++ a.configFile ++ [':', ' '] ++ message e ++ ['\n'],
      .error e)
  | none, none => ([], .ok (formatAsConfig a.describeMembers))

/-! ### Reading -/

/-- A name or a value without the blanks around it. -/
def trimBlanks (s : List Char) : List Char :=
  ((s.dropWhile (· == ' ')).reverse.dropWhile (· == ' ')).reverse

/-- A line `name = value`: the name before the first `=`, the value after it. -/
def readConfigLine (line : List Char) : List Char × List Char :=
  (trimBlanks (line.takeWhile (· != '=')), trimBlanks ((line.dropWhile (· != '=')).drop 1))

/-- The `name = value` lines of a configuration text. Empty lines say
nothing. -/
def readConfig (text : List Char) : List (List Char × List Char) :=
  ((text.splitOn '\n').filter fun l => !l.isEmpty).map readConfigLine

/-- A name a line can carry: no blank, no `=`, no line break. -/
def PlainName (s : List Char) : Prop := ∀ c ∈ s, c ≠ ' ' ∧ c ≠ '=' ∧ c ≠ '\n'

instance (s : List Char) : Decidable (PlainName s) := inferInstanceAs (Decidable (∀ c ∈ s, _))

/-- A value a line can carry: no line break, and no blank at either end. -/
def PlainValue (s : List Char) : Prop := '\n' ∉ s ∧ s.head? ≠ some ' ' ∧ s.getLast? ≠ some ' '

instance (s : List Char) : Decidable (PlainValue s) := inferInstanceAs (Decidable (_ ∧ _ ∧ _))

theorem plainName_replaceUnderscore {s : List Char} (h : PlainName s) :
    PlainName (replaceUnderscore s) := by
  intro c hc
  obtain ⟨d, hd, rfl⟩ := List.mem_map.mp hc
  split
  · decide
  · exact h d hd

theorem dropWhile_blank_of_head {l : List Char} (h : l.head? ≠ some ' ') :
    l.dropWhile (· == ' ') = l := by
  rcases l with _ | ⟨c, l⟩
  · rfl
  · simp only [List.head?_cons, ne_eq, Option.some.injEq] at h
    simp [List.dropWhile_cons, h]

theorem trimBlanks_eq_self {s : List Char} (h₁ : s.head? ≠ some ' ') (h₂ : s.getLast? ≠ some ' ') :
    trimBlanks s = s := by
  rw [trimBlanks, dropWhile_blank_of_head h₁, dropWhile_blank_of_head (by rwa [List.head?_reverse]),
    List.reverse_reverse]

/-- The blank before `=` is dropped from a name. -/
theorem trimBlanks_append_blank {s : List Char} (h : ' ' ∉ s) : trimBlanks (s ++ [' ']) = s := by
  have hhead : s.head? ≠ some ' ' := fun hs => h (List.mem_of_mem_head? hs)
  have hlast : s.getLast? ≠ some ' ' := fun hs => h (List.mem_of_getLast?_eq_some hs)
  rcases s with _ | ⟨c, s⟩
  · rfl
  · rw [trimBlanks, dropWhile_blank_of_head (l := c :: s ++ [' ']) (by simpa using hhead),
      List.reverse_append, List.reverse_singleton, List.singleton_append]
    simp only [List.dropWhile_cons, beq_self_eq_true, if_true]
    rw [dropWhile_blank_of_head (l := (c :: s).reverse) (by rwa [List.head?_reverse]),
      List.reverse_reverse]

/-- **A line reads back as what it was written from.** -/
theorem readConfigLine_configLine {name value : List Char} (hn : PlainName name)
    (hv : PlainValue value) : readConfigLine (name ++ [' ', '=', ' '] ++ value) = (name, value) := by
  have hne : ∀ c ∈ name, (c != '=') = true := fun c hc => by simpa using (hn c hc).2.1
  have hblank : ' ' ∉ name := fun h => (hn _ h).1 rfl
  have htrim : trimBlanks (' ' :: value) = trimBlanks value := rfl
  simp only [readConfigLine, List.append_assoc, List.takeWhile_append_of_pos hne,
    List.dropWhile_append_of_pos hne]
  exact Prod.ext (trimBlanks_append_blank hblank) (htrim.trans (trimBlanks_eq_self hv.2.1 hv.2.2))

/-- A nonempty line without a line break, then a line break, reads as that
line followed by the rest. -/
theorem readConfig_line_append {l : List Char} (hl : '\n' ∉ l) (hne : l ≠ []) (rest : List Char) :
    readConfig (l ++ '\n' :: rest) = readConfigLine l :: readConfig rest := by
  have hsplit : (l ++ '\n' :: rest).splitOn '\n' = l :: rest.splitOn '\n' :=
    List.splitOnP_first (· == '\n') l (fun c hc hc' => hl (beq_iff_eq.mp hc' ▸ hc)) '\n'
      (beq_self_eq_true _) rest
  simp [readConfig, hsplit, List.filter_cons, hne]

/-- **`format_as_config` reads back.** The text it writes, read as
`name = value` lines, holds its members in order, under their names with `_`
turned into `-`, and with their values, when no name holds a blank, `=` or a
line break and no value a line break or a blank at either end. -/
theorem readConfig_formatAsConfig {members : List (List Char × List Char)}
    (h : ∀ m ∈ members, PlainName m.1 ∧ PlainValue m.2) :
    readConfig (formatAsConfig members) = members.map fun m => (replaceUnderscore m.1, m.2) := by
  induction members with
  | nil => rfl
  | cons m ms ih =>
    obtain ⟨hn, hv⟩ := h m (List.mem_cons_self _ _)
    have hn' := plainName_replaceUnderscore hn
    have hl : '\n' ∉ replaceUnderscore m.1 ++ [' ', '=', ' '] ++ m.2 := by
      simp only [List.mem_append, List.mem_cons, not_or]
      exact ⟨⟨fun h => (hn' _ h).2.2 rfl, by decide⟩, hv.1⟩
    have hsplit : formatAsConfig (m :: ms) =
        (replaceUnderscore m.1 ++ [' ', '=', ' '] ++ m.2) ++ '\n' :: formatAsConfig ms := by
      simp [formatAsConfig, configLine]
    rw [hsplit, readConfig_line_append hl (by simp), readConfigLine_configLine hn' hv,
      ih fun m hm => h m (List.mem_cons_of_mem _ hm), List.map_cons]

/-! ### The configuration of the server -/

theorem isDigit_of_mem_toDigitsCore {fuel n : ℕ} {ds : List Char} {c : Char}
    (h : c ∈ Nat.toDigitsCore 10 fuel n ds) : c ∈ ds ∨ c.isDigit := by
  have hdigit : ∀ k < 10, (Nat.digitChar k).isDigit := by decide
  induction fuel generalizing n ds with
  | zero => exact .inl h
  | succ fuel ih =>
    have hcons : ∀ {c}, c ∈ Nat.digitChar (n % 10) :: ds → c ∈ ds ∨ c.isDigit := by
      rintro c (_ | ⟨_, hc⟩)
      · exact .inr (hdigit _ (Nat.mod_lt _ (by norm_num)))
      · exact .inl hc
    simp only [Nat.toDigitsCore] at h
    split at h
    · exact hcons h
    · exact (ih h).elim hcons .inr

/-- The decimal digits of a number are a plain value. -/
theorem plainValue_formatU32 (v : U32) : PlainValue (formatU32 v) := by
  have hd : ∀ c ∈ formatU32 v, c.isDigit := fun c hc =>
    (isDigit_of_mem_toDigitsCore hc).resolve_left (List.not_mem_nil _)
  have hb : ∀ c : Char, c.isDigit → c ≠ ' ' ∧ c ≠ '\n' := fun c hc =>
    ⟨fun h => absurd (h ▸ hc) (by decide), fun h => absurd (h ▸ hc) (by decide)⟩
  exact ⟨fun h => (hb _ (hd _ h)).2 rfl, fun h => (hb _ (hd _ (List.mem_of_mem_head? h))).1 rfl,
    fun h => (hb _ (hd _ (List.mem_of_getLast?_eq_some h))).1 rfl⟩

theorem plainValue_formatBool (b : Bool) : PlainValue (formatBool b) := by
  cases b <;> decide

/-- **What `--make-config` writes reads back.** Whenever `write_config_file`
writes a text, and no text member of the arguments holds a line break or a
blank at either end, that text reads back as the members `BOOST_DESCRIBE_STRUCT`
lists for `server_argset`, in that order, under their names with `_` turned
into `-`, and with their values. -/
theorem readConfig_writeConfigFile {E : Type} (message : E → List Char) (a : ServerArgset)
    (openError writeError : Option E)
    (ha : ∀ s ∈ [a.hostname, a.port, a.methylomeDir, a.indexDir, a.logFilename, a.logLevel],
      PlainValue s)
    {text : List Char} (h : (writeConfigFile message a openError writeError).2 = .ok text) :
    readConfig text = a.describeMembers.map (fun m => (replaceUnderscore m.1, m.2)) := by
  have htext : text = formatAsConfig a.describeMembers := by
    unfold writeConfigFile at h
    split at h <;> cases h
    rfl
  have hplain : ∀ m ∈ a.describeMembers, PlainName m.1 ∧ PlainValue m.2 := by
    simp only [ServerArgset.describeMembers, List.mem_cons, List.mem_nil_iff, or_false] at ha ⊢
    rintro m (rfl | rfl | rfl | rfl | rfl | rfl | rfl | rfl | rfl)
    all_goals refine ⟨by dsimp only; decide, ?_⟩
    all_goals first
      | exact plainValue_formatU32 _
      | exact plainValue_formatBool _
      | exact ha _ (by simp)
  rw [htext, readConfig_formatAsConfig hplain]

/-- The names of those lines that the server does not declare: the same two for
every argument set. -/
example (a : ServerArgset) :
    (a.describeMembers.map fun m => replaceUnderscore m.1).filter
        (fun k => k ∉ ServerArgset.setCommonOptsImpl) = ["log-filename".toList, "n-threads".toList] := by
  simp only [ServerArgset.describeMembers, List.map]
  decide

end Mxe
