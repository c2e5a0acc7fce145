import TokenizersCpp.Wrapper

/-!
# The merge list

The merges step of `byte_level_bpe_from_str` reads a text line by line.  A text
in the usual layout — an optional `#version` header, one pair to a line, LF or
CRLF line ends, the last of which may be missing — is a `MergeFile`, and the step
returns its pairs in order, without those whose left part starts with `#version`
(`parseMerges_text`): the test for the header is made on every line.  A line that
passes the test is not checked either, so the step misses a malformed line exactly
when the line looks like a second header (`invalid_iff`).
-/

namespace TokenizersCpp

open Traversal

/-! ## Lines -/

section Split
variable {sep : Char} {line : List Char}

theorem splitInclusive_append (h : sep ∉ line) (rest : List Char) :
    splitInclusive sep (line ++ sep :: rest) = (line ++ [sep]) :: splitInclusive sep rest := by
  induction line with
  | nil => simp [splitInclusive]
  | cons c cs ih =>
    obtain ⟨hc, hcs⟩ := not_or.mp (List.mem_cons.not.mp h)
    simp [splitInclusive, Ne.symm hc, ih hcs]

theorem splitInclusive_of_not_mem (h : sep ∉ line) (hne : line ≠ []) :
    splitInclusive sep line = [line] := by
  induction line with
  | nil => exact absurd rfl hne
  | cons c cs ih =>
    obtain ⟨hc, hcs⟩ := not_or.mp (List.mem_cons.not.mp h)
    by_cases hnil : cs = []
    · simp [splitInclusive, Ne.symm hc, hnil]
    · simp [splitInclusive, Ne.symm hc, ih hcs hnil]

end Split

/-- How a line ends. -/
inductive LineEnd
  | lf
  | crlf
deriving DecidableEq, Repr

def LineEnd.chars : LineEnd → List Char
  | .lf => ['\n']
  | .crlf => ['\r', '\n']

/-- The text of a list of lines, each with its line end; the last line has its
own only if `final`. -/
def joinLines (final : Bool) : List (List Char × LineEnd) → List Char
  | [] => []
  | [(line, lineEnd)] => line ++ if final then lineEnd.chars else []
  | (line, lineEnd) :: next :: rest => line ++ lineEnd.chars ++ joinLines final (next :: rest)

/-- What `lines` makes of a line: a CR in front of a LF is taken for a part of the
line end. -/
def ReadAs (line read : List Char) : Prop := read = line ∨ line = read ++ ['\r']

theorem stripLineEnd_of_not_mem {line : List Char} (h : '\n' ∉ line) : stripLineEnd line = line :=
  if_neg fun hlast => h (List.mem_of_getLast? hlast)

theorem readAs_stripLineEnd (line : List Char) (lineEnd : LineEnd) :
    ReadAs line (stripLineEnd (line ++ lineEnd.chars)) := by
  cases lineEnd with
  | crlf => exact Or.inl (by simp [stripLineEnd, LineEnd.chars])
  | lf =>
    by_cases hlast : line.getLast? = some '\r'
    · refine Or.inr ?_
      have hread : stripLineEnd (line ++ LineEnd.lf.chars) = line.dropLast := by
        simp [stripLineEnd, LineEnd.chars, hlast]
      rw [hread]
      exact (List.dropLast_append_getLast? '\r' hlast).symm
    · exact Or.inl (by simp [stripLineEnd, LineEnd.chars, hlast])

/-- A line and its line end are cut off a text. -/
theorem splitInclusive_line {line : List Char} (h : '\n' ∉ line) (lineEnd : LineEnd)
    (rest : List Char) :
    splitInclusive '\n' (line ++ lineEnd.chars ++ rest) =
      (line ++ lineEnd.chars) :: splitInclusive '\n' rest := by
  cases lineEnd with
  | lf => simpa [LineEnd.chars] using splitInclusive_append h rest
  | crlf =>
    have hcr : '\n' ∉ line ++ ['\r'] := by simp [h]
    simpa [LineEnd.chars] using splitInclusive_append hcr rest

/-- **The lines of a text are read one by one.** -/
theorem forall₂_readAs (final : Bool) {ls : List (List Char × LineEnd)}
    (h : ∀ l ∈ ls, l.1 ≠ [] ∧ '\n' ∉ l.1) :
    List.Forall₂ (fun l read => ReadAs l.1 read) ls
      ((splitInclusive '\n' (joinLines final ls)).map stripLineEnd) := by
  induction ls with
  | nil => exact .nil
  | cons l ls ih =>
    obtain ⟨⟨hne, hlf⟩, hrest⟩ := List.forall_mem_cons.mp h
    obtain ⟨line, lineEnd⟩ := l
    cases ls with
    | cons next rest =>
      rw [joinLines, splitInclusive_line hlf]
      exact .cons (readAs_stripLineEnd line lineEnd) (ih hrest)
    | nil =>
      cases final with
      | true =>
        have hcut := splitInclusive_line hlf lineEnd []
        rw [List.append_nil] at hcut
        simp only [joinLines, if_true, hcut]
        exact .cons (readAs_stripLineEnd line lineEnd) .nil
      | false =>
        simp only [joinLines, Bool.false_eq_true, if_false, List.append_nil,
          splitInclusive_of_not_mem hlf hne]
        exact .cons (Or.inl (stripLineEnd_of_not_mem hlf)) .nil

/-! ## Merge lines -/

/-- A text is split into one part more than it has separators. -/
theorem length_splitOn (c : Char) (line : List Char) :
    (line.splitOn c).length = line.count c + 1 := by
  induction line with
  | nil => rfl
  | cons x xs ih =>
    rw [List.splitOn_cons_eq_if_modifyHead]
    by_cases hx : x = c
    · simp [hx, ih]
    · simp [hx, ih]

/-- The two parts of a line, separated by its only space. -/
structure IsMergeLine (line : String) (pair : String × String) : Prop where
  line_eq : line.toList = pair.1.toList ++ ' ' :: pair.2.toList
  left_no_space : ' ' ∉ pair.1.toList
  right_no_space : ' ' ∉ pair.2.toList

theorem exists_isMergeLine {line : String} :
    (∃ pair, IsMergeLine line pair) ↔ line.toList.count ' ' = 1 := by
  constructor
  · rintro ⟨pair, hline, hleft, hright⟩
    rw [hline, List.count_append, List.count_cons_self, List.count_eq_zero.mpr hleft,
      List.count_eq_zero.mpr hright]
  · intro hone
    obtain ⟨left, right, hline⟩ :=
      List.append_of_mem (List.count_pos_iff.mp (by omega : 0 < line.toList.count ' '))
    rw [hline, List.count_append, List.count_cons_self] at hone
    refine ⟨(String.ofList left, String.ofList right), ?_, ?_, ?_⟩
    · simpa only [String.toList_ofList] using hline
    · simpa only [String.toList_ofList] using List.count_eq_zero.mp (by omega)
    · simpa only [String.toList_ofList] using List.count_eq_zero.mp (by omega)

/-- A computation fails by the caller's mistake. -/
def CallerError (abort : Abort) : Prop := ∃ message, abort = .error (.invalidArgument message)

namespace TokenizerWrapper

variable (debugStr : String → String)

/-- **A line is parsed into its two parts**, or blamed on the caller. -/
theorem exact_parseMergeLine (line : String) :
    Exact CallerError (IsMergeLine line) (parseMergeLine debugStr line) := by
  have hsplit : ∀ pair, IsMergeLine line pair →
      line.toList.splitOn ' ' = [pair.1.toList, pair.2.toList] := by
    rintro pair ⟨hline, hleft, hright⟩
    rw [hline, List.splitOn_append_cons_self_of_not_mem hleft, List.splitOn_eq_singleton hright]
  unfold parseMergeLine
  split
  · rename_i left right hparts
    refine (Exact.ok _).congr fun pair => ⟨?_, fun hpair => ?_⟩
    · rintro rfl
      have hline : [' '].intercalate (line.toList.splitOn ' ') = line.toList :=
        List.intercalate_splitOn ' '
      -- the line has one space, so its parts have none
      have hcount := length_splitOn ' ' line.toList
      rw [hparts] at hline hcount
      rw [← hline] at hcount
      simp only [List.intercalate, List.intersperse_cons_cons, List.intersperse_singleton,
        List.flatten_cons, List.flatten_nil, List.append_nil, List.singleton_append,
        List.count_append, List.count_cons_self, List.length_cons, List.length_nil] at hline hcount
      refine ⟨?_, ?_, ?_⟩
      · simpa only [String.toList_ofList] using hline.symm
      · simpa only [String.toList_ofList] using List.count_eq_zero.mp (by omega)
      · simpa only [String.toList_ofList] using List.count_eq_zero.mp (by omega)
    · obtain ⟨rfl, hright⟩ := List.cons.inj (hparts.symm.trans (hsplit pair hpair))
      obtain ⟨rfl, -⟩ := List.cons.inj hright
      simp only [String.ofList_toList]
  · rename_i hparts
    exact Exact.error (fun pair hpair => hparts _ _ (hsplit pair hpair)) ⟨_, rfl⟩

/-- The test for the header. -/
def startsWithVersion (line : String) : Bool := "#version".toList.isPrefixOf line.toList

theorem startsWithVersion_iff {line : String} :
    startsWithVersion line = true ↔ "#version".toList <+: line.toList :=
  List.isPrefixOf_iff_prefix

theorem startsWithVersion_ofList {line : List Char} :
    startsWithVersion (String.ofList line) = true ↔ "#version".toList <+: line := by
  have hline : (String.ofList line).toList = line := String.toList_ofList
  rw [startsWithVersion_iff, hline]

/-- The lines that the step parses. -/
def mergeLines (merges : String) : List String :=
  (lines merges).filter fun line => !startsWithVersion line

theorem mem_mergeLines {merges line : String} :
    line ∈ mergeLines merges ↔ line ∈ lines merges ∧ startsWithVersion line = false := by
  rw [mergeLines, List.mem_filter, Bool.not_eq_true']

/-- **The step parses every line** that does not pass the test for the header. -/
theorem exact_parseMerges (merges : String) :
    Exact CallerError (List.Forall₂ IsMergeLine (mergeLines merges))
      (parseMerges debugStr merges) :=
  Exact.mapM (exact_parseMergeLine debugStr)

/-- It returns when each of these lines has exactly one space. -/
theorem exists_pairs {merges : String} :
    (∃ pairs, List.Forall₂ IsMergeLine (mergeLines merges) pairs) ↔
      ∀ line ∈ lines merges, startsWithVersion line = false → line.toList.count ' ' = 1 := by
  simp only [exists_forall₂, exists_isMergeLine, mem_mergeLines, and_imp]

/-! ## Merge files -/

/-- A part of a merge: not empty, without a space and without a line end. -/
structure IsMergePart (part : String) : Prop where
  ne_empty : part ≠ ""
  no_space : ' ' ∉ part.toList
  no_lf : '\n' ∉ part.toList
  no_cr : '\r' ∉ part.toList

/-- A merge list as it is written to a text: at most one header in front, one pair
to a line, and for each line its line end. -/
structure MergeFile where
  header : Option (String × LineEnd)
  pairs : List ((String × String) × LineEnd)
  /-- The last line has its line end, too. -/
  final : Bool
  header_version : ∀ h, header = some h → startsWithVersion h.1 = true
  header_line : ∀ h, header = some h → '\n' ∉ h.1.toList
  parts : ∀ pair ∈ pairs, IsMergePart pair.1.1 ∧ IsMergePart pair.1.2

namespace MergeFile

/-- The line of a pair. -/
def pairLine (pair : String × String) : List Char := pair.1.toList ++ ' ' :: pair.2.toList

/-- The text. -/
def text (file : MergeFile) : String :=
  String.ofList <| joinLines file.final <|
    (file.header.toList.map fun h => (h.1.toList, h.2)) ++
      file.pairs.map fun pair => (pairLine pair.1, pair.2)

/-- The merges, in rank order. -/
def merges (file : MergeFile) : Merges := file.pairs.map Prod.fst

/-- The line of a pair is a line. -/
theorem line_of_pair {pair : String × String} (hleft : IsMergePart pair.1)
    (hright : IsMergePart pair.2) : pairLine pair ≠ [] ∧ '\n' ∉ pairLine pair := by
  refine ⟨by simp [pairLine], fun hlf => ?_⟩
  rcases List.mem_append.mp hlf with hlf | hlf
  · exact hleft.no_lf hlf
  · exact hright.no_lf ((List.mem_cons.mp hlf).resolve_left (by decide))

/-- A pair is read as it was written: its line ends in no CR. -/
theorem readAs_pairLine {pair : String × String} (hright : IsMergePart pair.2) {read : List Char}
    (h : ReadAs (pairLine pair) read) : read = pairLine pair := by
  refine h.resolve_right fun hcr => ?_
  have hne : pair.2.toList ≠ [] := fun hnil => hright.ne_empty (String.toList_eq_nil_iff.mp hnil)
  have hlast : (pairLine pair).getLast? = pair.2.toList.getLast? := by
    rw [pairLine, List.getLast?_append_cons, List.getLast?_cons_of_ne_nil hne]
  rw [hcr, List.getLast?_concat] at hlast
  exact hright.no_cr (List.mem_of_getLast? hlast.symm)

/-- The header keeps its first characters, whatever becomes of a CR at its end. -/
theorem startsWithVersion_of_readAs {header : String} (h : startsWithVersion header = true)
    {read : List Char} (hread : ReadAs header.toList read) :
    startsWithVersion (String.ofList read) = true := by
  rw [startsWithVersion_iff] at h
  rw [startsWithVersion_ofList]
  rcases hread with rfl | hcr
  · exact h
  · rw [hcr] at h
    refine (List.prefix_concat_iff.mp h).resolve_left fun hend => ?_
    have hmem : '\r' ∈ "#version".toList := by simp [hend]
    exact absurd hmem (by decide)

/-- The line of a pair passes the test for the header when its left part does. -/
theorem startsWithVersion_pairLine (pair : String × String) :
    startsWithVersion (String.ofList (pairLine pair)) = startsWithVersion pair.1 := by
  rw [Bool.eq_iff_iff, startsWithVersion_ofList, startsWithVersion_iff]
  constructor
  · intro h
    have hcut : pair.1.toList ++ [' '] <+: pairLine pair := by simp [pairLine]
    -- the characters of the test have no space among them
    have hspace : ' ' ∉ "#version".toList := by decide
    rcases List.prefix_or_prefix_of_prefix h hcut with hleft | hshort
    · refine (List.prefix_concat_iff.mp hleft).resolve_left fun heq => hspace ?_
      simp [heq]
    · exact absurd (hshort.subset (by simp)) hspace
  · exact fun h => h.trans (List.prefix_append _ _)

theorem reads_of_pairs {pairs : List ((String × String) × LineEnd)}
    (hparts : ∀ pair ∈ pairs, IsMergePart pair.1.1 ∧ IsMergePart pair.1.2)
    {reads : List (List Char)}
    (h : List.Forall₂ (fun l read => ReadAs l.1 read)
      (pairs.map fun pair => (pairLine pair.1, pair.2)) reads) :
    reads = (pairs.map Prod.fst).map pairLine := by
  induction pairs generalizing reads with
  | nil => exact List.forall₂_nil_left_iff.mp h
  | cons pair pairs ih =>
    obtain ⟨⟨-, hright⟩, hrest⟩ := List.forall_mem_cons.mp hparts
    obtain ⟨read, reads', hread, hreads, rfl⟩ := List.forall₂_cons_left_iff.mp h
    rw [ih hrest hreads, readAs_pairLine hright hread]
    rfl

/-- **The lines of a file** are its header, if it has one, and the lines of its pairs. -/
theorem lines_text (file : MergeFile) : ∃ headers : List String,
    (∀ line ∈ headers, startsWithVersion line = true) ∧
      lines file.text = headers ++ file.merges.map fun pair => String.ofList (pairLine pair) := by
  obtain ⟨header, pairs, final, hversion, hline, hparts⟩ := file
  have hpair : ∀ l ∈ pairs.map fun pair => (pairLine pair.1, pair.2),
      l.1 ≠ [] ∧ '\n' ∉ l.1 := by
    intro l hl
    obtain ⟨pair, hmem, rfl⟩ := List.mem_map.mp hl
    exact line_of_pair (hparts pair hmem).1 (hparts pair hmem).2
  have hmap : ∀ reads : List (List Char), reads = (pairs.map Prod.fst).map pairLine →
      reads.map String.ofList =
        (pairs.map Prod.fst).map fun pair => String.ofList (pairLine pair) := by
    rintro _ rfl
    rw [List.map_map]
    rfl
  cases header with
  | none =>
    refine ⟨[], fun _ h => absurd h List.not_mem_nil, ?_⟩
    have hreads := reads_of_pairs hparts (forall₂_readAs final hpair)
    have hlines := hmap _ hreads
    rw [List.map_map] at hlines
    simp only [lines, text, String.toList_ofList]
    exact hlines
  | some h =>
    have hne : h.1.toList ≠ [] := by
      intro hnil
      have hprefix := startsWithVersion_iff.mp (hversion h rfl)
      rw [hnil, List.prefix_nil] at hprefix
      exact absurd hprefix (by decide)
    have hall := forall₂_readAs final
      (List.forall_mem_cons.mpr ⟨⟨hne, hline h rfl⟩, hpair⟩ :
        ∀ l ∈ (h.1.toList, h.2) :: pairs.map fun pair => (pairLine pair.1, pair.2), _)
    obtain ⟨read, reads, hread, hreads, hsplit⟩ := List.forall₂_cons_left_iff.mp hall
    refine ⟨[String.ofList read], ?_, ?_⟩
    · rintro _ (_ | ⟨_, ⟨⟩⟩)
      exact startsWithVersion_of_readAs (hversion h rfl) hread
    · have hlines := congrArg (List.map String.ofList) hsplit
      rw [List.map_map, List.map_cons, hmap _ (reads_of_pairs hparts hreads)] at hlines
      simp only [lines, text, String.toList_ofList]
      exact hlines

/-- **The step returns the pairs in order**, without those whose left part starts
with `#version`. -/
theorem parseMerges_text (file : MergeFile) :
    parseMerges debugStr file.text =
      .ok (file.merges.filter fun pair => !startsWithVersion pair.1) := by
  obtain ⟨headers, hheaders, hlines⟩ := file.lines_text
  have hparts : ∀ pair ∈ file.merges, IsMergePart pair.1 ∧ IsMergePart pair.2 := by
    intro pair hmem
    obtain ⟨pair', hmem', rfl⟩ := List.mem_map.mp hmem
    exact file.parts pair' hmem'
  have hfilter : ((lines file.text).filter fun line => !startsWithVersion line) =
      (file.merges.filter fun pair => !startsWithVersion pair.1).map fun pair =>
        String.ofList (pairLine pair) := by
    have hnone : (headers.filter fun line => !startsWithVersion line) = [] :=
      List.filter_eq_nil_iff.mpr fun line hmem => by simp [hheaders line hmem]
    rw [hlines, List.filter_append, hnone, List.nil_append, List.filter_map]
    refine congrArg _ (congrArg (List.filter · _) (funext fun pair => ?_))
    exact congrArg not (startsWithVersion_pairLine pair)
  rw [(exact_parseMerges debugStr file.text).ok_iff, mergeLines, hfilter,
    List.forall₂_map_left_iff, List.forall₂_same]
  intro pair hmem
  obtain ⟨hleft, hright⟩ := hparts pair (List.mem_filter.mp hmem).1
  exact ⟨String.toList_ofList, hleft.no_space, hright.no_space⟩

end MergeFile

/-- The lines that are not the header: all but a first one that starts with `#version`. -/
def dataLines (merges : String) : List String :=
  match lines merges with
  | [] => []
  | first :: rest => if startsWithVersion first then rest else first :: rest

theorem mem_dataLines {merges line : String} :
    line ∈ dataLines merges ↔
      line ∈ (lines merges).tail ∨ line ∈ lines merges ∧ startsWithVersion line = false := by
  unfold dataLines
  cases lines merges with
  | nil => simp
  | cons first rest =>
    dsimp only [List.tail_cons]
    cases hfirst : startsWithVersion first with
    | true =>
      rw [if_pos rfl]
      refine ⟨Or.inl, fun h => h.elim id fun ⟨hmem, hversion⟩ => ?_⟩
      refine (List.mem_cons.mp hmem).resolve_left fun heq => ?_
      rw [heq, hfirst] at hversion
      cases hversion
    | false =>
      rw [if_neg Bool.false_ne_true]
      constructor
      · intro h
        rcases List.mem_cons.mp h with rfl | hrest
        · exact Or.inr ⟨h, hfirst⟩
        · exact Or.inl hrest
      · exact fun h => h.elim (List.mem_cons_of_mem first) And.left

/-- **Malformed lines are reported, exactly when** every later line that starts with
`#version` is well formed, or a line that does not start so is malformed. -/
theorem invalid_iff (merges : String) :
    ((∃ line ∈ dataLines merges, line.toList.count ' ' ≠ 1) →
        ∃ message, parseMerges debugStr merges = .error (.error (.invalidArgument message))) ↔
      (∀ line ∈ (lines merges).tail, startsWithVersion line = true →
        line.toList.count ' ' = 1) ∨
        ∃ line ∈ lines merges, startsWithVersion line = false ∧ line.toList.count ' ' ≠ 1 := by
  rcases (exact_parseMerges debugStr merges).cases with
    ⟨pairs, hok, hpairs⟩ | ⟨abort, herror, hinvalid, hnone⟩
  · have hgood := exists_pairs.mp ⟨pairs, hpairs⟩
    constructor
    · intro h
      refine Or.inl fun line hline _ => by_contra fun hcount => ?_
      obtain ⟨message, herror⟩ := h ⟨line, mem_dataLines.mpr (Or.inl hline), hcount⟩
      rw [hok] at herror
      cases herror
    · rintro (hlater | ⟨line, hmem, hversion, hcount⟩) ⟨line', hdata, hcount'⟩
      · cases hversion : startsWithVersion line' with
        | true =>
          have htail := (mem_dataLines.mp hdata).resolve_right fun h => by simp [hversion] at h
          exact absurd (hlater line' htail hversion) hcount'
        | false =>
          have hmem : line' ∈ lines merges :=
            (mem_dataLines.mp hdata).elim List.mem_of_mem_tail And.left
          exact absurd (hgood line' hmem hversion) hcount'
      · exact absurd (hgood line hmem hversion) hcount
  · have hbad := mt exists_pairs.mpr (not_exists.mpr hnone)
    push Not at hbad
    obtain ⟨message, rfl⟩ := hinvalid
    exact iff_of_true (fun _ => ⟨message, herror⟩) (Or.inr hbad)

/-- **The merge list of a text.**  A merge file is read back as it was written,
exactly when no left part starts with `#version`; a malformed line that is not the
header is reported, exactly when every later line that starts with `#version` is
well formed, or a line that does not start so is malformed. -/
theorem merges_read_iff :
    (∀ file : MergeFile, parseMerges debugStr file.text = .ok file.merges ↔
      ∀ pair ∈ file.merges, startsWithVersion pair.1 = false) ∧
    ∀ merges, ((∃ line ∈ dataLines merges, line.toList.count ' ' ≠ 1) →
        ∃ message, parseMerges debugStr merges = .error (.error (.invalidArgument message))) ↔
      (∀ line ∈ (lines merges).tail, startsWithVersion line = true →
        line.toList.count ' ' = 1) ∨
        ∃ line ∈ lines merges, startsWithVersion line = false ∧ line.toList.count ' ' ≠ 1 := by
  refine ⟨fun file => ?_, invalid_iff debugStr⟩
  rw [file.parseMerges_text, Except.ok.injEq, List.filter_eq_self]
  simp only [Bool.not_eq_true']

/-- The pair `#version a`, on a line of its own. -/
def versionPair : MergeFile where
  header := none
  pairs := [(("#version", "a"), .lf)]
  final := true
  header_version := nofun
  header_line := nofun
  parts := by
    rintro _ (_ | ⟨_, ⟨⟩⟩)
    exact ⟨⟨by decide, by decide, by decide, by decide⟩,
      ⟨by decide, by decide, by decide, by decide⟩⟩

/-- It is dropped without an error; and so is a malformed line that starts with
`#version`, further down in a text. -/
theorem merges_dropped :
    (versionPair.text = "#version a\n" ∧ versionPair.merges = [("#version", "a")] ∧
      parseMerges String.quote versionPair.text = .ok []) ∧
    "#version x y" ∈ dataLines "a b\n#version x y\n" ∧
      "#version x y".toList.count ' ' = 2 ∧
      parseMerges String.quote "a b\n#version x y\n" = .ok [("a", "b")] :=
  ⟨⟨by decide, rfl, rfl⟩, by decide, by decide, rfl⟩

end TokenizerWrapper

end TokenizersCpp
