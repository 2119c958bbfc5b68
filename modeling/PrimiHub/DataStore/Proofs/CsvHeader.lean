/-
Which column names come back from the header they are written to.

The header is the names between commas, so its first line has one part more
than it has commas, and the reader keeps the number of parts
(`getColumnNames_length`). A comma in a name therefore makes a part too
many, and nothing later can mend it. Without commas the parts are the
written names, the first behind the mark and the last in front of the line
feed (`splitOn_header`), and the reader only ever takes bytes out of them:
each name comes back when nothing was taken out of it.
-/
import PrimiHub.DataStore.CsvHeader
import PrimiHub.Lib.Split

namespace PrimiHub.DataStore

-- ================================================= what a header consists of

/-- The comma that stood last is overwritten. -/
theorem flatMap_comma {names : List Bytes} (hne : names ≠ []) :
    names.flatMap (fun item => item ++ [comma])
      = [comma].intercalate names ++ [comma] := by
  induction names with
  | nil => exact absurd rfl hne
  | cons name rest ih =>
      cases rest with
      | nil => simp
      | cons other rest =>
          rw [List.flatMap_cons, ih (List.cons_ne_nil _ _),
            List.intercalate_cons_cons]
          simp only [List.append_assoc]

theorem writeHeader_eq {names : List Bytes} (hne : names ≠ []) :
    writeHeader names
      = some (kBOM ++ [comma].intercalate names ++ [lineFeed]) := by
  simp only [writeHeader, if_neg hne, flatMap_comma hne]
  rw [← List.append_assoc, List.length_append, List.length_singleton,
    Nat.add_sub_cancel, List.set_append_right _ _ (Nat.le_refl _),
    Nat.sub_self]
  rfl

/-- The first line of a file is read up to its line feed. -/
theorem readRawData_line {line : Bytes} (hline : line ≠ [])
    (hfeed : lineFeed ∉ line) (rows : Bytes) :
    readRawData (line ++ [lineFeed] ++ rows) 1 = line ++ [lineFeed] := by
  have hall : ∀ c ∈ line, decide (c ≠ lineFeed) = true := fun c hc =>
    decide_eq_true fun h => hfeed (h ▸ hc)
  have htake : (line ++ ([lineFeed] ++ rows)).takeWhile (· ≠ lineFeed)
      = line := by
    rw [List.takeWhile_append_of_pos hall]
    simp
  have hdrop : (line ++ ([lineFeed] ++ rows)).dropWhile (· ≠ lineFeed)
      = lineFeed :: rows := by
    rw [List.dropWhile_append_of_pos hall]
    simp
  rw [List.append_assoc]
  simp only [readRawData, readLines, getline, htake, hdrop, if_neg hline,
    List.append_nil, Bool.false_eq_true, if_false]

theorem mem_intercalate_comma {names : List Bytes} {c : UInt8}
    (h : c ∈ [comma].intercalate names) :
    c = comma ∨ ∃ name ∈ names, c ∈ name := by
  induction names with
  | nil => cases h
  | cons name rest ih =>
      cases rest with
      | nil => exact Or.inr ⟨name, List.mem_cons_self, by simpa using h⟩
      | cons other rest =>
          rw [List.intercalate_cons_cons, List.mem_append,
            List.mem_append] at h
          rcases h with (h | h) | h
          · exact Or.inr ⟨name, List.mem_cons_self, h⟩
          · exact Or.inl (List.mem_singleton.1 h)
          · rcases ih h with hc | ⟨found, hfound, hc⟩
            · exact Or.inl hc
            · exact Or.inr ⟨found, List.mem_cons_of_mem _ hfound, hc⟩

/-- The line of a header. -/
theorem readRawData_header {names : List Bytes}
    (hfeed : ∀ name ∈ names, lineFeed ∉ name) (rows : Bytes) :
    readRawData (kBOM ++ [comma].intercalate names ++ [lineFeed] ++ rows) 1
      = kBOM ++ [comma].intercalate names ++ [lineFeed] := by
  refine readRawData_line (by simp [kBOM]) ?_ rows
  intro h
  rcases List.mem_append.1 h with h | h
  · exact absurd h (by decide)
  · rcases mem_intercalate_comma h with hc | ⟨name, hname, hc⟩
    · exact absurd hc (by decide)
    · exact hfeed name hname hc

-- ====================================================== how many names come

theorem splitOn_length (c : UInt8) (line : Bytes) :
    (line.splitOn c).length = line.count c + 1 := by
  induction line with
  | nil => rfl
  | cons d line ih =>
      rw [List.splitOn_cons_eq_if_modifyHead, List.count_cons]
      by_cases hd : d == c
      · rw [if_pos hd, if_pos hd, List.length_cons, ih]
      · rw [if_neg hd, if_neg hd, List.length_modifyHead, ih, Nat.add_zero]

theorem length_modifyLast (f : Bytes → Bytes) (l : List Bytes) :
    (l.modifyLast f).length = l.length := by
  rcases List.eq_nil_or_concat l with rfl | ⟨front, last, rfl⟩
  · rfl
  · rw [List.concat_eq_append, List.modifyLast_concat, List.length_append,
      List.length_append]
    rfl

/-- Splitting, and all that is done to the parts, makes one name more than
there are delimiters. -/
theorem getColumnNames_length {delimiter : UInt8} {file : Bytes}
    {names : List Bytes} (h : getColumnNames delimiter file = .ok names) :
    names.length = (readRawData file 1).count delimiter + 1 := by
  have hlen := length_modifyLast
    (fun item => (item.erase lineFeed).erase carriageReturn)
    ((readRawData file 1).splitOn delimiter)
  rw [← splitOn_length, ← hlen]
  clear hlen
  simp only [getColumnNames] at h
  by_cases htitle : readRawData file 1 = []
  · rw [if_pos htitle] at h
    cases h
  · rw [if_neg htitle] at h
    generalize ((readRawData file 1).splitOn delimiter).modifyLast _ = parts
      at h ⊢
    cases parts with
    | nil =>
        cases h
        rfl
    | cons firstItem others =>
        dsimp only at h
        cases hskip : skipUTF8BOM firstItem with
        | error e =>
            rw [hskip] at h
            cases h
        | ok skipped =>
            rw [hskip] at h
            dsimp only [bind, Except.bind] at h
            cases h
            rw [List.length_map, List.length_cons, List.length_cons]

theorem count_intercalate_comma {names : List Bytes} (hne : names ≠ []) :
    ([comma].intercalate names).count comma + 1
      = (names.map (List.count comma)).sum + names.length := by
  induction names with
  | nil => exact absurd rfl hne
  | cons name rest ih =>
      cases rest with
      | nil => simp
      | cons other rest =>
          have hrest := ih (List.cons_ne_nil _ _)
          rw [List.intercalate_cons_cons, List.count_append,
            List.count_append, List.count_singleton_self, List.map_cons,
            List.sum_cons, List.length_cons]
          omega

-- ======================================================= what each name loses

theorem dropWhile_eq_self_iff_head? (c : UInt8) (name : Bytes) :
    name.dropWhile (· = c) = name ↔ name.head? ≠ some c := by
  cases name with
  | nil => simp
  | cons d rest =>
      rw [List.head?_cons, List.dropWhile_cons]
      by_cases hd : d = c
      · refine iff_of_false ?_ fun h => h (congrArg some hd)
        rw [if_pos (decide_eq_true hd)]
        intro h
        have hle := List.length_dropWhile_le (fun x => decide (x = c)) rest
        rw [h, List.length_cons] at hle
        omega
      · rw [if_neg (by simpa using hd)]
        exact iff_of_true rfl fun h => hd (Option.some.inj h)

theorem rdropWhile_eq_self_iff_getLast? (c : UInt8) (name : Bytes) :
    name.rdropWhile (· = c) = name ↔ name.getLast? ≠ some c := by
  rw [List.rdropWhile, ← List.head?_reverse,
    ← dropWhile_eq_self_iff_head? c name.reverse, List.reverse_eq_iff]

theorem length_rdropWhile_le (c : UInt8) (name : Bytes) :
    (name.rdropWhile (· = c)).length ≤ name.length :=
  (List.rdropWhile_prefix _ _).length_le

theorem trimQuotes_length_le (name : Bytes) :
    (trimQuotes name).length ≤ name.length :=
  (length_rdropWhile_le _ _).trans (List.length_dropWhile_le _ _)

theorem trimQuotes_eq_self_iff (name : Bytes) :
    trimQuotes name = name ↔ name.head? ≠ some quotationMark
      ∧ name.getLast? ≠ some quotationMark := by
  rw [← dropWhile_eq_self_iff_head?, ← rdropWhile_eq_self_iff_getLast?]
  refine ⟨fun h => ?_, fun h => ?_⟩
  · -- the second call cannot give back what the first one took
    have hfirst : name.dropWhile (· = quotationMark) = name := by
      refine (List.dropWhile_sublist _).eq_of_length_le ?_
      calc name.length
          = (trimQuotes name).length := by rw [h]
        _ ≤ _ := length_rdropWhile_le _ _
    rw [trimQuotes, hfirst] at h
    exact ⟨hfirst, h⟩
  · rw [trimQuotes, h.1, h.2]

/-- Nothing was taken out of a name that is still the same. -/
theorem trimQuotes_erase_eq_iff (name : Bytes) :
    trimQuotes (name.erase carriageReturn) = name
      ↔ carriageReturn ∉ name ∧ trimQuotes name = name := by
  by_cases hc : carriageReturn ∈ name
  · refine iff_of_false ?_ fun h => h.1 hc
    intro h
    have hle := trimQuotes_length_le (name.erase carriageReturn)
    have hpos := List.length_pos_of_mem hc
    rw [h, List.length_erase_of_mem hc] at hle
    omega
  · rw [List.erase_of_not_mem hc]
    exact ⟨fun h => ⟨hc, h⟩, And.right⟩

-- ============================================================= names read back

/-- The parts of a header without commas in its names: the first behind the
mark, the last without its carriage return. -/
theorem splitOn_header {names : List Bytes} (hne : names ≠ [])
    (hfeed : ∀ name ∈ names, lineFeed ∉ name)
    (hcomma : ∀ name ∈ names, comma ∉ name) :
    ∃ first others,
      names.modifyLast (·.erase carriageReturn) = first :: others
      ∧ ((kBOM ++ [comma].intercalate names ++ [lineFeed]).splitOn
          comma).modifyLast (fun item =>
            (item.erase lineFeed).erase carriageReturn)
        = (kBOM ++ first) :: others := by
  obtain rfl | ⟨front, last, rfl⟩ := List.eq_nil_or_concat names
  · exact absurd rfl hne
  rw [List.concat_eq_append] at hfeed hcomma ⊢
  have hmem : last ∈ front ++ [last] := List.mem_concat_self
  have hend : ((last ++ [lineFeed]).erase lineFeed).erase carriageReturn
      = last.erase carriageReturn := by
    rw [List.erase_append_right _ (hfeed last hmem), List.erase_cons_head,
      List.append_nil]
  have hlast : comma ∉ last ++ [lineFeed] := fun h =>
    (List.mem_append.1 h).elim (hcomma last hmem) (by decide)
  -- a single name has the mark in front and the line feed behind
  cases front with
  | nil =>
      refine ⟨last.erase carriageReturn, [], List.modifyLast_concat _ _ [],
        ?_⟩
      have hnot : comma ∉ kBOM ++ (last ++ [lineFeed]) := fun h =>
        (List.mem_append.1 h).elim (by decide) hlast
      rw [List.nil_append, List.intercalate_singleton, List.append_assoc,
        List.splitOn_eq_singleton hnot]
      refine (List.modifyLast_concat _ _ []).trans ?_
      rw [List.erase_append_right _ (by decide),
        List.erase_append_right _ (by decide), hend]
      rfl
  | cons first middle =>
      refine ⟨first, middle ++ [last.erase carriageReturn],
        List.modifyLast_concat _ _ (first :: middle), ?_⟩
      -- otherwise the mark goes with the first name and the line feed with the
      -- last
      have hline : kBOM ++ [comma].intercalate (first :: middle ++ [last])
            ++ [lineFeed]
          = [comma].intercalate
            ((kBOM ++ first) :: middle ++ [last ++ [lineFeed]]) := by
        rw [Lib.intercalate_concat (List.cons_ne_nil _ _),
          Lib.intercalate_concat (List.cons_ne_nil _ _)]
        cases middle with
        | nil => simp
        | cons second rest => simp [List.intercalate_cons_cons]
      have hparts : ∀ part ∈ (kBOM ++ first) :: middle ++ [last ++ [lineFeed]],
          comma ∉ part := by
        intro part hpart
        rcases List.mem_append.1 hpart with hpart | hpart
        · rcases List.mem_cons.1 hpart with rfl | hpart
          · exact fun h => (List.mem_append.1 h).elim (by decide)
              (hcomma first (by simp))
          · exact hcomma part (by simp [hpart])
        · rw [List.mem_singleton.1 hpart]
          exact hlast
      rw [hline, List.splitOn_intercalate comma hparts (by simp),
        List.modifyLast_concat, hend]
      rfl

theorem skipUTF8BOM_kBOM (item : Bytes) :
    skipUTF8BOM (kBOM ++ item) = .ok item := by
  simp [skipUTF8BOM, kBOM, skipBOM]

/-- What is read of a header without commas in its names. -/
theorem getColumnNames_header {names : List Bytes} (hne : names ≠ [])
    (hfeed : ∀ name ∈ names, lineFeed ∉ name)
    (hcomma : ∀ name ∈ names, comma ∉ name) (rows : Bytes) :
    getColumnNames comma
        (kBOM ++ [comma].intercalate names ++ [lineFeed] ++ rows)
      = .ok ((names.modifyLast (·.erase carriageReturn)).map trimQuotes) := by
  obtain ⟨first, others, hnames, hparts⟩ := splitOn_header hne hfeed hcomma
  have htitle : kBOM ++ [comma].intercalate names ++ [lineFeed] ≠ [] := by
    simp
  rw [hnames]
  simp only [getColumnNames, readRawData_header hfeed, if_neg htitle, hparts,
    skipUTF8BOM_kBOM]
  rfl

theorem comma_free_of_survive {names : List Bytes} {rows : Bytes}
    (hne : names ≠ []) (hfeed : ∀ name ∈ names, lineFeed ∉ name)
    (h : NamesSurvive names rows) : ∀ name ∈ names, comma ∉ name := by
  obtain ⟨header, hheader, hread⟩ := h
  rw [writeHeader_eq hne] at hheader
  cases hheader
  have hlen := getColumnNames_length hread
  have hcount := count_intercalate_comma hne
  rw [readRawData_header hfeed, List.count_append, List.count_append,
    show kBOM.count comma = 0 from rfl,
    show [lineFeed].count comma = 0 from rfl] at hlen
  have hsum : (names.map (List.count comma)).sum = 0 := by omega
  intro name hname
  have hzero := List.sum_eq_zero_iff_forall_eq_nat.1 hsum _
    (List.mem_map_of_mem hname)
  exact List.count_eq_zero.1 hzero

theorem map_eq_self_iff (f : Bytes → Bytes) (names : List Bytes) :
    names.map f = names ↔ ∀ name ∈ names, f name = name := by
  induction names with
  | nil => simp
  | cons name rest ih =>
      rw [List.map_cons, List.cons.injEq, ih, List.forall_mem_cons]

/-- Without commas, what is left is to compare each name with what it
loses. -/
theorem map_trimQuotes_eq_iff {names : List Bytes} (hne : names ≠ []) :
    (names.modifyLast (·.erase carriageReturn)).map trimQuotes = names
      ↔ (∀ name ∈ names, trimQuotes name = name)
        ∧ ∀ name, names.getLast? = some name → carriageReturn ∉ name := by
  obtain rfl | ⟨front, last, rfl⟩ := List.eq_nil_or_concat names
  · exact absurd rfl hne
  rw [List.concat_eq_append, List.modifyLast_concat, List.map_append,
    List.map_singleton, List.append_singleton_inj, trimQuotes_erase_eq_iff,
    List.getLast?_concat, List.forall_mem_append, List.forall_mem_singleton,
    map_eq_self_iff]
  refine ⟨?_, ?_⟩
  · rintro ⟨hnames, hlast, htrim⟩
    exact ⟨⟨hnames, htrim⟩, fun name h => Option.some.inj h ▸ hlast⟩
  · rintro ⟨⟨hnames, htrim⟩, hlast⟩
    exact ⟨hnames, hlast last rfl, htrim⟩

/-- The names come back exactly when they are plain. -/
theorem namesSurvive_iff {names : List Bytes} (hne : names ≠ [])
    (hfeed : ∀ name ∈ names, lineFeed ∉ name) (rows : Bytes) :
    NamesSurvive names rows ↔ PlainNames names := by
  refine ⟨fun h => ?_, fun h => ?_⟩
  · have hcomma := comma_free_of_survive hne hfeed h
    obtain ⟨header, hheader, hsame⟩ := h
    rw [writeHeader_eq hne] at hheader
    cases hheader
    rw [getColumnNames_header hne hfeed hcomma] at hsame
    obtain ⟨htrim, hreturn⟩ :=
      (map_trimQuotes_eq_iff hne).1 (Except.ok.inj hsame)
    exact ⟨hcomma, fun name hname =>
      (trimQuotes_eq_self_iff name).1 (htrim name hname), hreturn⟩
  · refine ⟨_, writeHeader_eq hne, ?_⟩
    have htrim : ∀ name ∈ names, trimQuotes name = name :=
      fun name hname => (trimQuotes_eq_self_iff name).2 (h.unquoted name hname)
    rw [getColumnNames_header hne hfeed h.comma_free,
      (map_trimQuotes_eq_iff hne).2 ⟨htrim, h.return_free⟩]

/-- Two names, one of them not in ASCII. -/
theorem namesSurvive_two :
    NamesSurvive [[0x69, 0x64], [0xC3, 0xA9]] []
      ↔ PlainNames [[0x69, 0x64], [0xC3, 0xA9]] :=
  namesSurvive_iff (by decide) (by decide) []

/-- `a,b` comes back as two names. -/
theorem not_namesSurvive_comma :
    ¬ NamesSurvive [[0x61, 0x2C, 0x62]] [] := by
  intro h
  exact absurd (comma_free_of_survive (by decide) (by decide) h _
    List.mem_cons_self) (by decide)

end PrimiHub.DataStore
