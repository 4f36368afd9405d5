import Blockchecks.TomlWrite

namespace Blockchecks.Toml

/-- The names in a table. -/
abbrev names {α : Type} (table : List (String × α)) : List String := table.map Prod.fst

section lines

variable {lines : List Line} {line : Line} {p : Char → Bool}

/-- A line that may be written. -/
def Line.Writable (line : Line) : Prop := line.Named ∧ ∀ s ∈ line.strings, Plain s

theorem mapM_some {α β : Type} {f : α → Option β} {g : α → β} {items : List α} (h : ∀ a ∈ items, f a = some (g a)) :
    items.mapM f = some (items.map g) := by
  induction items with
  | nil => rfl
  | cons a items ih =>
      rw [List.mapM_cons, h a List.mem_cons_self, ih (fun c hc => h c (List.mem_cons_of_mem a hc))]
      rfl

theorem mapM_write (h : ∀ line ∈ lines, line.Writable) :
    (lines.map Line.write).mapM statement = some (lines.map Line.says) := by
  rw [List.mapM_map]
  exact mapM_some (fun line hline => statement_write (h line hline).1 (h line hline).2)

theorem mapM_eq_none {α β : Type} {f : α → Option β} {items : List α} {a : α} (ha : a ∈ items) (h : f a = none) :
    items.mapM f = none := by
  induction items with
  | nil => exact absurd ha List.not_mem_nil
  | cons b items ih =>
      rw [List.mapM_cons]
      rcases List.mem_cons.mp ha with rfl | ha
      · rw [h]
        rfl
      · rw [ih ha]
        cases f b with
        | none => rfl
        | some c => rfl

/-- Lines that may be written, joined, are read one by one. -/
theorem loads_lines (h : ∀ line ∈ lines, line.Writable) (hne : lines ≠ []) :
    loads (['\n'].intercalate (lines.map Line.write)) = assemble [] .top [] (lines.map Line.says) := by
  have hnewline : ∀ text ∈ lines.map Line.write, '\n' ∉ text := by
    intro text htext hin
    obtain ⟨line, hline, rfl⟩ := List.mem_map.mp htext
    obtain ⟨hnamed, hstrings⟩ := h line hline
    exact absurd (line_plain hnamed hstrings '\n' hin) (by decide)
  rw [loads, List.splitOn_intercalate '\n' hnewline (fun hnil => hne (List.map_eq_nil_iff.mp hnil)), mapM_write h]
  rfl

/-- The pieces of a line are pieces of the text. -/
theorem mem_splitOnP_intercalate {parts : List (List Char)} {part piece : List Char} (hp : p '\n' = true)
    (hpart : part ∈ parts) (hpiece : piece ∈ part.splitOnP p) :
    piece ∈ (['\n'].intercalate parts).splitOnP p := by
  induction parts with
  | nil => exact absurd hpart List.not_mem_nil
  | cons first parts ih =>
      cases parts with
      | nil =>
          rw [List.intercalate_singleton, ← List.mem_singleton.mp hpart]
          exact hpiece
      | cons second parts =>
          rw [List.intercalate_cons_cons, List.append_assoc, List.singleton_append, List.splitOnP_append_cons _ _ hp]
          rcases List.mem_cons.mp hpart with rfl | hpart
          · exact List.mem_append_left _ hpiece
          · exact List.mem_append_right _ (ih hpart)

/-- A string that is not plain spoils the text, however it is cut at control characters. -/
theorem exists_bad_piece (hp : ∀ c, p c = true → control c = true) (hnewline : p '\n' = true) (hline : line ∈ lines)
    (hnamed : line.Named) (h : ¬ ∀ s ∈ line.strings, Plain s) :
    ∃ piece ∈ (['\n'].intercalate (lines.map Line.write)).splitOnP p, piece ≠ [] ∧ statement piece = none := by
  obtain ⟨piece, hpiece, hbad⟩ := statement_breaks (breaks_line hnamed h) hp
  refine ⟨piece, mem_splitOnP_intercalate hnewline (List.mem_map_of_mem hline) hpiece, ?_, hbad⟩
  rintro rfl
  exact absurd hbad (by decide)

end lines

section tables

variable {document : Document} {place : Place} {done table : Table} {rest : List Statement} {name : String}

theorem assemble_entries (h : (names (done ++ table)).Nodup) :
    assemble document place done ((entries table).map Line.says ++ rest) =
      assemble document place (done ++ table) rest := by
  induction table generalizing done with
  | nil => rw [List.append_nil]; rfl
  | cons e table ih =>
      have hsplit : done ++ e :: table = (done ++ [e]) ++ table := by rw [List.append_assoc, List.singleton_append]
      have hnew : e.1 ∉ names done := by
        rw [names, List.map_append] at h
        exact fun hin => (List.nodup_append.mp h).2.2 e.1 hin e.1 List.mem_cons_self rfl
      change (if e.1 ∈ names done then none else assemble document place (done ++ [e]) _) = _
      rw [hsplit] at h ⊢
      rw [if_neg hnew]
      exact ih h

/-- The lines of a table, from its first one on. -/
theorem assemble_whole (h : (names table).Nodup) :
    assemble document place [] ((entries table).map Line.says ++ rest) = assemble document place table rest :=
  assemble_entries h

theorem assemble_header (h : (names table).Nodup) :
    assemble document place [] ((entries table).map Line.says ++ .blank :: .header name :: rest) =
      (close document table place).bind fun document => assemble document (.table name) [] rest := by
  rw [assemble_whole h]
  rfl

theorem close_table (h : name ∉ names document) :
    close document table (.table name) = some (document ++ [(name, .table table)]) := if_neg h

/-- A table with a name of its own, up to the next one. -/
theorem assemble_table (hnodup : (names table).Nodup) (h : name ∉ names document) (next : String) :
    assemble document (.table name) [] ((entries table).map Line.says ++ .blank :: .header next :: rest) =
      assemble (document ++ [(name, .table table)]) (.table next) [] rest := by
  rw [assemble_header hnodup, close_table h, Option.bind_some]

theorem addElement_other {other : String} (h : other ≠ name) (node : Node) (document : Document) :
    addElement name table ((other, node) :: document) =
      (addElement name table document).map ((other, node) :: ·) := by
  conv_lhs => unfold addElement
  exact if_neg h

theorem addElement_new (h : name ∉ names document) :
    addElement name table document = some (document ++ [(name, .tables [table])]) := by
  induction document with
  | nil => rfl
  | cons e document ih =>
      obtain ⟨hne, hrest⟩ := not_or.mp (fun hin => h (List.mem_cons.mpr hin))
      rw [addElement_other (fun heq => hne heq.symm), ih hrest]
      rfl

theorem addElement_more (h : name ∉ names document) (elements : List Table) :
    addElement name table (document ++ [(name, .tables elements)]) =
      some (document ++ [(name, .tables (elements ++ [table]))]) := by
  induction document with
  | nil =>
      rw [List.nil_append, addElement, if_pos rfl]
      rfl
  | cons e document ih =>
      obtain ⟨hne, hrest⟩ := not_or.mp (fun hin => h (List.mem_cons.mpr hin))
      rw [List.cons_append, addElement_other (fun heq => hne heq.symm), ih hrest]
      rfl

/-- The lines of tables of one name. -/
def elementLines (name : String) (tables : List Table) : List Line :=
  tables.flatMap (fun table => [.blank, .element name] ++ entries table)

/-- The node for the tables of one name, which is there if there are any. -/
def elementNodes (name : String) : List Table → Document
  | [] => []
  | table :: tables => [(name, .tables (table :: tables))]

/-- One element after the other, to the end of the text. -/
theorem assemble_more (h : name ∉ names document) {tables : List Table} (htable : (names table).Nodup)
    (hnodup : ∀ t ∈ tables, (names t).Nodup) {base : Document} (elements : List Table)
    (hbase : addElement name table base = some (document ++ [(name, .tables (elements ++ [table]))])) :
    assemble base (.element name) [] ((entries table).map Line.says ++ ((elementLines name tables).map Line.says ++ [.blank])) =
      some (document ++ [(name, .tables (elements ++ table :: tables))]) := by
  rw [assemble_whole htable]
  induction tables generalizing table base elements with
  | nil => exact hbase
  | cons next tables ih =>
      have hnext : (names next).Nodup := hnodup next List.mem_cons_self
      have hbound : addElement name next (document ++ [(name, .tables (elements ++ [table]))]) = _ :=
        addElement_more h (elements ++ [table])
      have hih := ih hnext (fun t ht => hnodup t (List.mem_cons_of_mem next ht)) (elements ++ [table]) hbound
      rw [elementLines, List.flatMap_cons, List.map_append, List.map_append, List.append_assoc, List.append_assoc]
      change (addElement name table base).bind (fun document => assemble document (.element name) []
        ((entries next).map Line.says ++ ((elementLines name tables).map Line.says ++ [.blank]))) = _
      rw [hbase, Option.bind_some, assemble_whole hnext, hih, List.append_assoc]
      rfl

/-- After the last table that has a name of its own come the elements, if there are any. -/
theorem assemble_elements (h : name ∉ names document) {tables : List Table} (hnodup : ∀ t ∈ tables, (names t).Nodup)
    {base : Document} (htable : (names table).Nodup) (hclose : close base table place = some document) :
    assemble base place [] ((entries table).map Line.says ++ ((elementLines name tables).map Line.says ++ [.blank])) =
      some (document ++ elementNodes name tables) := by
  rw [assemble_whole htable]
  cases tables with
  | nil => exact hclose.trans (congrArg some (List.append_nil document).symm)
  | cons next tables =>
      have hnext : (names next).Nodup := hnodup next List.mem_cons_self
      rw [elementLines, List.flatMap_cons, List.map_append, List.map_append, List.append_assoc, List.append_assoc]
      change (close base table place).bind (fun document => assemble document (.element name) []
        ((entries next).map Line.says ++ ((elementLines name tables).map Line.says ++ [.blank]))) = _
      rw [hclose, Option.bind_some]
      exact assemble_more h hnext (fun t ht => hnodup t (List.mem_cons_of_mem next ht)) [] (addElement_new h)

end tables

end Blockchecks.Toml
