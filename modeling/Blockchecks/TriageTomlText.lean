import Blockchecks.TriageTomlLines

namespace Blockchecks.TriageTomlText

open FailPhases TriageProfiles TriageRecord TextFile TriageToml TriageTrip TriageTomlLines
open Toml (Line Leaf Table Document entries elementLines elementNodes names assemble Bare Plain)

section tables

variable {p : Profile} {table : Table}

/-- The strings of a table. -/
def tableStrings (table : Table) : List String := table.flatMap (fun e => e.2.strings)

/-- The names of a table are bare, and each stands once. -/
structure Named (table : Table) : Prop where
  bare : ∀ name ∈ names table, Bare name
  nodup : (names table).Nodup

theorem named_of_sublist (keys : List String) (h : (names table).Sublist keys) (hbare : ∀ name ∈ keys, Bare name)
    (hnodup : keys.Nodup) : Named table :=
  ⟨fun name hname => hbare name (h.subset hname), h.nodup hnodup⟩

theorem named_topTable (now : Stamp) (top : String) : Named (topTable now top) :=
  named_of_sublist ["version", "updated_at", "primary_domain"] (List.Sublist.refl _) (by decide) (by decide)

theorem flag_sublist (key : String) (value : Option Bool) : (names (flag key value)).Sublist [key] := by
  cases value with
  | none => exact List.nil_sublist _
  | some b => exact List.Sublist.refl _

theorem hop_sublist (key : String) (value : Option Int) : (names (hop key value)).Sublist [key] := by
  cases value with
  | none => exact List.nil_sublist _
  | some n => exact List.Sublist.refl _

def flagKeys : List String :=
  ["silent_drop_after_sni", "rst_at_sni", "voice_ok", "udp_blocked", "dns_hijacked", "dns_sinkhole"] ++
    (["ech_blocked"] ++ ["http_blocked"])

def hopKeys : List String := ["server_hops"] ++ (["dpi_hops"] ++ ["autottl_delta"])

theorem flagTable_sublist (p : Profile) : (names (flagTable p)).Sublist flagKeys := by
  rw [names, flagTable, List.map_append, List.map_append]
  exact (List.Sublist.refl _).append ((flag_sublist _ _).append (flag_sublist _ _))

theorem named_flagTable (p : Profile) : Named (flagTable p) :=
  named_of_sublist flagKeys (flagTable_sublist p) (by decide) (by decide)

theorem hopTable_sublist (p : Profile) : (names (hopTable p)).Sublist hopKeys := by
  rw [names, hopTable, List.map_append, List.map_append]
  exact (hop_sublist _ _).append ((hop_sublist _ _).append (hop_sublist _ _))

theorem named_hopTable (p : Profile) : Named (hopTable p) :=
  named_of_sublist hopKeys (hopTable_sublist p) (by decide) (by decide)

theorem named_viableTable (p : Profile) : Named (viableTable p) := by
  apply named_of_sublist (["foolings", "blobs", "split_mode"] ++ ["hosts"])
  · rw [names, viableTable, List.map_append]
    apply (List.Sublist.refl ["foolings", "blobs", "split_mode"]).append
    split_ifs
    · exact List.nil_sublist _
    · exact List.Sublist.refl _
  · decide
  · decide

theorem named_deadTable (p : Profile) : Named (deadTable p) :=
  named_of_sublist ["foolings", "notes"] (List.Sublist.refl _) (by decide) (by decide)

theorem named_diagTable (diag : Fields) : Named (diagTable diag) :=
  named_of_sublist diagKeys (List.Sublist.refl _) (by decide) (by decide)

theorem names_filterMap {keys : List String} (f : String → Option Leaf) :
    (names (keys.filterMap (fun key => (f key).map fun value => (key, value)))).Sublist keys := by
  induction keys with
  | nil => exact List.Sublist.refl _
  | cons key keys ih =>
      rw [List.filterMap_cons]
      cases f key with
      | none => exact ih.cons key
      | some value => exact ih.cons_cons key

theorem named_clusterTable (cluster : Fields) : Named (clusterTable cluster) :=
  named_of_sublist ("primary_domain" :: lineKeys) ((names_filterMap _).cons_cons _) (by decide) (by decide)

theorem named_clusterTables (p : Profile) : ∀ t ∈ clusterTables p, Named t := by
  intro t ht
  rw [clusterTables] at ht
  split_ifs at ht with hfew
  · exact absurd ht List.not_mem_nil
  · obtain ⟨cluster, -, rfl⟩ := List.mem_map.mp ht
    exact named_clusterTable cluster

end tables

section documents

/-- The nodes that stand in every file. -/
def tableNodes (now : Stamp) (p : Profile) (primaryDomain : String) : Document :=
  [("version", .leaf (.int 1)), ("updated_at", .leaf (.text now.text)),
    ("primary_domain", .leaf (.text (topOf p primaryDomain))), ("flags", .table (flagTable p)),
    ("hops", .table (hopTable p)), ("viable", .table (viableTable p)), ("dead", .table (deadTable p))]

def diagNodes (p : Profile) : Document :=
  if p.dpiDiag = [] then [] else [("dpi_diag", .table (diagTable p.dpiDiag))]

def documentOf (now : Stamp) (p : Profile) (primaryDomain : String) : Document :=
  tableNodes now p primaryDomain ++ diagNodes p ++ elementNodes "cluster" (clusterTables p)

variable {place : Toml.Place} {document : Document}

theorem assemble_hops (p : Profile) (rest : List Toml.Statement) :
    assemble document place [] ((hopEntries p).map Line.says ++ rest) =
      assemble document place [] ((entries (hopTable p)).map Line.says ++ rest) := by
  rw [hopEntries]
  by_cases h : hopTable p = []
  · rw [if_pos h, h]
    rfl
  · rw [if_neg h]

theorem assemble_triageLines (now : Stamp) (p : Profile) (primaryDomain : String) :
    assemble [] .top [] ((triageLines now p primaryDomain).map Line.says) =
      some (documentOf now p primaryDomain) := by
  have hclusters : ∀ t ∈ clusterTables p, (names t).Nodup := fun t ht => (named_clusterTables p t ht).nodup
  have hflags : "flags" ∉ ["version", "updated_at", "primary_domain"] := by decide
  have hhops : "hops" ∉ ["version", "updated_at", "primary_domain", "flags"] := by decide
  have hviable : "viable" ∉ ["version", "updated_at", "primary_domain", "flags", "hops"] := by decide
  have hdead : "dead" ∉ ["version", "updated_at", "primary_domain", "flags", "hops", "viable"] := by decide
  simp only [triageLines, List.map_append, List.append_assoc, List.map_cons, List.map_nil, List.cons_append,
    List.nil_append, Line.says]
  rw [Toml.assemble_header (named_topTable now _).nodup]
  change assemble ((topTable now (topOf p primaryDomain)).map (fun e => (e.1, .leaf e.2))) (.table "flags") [] _ = _
  rw [Toml.assemble_table (named_flagTable p).nodup hflags, assemble_hops,
    Toml.assemble_table (named_hopTable p).nodup hhops, Toml.assemble_table (named_viableTable p).nodup hviable,
    documentOf, diagNodes, diagEntries]
  by_cases hdiag : p.dpiDiag = []
  · have hcluster : "cluster" ∉ names (tableNodes now p primaryDomain) :=
      (by decide : "cluster" ∉ ["version", "updated_at", "primary_domain", "flags", "hops", "viable", "dead"])
    rw [if_pos hdiag, if_pos hdiag, List.append_nil, List.map_nil, List.nil_append]
    exact Toml.assemble_elements hcluster hclusters (named_deadTable p).nodup (Toml.close_table hdead)
  · have hnew : "dpi_diag" ∉ ["version", "updated_at", "primary_domain", "flags", "hops", "viable", "dead"] := by
      decide
    have hcluster : "cluster" ∉ names (tableNodes now p primaryDomain ++ [("dpi_diag", .table (diagTable p.dpiDiag))]) :=
      (by decide :
        "cluster" ∉ ["version", "updated_at", "primary_domain", "flags", "hops", "viable", "dead", "dpi_diag"])
    rw [if_neg hdiag, if_neg hdiag]
    simp only [List.map_cons, List.cons_append, List.nil_append, List.append_assoc, Line.says]
    rw [Toml.assemble_table (named_deadTable p).nodup hdead]
    exact Toml.assemble_elements hcluster hclusters (named_diagTable p.dpiDiag).nodup (Toml.close_table hnew)

end documents

section strings

variable {p : Profile} {table : Table} {tables : List Table}

/-- The texts that a profile and a domain give to the file: those of its lists, its mode and its
diagnostics, the domains in front, and the reports of the clusters if there are several. -/
def givenTexts (p : Profile) (primaryDomain : String) : List String :=
  [topOf p primaryDomain] ++ (p.viableFoolings ++ p.viableBlobs ++ [p.splitMode] ++ p.viableHosts) ++
    p.deadFoolings ++ diagKeys.flatMap (diagList p.dpiDiag) ++ (clusterTables p).flatMap tableStrings

theorem strings_entries (table : Table) : (entries table).flatMap Line.strings = tableStrings table := by
  rw [entries, List.flatMap_map]
  rfl

theorem strings_elementLines (tables : List Table) :
    (elementLines "cluster" tables).flatMap Line.strings = tables.flatMap tableStrings := by
  rw [elementLines, List.flatMap_assoc]
  congr 1
  funext table
  rw [List.flatMap_append, strings_entries]
  rfl

theorem tableStrings_append (a b : Table) : tableStrings (a ++ b) = tableStrings a ++ tableStrings b :=
  List.flatMap_append

theorem tableStrings_flagTable (p : Profile) : tableStrings (flagTable p) = [] := by
  rw [flagTable, tableStrings_append, tableStrings_append]
  cases p.echBlocked <;> cases p.httpBlocked <;> rfl

theorem strings_hopEntries (p : Profile) : (hopEntries p).flatMap Line.strings = [] := by
  have htable : tableStrings (hopTable p) = [] := by
    rw [hopTable, tableStrings_append, tableStrings_append]
    cases p.serverHops <;> cases p.dpiHops <;> cases p.autottlDelta <;> rfl
  rw [hopEntries]
  split_ifs
  · rfl
  · rw [strings_entries, htable]

theorem tableStrings_viableTable (p : Profile) : tableStrings (viableTable p) =
    p.viableFoolings ++ p.viableBlobs ++ [p.splitMode] ++ p.viableHosts := by
  have hhosts : tableStrings (if p.viableHosts = [] then [] else [("hosts", .texts p.viableHosts)]) = p.viableHosts := by
    split_ifs with h
    · exact h.symm
    · exact List.append_nil _
  rw [viableTable, tableStrings_append, hhosts]
  congr 1
  exact (List.append_assoc ..).symm

theorem strings_diagEntries (p : Profile) :
    (diagEntries p).flatMap Line.strings = diagKeys.flatMap (diagList p.dpiDiag) := by
  rw [diagEntries]
  split_ifs with h
  · rw [h]
    rfl
  · rw [List.flatMap_append, strings_entries, tableStrings, diagTable, List.flatMap_map]
    rfl

theorem strings_triageLines (now : Stamp) (p : Profile) (primaryDomain : String) :
    (triageLines now p primaryDomain).flatMap Line.strings =
      [now.text, topOf p primaryDomain] ++
        (p.viableFoolings ++ p.viableBlobs ++ [p.splitMode] ++ p.viableHosts) ++ (p.deadFoolings ++ notes) ++
        diagKeys.flatMap (diagList p.dpiDiag) ++ (clusterTables p).flatMap tableStrings := by
  have htop : tableStrings (topTable now (topOf p primaryDomain)) = [now.text, topOf p primaryDomain] := rfl
  have hdead : tableStrings (deadTable p) = p.deadFoolings ++ notes := rfl
  have hblank : [Line.blank].flatMap Line.strings = [] := rfl
  simp only [triageLines, List.flatMap_append, strings_entries, htop, tableStrings_flagTable, strings_hopEntries,
    tableStrings_viableTable, hdead, strings_diagEntries, strings_elementLines, hblank, List.append_assoc,
    List.append_nil]
  rfl

theorem plain_stamp (now : Stamp) : Plain now.text := by
  have hmarks : ∀ c ∈ ['-', ':', 'T'], Toml.control c = false := Toml.plain_of_all (by decide)
  intro c hc
  rcases now.clock c hc with hdigit | hmark
  · exact Toml.wordChar_plain (Toml.wordChar_of_isDigit hdigit)
  · exact hmarks c hmark

theorem named_entries (h : Named table) : ∀ line ∈ entries table, line.Named := by
  intro line hline
  obtain ⟨e, he, rfl⟩ := List.mem_map.mp hline
  exact h.bare e.1 (List.mem_map_of_mem he)

theorem named_header {name : String} (h : Bare name) : ∀ line ∈ [Line.blank, .header name], line.Named :=
  List.forall_mem_cons.mpr ⟨trivial, List.forall_mem_singleton.mpr h⟩

theorem named_elementLines {name : String} (h : Bare name) (htables : ∀ t ∈ tables, Named t) :
    ∀ line ∈ elementLines name tables, line.Named := by
  intro line hline
  obtain ⟨t, ht, hline⟩ := List.mem_flatMap.mp hline
  rcases List.mem_append.mp hline with hline | hline
  · exact (List.forall_mem_cons.mpr ⟨trivial, List.forall_mem_singleton.mpr h⟩ :
      ∀ line ∈ [Line.blank, .element name], line.Named) line hline
  · exact named_entries (htables t ht) line hline

theorem named_triageLines (now : Stamp) (p : Profile) (primaryDomain : String) :
    ∀ line ∈ triageLines now p primaryDomain, line.Named := by
  have hhops : ∀ line ∈ hopEntries p, line.Named := by
    rw [hopEntries]
    split_ifs
    · exact List.forall_mem_singleton.mpr (by decide : Plain " hops unknown")
    · exact named_entries (named_hopTable p)
  have hdiag : ∀ line ∈ diagEntries p, line.Named := by
    rw [diagEntries]
    split_ifs
    · exact fun line hline => absurd hline List.not_mem_nil
    · exact List.forall_mem_append.mpr ⟨named_header (by decide), named_entries (named_diagTable _)⟩
  have hblank : ∀ line ∈ [Line.blank], line.Named := List.forall_mem_singleton.mpr trivial
  simp only [triageLines, List.forall_mem_append]
  exact ⟨⟨⟨⟨⟨⟨⟨named_entries (named_topTable now _), named_header (by decide), named_entries (named_flagTable p)⟩,
    named_header (by decide), hhops⟩, named_header (by decide), named_entries (named_viableTable p)⟩,
    named_header (by decide), named_entries (named_deadTable p)⟩, hdiag⟩,
    named_elementLines (by decide) (named_clusterTables p)⟩, hblank⟩

theorem plain_notes : ∀ s ∈ notes, Plain s := by decide

/-- The lines may be written exactly if the texts of the profile may. -/
theorem plain_triageLines_iff (now : Stamp) (p : Profile) (primaryDomain : String) :
    (∀ line ∈ triageLines now p primaryDomain, ∀ s ∈ line.strings, Plain s) ↔
      ∀ s ∈ givenTexts p primaryDomain, Plain s := by
  have hstrings := strings_triageLines now p primaryDomain
  have hlines : (∀ line ∈ triageLines now p primaryDomain, ∀ s ∈ line.strings, Plain s) ↔
      ∀ s ∈ (triageLines now p primaryDomain).flatMap Line.strings, Plain s := by
    simp only [List.mem_flatMap]
    exact ⟨fun h s hs => Exists.elim hs fun line hline => h line hline.1 s hline.2,
      fun h line hline s hs => h s ⟨line, hline, hs⟩⟩
  have hnow : Plain now.text := plain_stamp now
  have hnotes : ∀ s ∈ notes, Plain s := plain_notes
  rw [hlines, hstrings, givenTexts]
  simp only [List.forall_mem_append, List.forall_mem_cons]
  tauto

end strings

end Blockchecks.TriageTomlText
