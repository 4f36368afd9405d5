import Blockchecks.TomlTables
import Blockchecks.TriageToml
import Blockchecks.TriageTrip

namespace Blockchecks.TriageTomlLines

open TriageProfiles TriageRecord TextFile TriageToml TriageTrip
open Toml (Line Leaf Table entries elementLines mapM_some)

def diagKeys : List String := ["sni_whitelist", "dns_as_mismatch", "cgnat_sinkhole"]

/-- What the probes put into a report: a truth value, a text, or nothing. -/
def Simple (v : Value) : Prop := v = .none ∨ (∃ b, v = .bool b) ∨ ∃ s, v = .str s

/-- A profile as the probes fill it. -/
structure Typed (p : Profile) : Prop where
  reports : ∀ r ∈ p.domainReports, ∀ key ∈ clusterKeys, Simple (Value.get r.2 key)
  diag : ∀ key ∈ diagKeys, Value.get p.dpiDiag key = .none ∨ ∃ items, Value.get p.dpiDiag key = .strings items

section tables

def topTable (now : Stamp) (top : String) : Table :=
  [("version", .int 1), ("updated_at", .text now.text), ("primary_domain", .text top)]

def flag (key : String) : Option Bool → Table
  | some b => [(key, .bool b)]
  | none => []

def flagTable (p : Profile) : Table :=
  [("silent_drop_after_sni", .bool p.silentDropAfterSni), ("rst_at_sni", .bool p.rstAtSni),
    ("voice_ok", .bool p.voiceOk), ("udp_blocked", .bool p.udpBlocked), ("dns_hijacked", .bool p.dnsHijacked),
    ("dns_sinkhole", .bool p.dnsSinkhole)] ++
    (flag "ech_blocked" p.echBlocked ++ flag "http_blocked" p.httpBlocked)

def hop (key : String) : Option Int → Table
  | some n => [(key, .int n)]
  | none => []

def hopTable (p : Profile) : Table :=
  hop "server_hops" p.serverHops ++ (hop "dpi_hops" p.dpiHops ++ hop "autottl_delta" p.autottlDelta)

def viableTable (p : Profile) : Table :=
  [("foolings", .texts p.viableFoolings), ("blobs", .texts p.viableBlobs), ("split_mode", .text p.splitMode)] ++
    (if p.viableHosts = [] then [] else [("hosts", .texts p.viableHosts)])

def deadTable (p : Profile) : Table := [("foolings", .texts p.deadFoolings), ("notes", .texts notes)]

/-- The strings of a list of the diagnostics. -/
def diagList (diag : Fields) (key : String) : List String := ((Value.get diag key).asStrings).getD []

def diagTable (diag : Fields) : Table := diagKeys.map (fun key => (key, .texts (diagList diag key)))

def reportLeaf : Value → Option Leaf
  | .bool b => some (.bool b)
  | .str s => some (.text s)
  | _ => none

def clusterName (cluster : Fields) : String := ((Value.get cluster "primary_domain").asStrOr).getD ""

def clusterTable (cluster : Fields) : Table :=
  ("primary_domain", .text (clusterName cluster)) ::
    lineKeys.filterMap (fun key => (reportLeaf (Value.get cluster key)).map fun value => (key, value))

def clustersOf (p : Profile) : List Fields := (clusterDomainReports p.domainReports).getD []

def topOf (p : Profile) (primaryDomain : String) : String :=
  (clusteredPrimaryDomain (clustersOf p) primaryDomain).getD ""

/-- The tables of the clusters, which are written if there are several. -/
def clusterTables (p : Profile) : List Table :=
  if (clustersOf p).length < 2 then [] else (clustersOf p).map clusterTable

def hopEntries (p : Profile) : List Line :=
  if hopTable p = [] then [.comment " hops unknown".toList] else entries (hopTable p)

def diagEntries (p : Profile) : List Line :=
  if p.dpiDiag = [] then [] else [.blank, .header "dpi_diag"] ++ entries (diagTable p.dpiDiag)

def triageLines (now : Stamp) (p : Profile) (primaryDomain : String) : List Line :=
  entries (topTable now (topOf p primaryDomain)) ++
    ([.blank, .header "flags"] ++ entries (flagTable p)) ++
    ([.blank, .header "hops"] ++ hopEntries p) ++
    ([.blank, .header "viable"] ++ entries (viableTable p)) ++
    ([.blank, .header "dead"] ++ entries (deadTable p)) ++
    diagEntries p ++
    elementLines "cluster" (clusterTables p) ++
    [.blank]

end tables

section clusters

variable {p : Profile} {reports : Reports} {print : List Atom} {key : String} {v : Value}

theorem exists_mapM {α β : Type} {f : α → Option β} {items : List α} (h : ∀ a ∈ items, ∃ b, f a = some b) :
    ∃ results, items.mapM f = some results := by
  induction items with
  | nil => exact ⟨[], rfl⟩
  | cons a items ih =>
      obtain ⟨b, hb⟩ := h a List.mem_cons_self
      obtain ⟨results, hresults⟩ := ih (fun c hc => h c (List.mem_cons_of_mem a hc))
      exact ⟨b :: results, by rw [List.mapM_cons, hb, hresults]; rfl⟩

theorem atom_simple (h : Simple v) : ∃ a, atom v = some a := by
  rcases h with rfl | ⟨b, rfl⟩ | ⟨s, rfl⟩
  · exact ⟨_, rfl⟩
  · exact ⟨_, rfl⟩
  · exact ⟨_, rfl⟩

/-- Reports of the probes can be told apart. -/
theorem clusterDomainReports_typed (h : Typed p) : clusterDomainReports p.domainReports = some (clustersOf p) := by
  have hrow : ∀ r ∈ p.domainReports, ∃ print, reportFingerprint r.2 = some print :=
    fun r hr => exists_mapM fun key hkey => atom_simple (h.reports r hr key hkey)
  obtain ⟨prints, hprints⟩ := exists_mapM hrow
  rw [clustersOf, clusterDomainReports, hprints]
  rfl

theorem sample_simple (h : Typed p) (print : List Atom) (hkey : key ∈ clusterKeys) :
    Simple (Value.get (sample p.domainReports print) key) := by
  rw [sample]
  cases hfind : p.domainReports.find? (fun r => some r.1 = (namesFor p.domainReports print).head?) with
  | none => exact Or.inl rfl
  | some r => exact h.reports r (List.mem_of_find?_eq_some hfind) key hkey

theorem get_map (keys : List String) (f : String → Value) (key : String) :
    Value.get (keys.map (fun key => (key, f key))) key = if key ∈ keys then f key else .none := by
  induction keys with
  | nil => rfl
  | cons name keys ih =>
      rw [List.map_cons, Value.get, ih]
      by_cases h : name = key
      · rw [if_pos h, if_pos (h ▸ List.mem_cons_self), h]
      · have hmem : key ∈ name :: keys ↔ key ∈ keys :=
          List.mem_cons.trans (or_iff_right (fun heq => h heq.symm))
        rw [if_neg h, if_congr hmem rfl rfl]

theorem cluster_simple (h : Typed p) (print : List Atom) (hkey : key ∈ clusterKeys) :
    Simple (Value.get (cluster p.domainReports print) key) := by
  have hname : ¬ "primary_domain" = key := by
    rintro rfl
    exact absurd hkey (by decide)
  rw [cluster, Value.get, if_neg hname, get_map]
  split_ifs with hin
  · exact sample_simple h print hkey
  · exact Or.inl rfl

theorem clusterName_cluster (reports : Reports) (print : List Atom) :
    (Value.get (cluster reports print) "primary_domain").asStrOr =
      some (clusterName (cluster reports print)) := by
  have hget : Value.get (cluster reports print) "primary_domain" =
      .str (", ".intercalate (namesFor reports print)) := if_pos rfl
  rw [clusterName, hget, asStrOr_str]
  rfl

end clusters

section writing

variable {p : Profile} {key : String} {value : Leaf} {items : List String}

theorem tomlStr_eq (s : String) : tomlStr s = Toml.quote s := by
  have hescape : ∀ text : List Char,
      replaceChar '"' ['\\', '"'] (replaceChar '\\' ['\\', '\\'] text) = text.flatMap Toml.escapeChar := by
    intro text
    induction text with
    | nil => rfl
    | cons c text ih =>
        rw [replaceChar, replaceChar] at ih ⊢
        rw [List.flatMap_cons, List.flatMap_append, ih, List.flatMap_cons]
        congr 1
        rw [Toml.escapeChar]
        by_cases hback : c = '\\'
        · rw [if_pos hback, if_pos (Or.inl hback), hback]
          rfl
        · rw [if_neg hback, List.flatMap_singleton]
          by_cases hquote : c = '"'
          · rw [if_pos hquote, if_pos (Or.inr hquote), hquote]
          · rw [if_neg hquote, if_neg (not_or.mpr ⟨hback, hquote⟩)]
  rw [tomlStr, hescape, Toml.quote]

theorem tomlList_eq (items : List String) : tomlList items = (Leaf.texts items).write := by
  have hitems : ", ".toList.intercalate (items.map tomlStr) = Toml.writeItems items := by
    fun_induction Toml.writeItems items with
    | case1 => rfl
    | case2 s => exact (List.intercalate_singleton).trans (tomlStr_eq s)
    | case3 s items hne ih =>
        cases items with
        | nil => exact absurd rfl hne
        | cons t items =>
            rw [List.map_cons, List.map_cons, List.intercalate_cons_cons, tomlStr_eq, ← List.map_cons, ih,
              List.append_assoc]
  rw [tomlList, hitems]
  rfl

theorem assign_str (key s : String) : assign key (tomlStr s) = (Line.entry key (.text s)).write := by
  rw [assign, tomlStr_eq]
  rfl

theorem assign_list (key : String) (items : List String) :
    assign key (tomlList items) = (Line.entry key (.texts items)).write := by
  rw [assign, tomlList_eq]
  rfl

theorem write_append (a b : Table) :
    (entries (a ++ b)).map Line.write = (entries a).map Line.write ++ (entries b).map Line.write := by
  rw [entries, List.map_append, List.map_append]
  rfl

theorem optionalFlag_eq {d : Fields} (flagged : Option Bool) (h : Value.get d key = .ofOption .bool flagged) :
    optionalFlag d key = (entries (flag key flagged)).map Line.write := by
  rw [optionalFlag, h]
  cases flagged with
  | none => rfl
  | some b =>
      have hline : flagLine d key = (Line.entry key (.bool b)).write := by
        rw [flagLine, h]
        rfl
      exact congrArg (fun line => [line]) hline

theorem flagLines_eq (p : Profile) : flagLines p.toDict = (entries (flagTable p)).map Line.write := by
  rw [flagLines, optionalFlag_eq p.echBlocked rfl, optionalFlag_eq p.httpBlocked rfl,
    flagTable, write_append, write_append]
  rfl

theorem hopLine_eq {d : Fields} (known : Option Int) (h : Value.get d key = .ofOption .int known)
    (keys : List String) : (key :: keys).filterMap (hopLine d) =
      (entries (hop key known)).map Line.write ++ keys.filterMap (hopLine d) := by
  rw [List.filterMap_cons, hopLine, h]
  cases known with
  | none => rfl
  | some n => rfl

theorem hopLines_eq (p : Profile) : hopLines p.toDict = (entries (hopTable p)).map Line.write := by
  rw [hopLines, hopLine_eq p.serverHops rfl, hopLine_eq p.dpiHops rfl,
    hopLine_eq p.autottlDelta rfl, hopTable, write_append, write_append, List.filterMap_nil,
    List.append_nil]

theorem hopEntries_eq (p : Profile) :
    (if hopLines p.toDict = [] then ["# hops unknown".toList] else hopLines p.toDict) =
      (hopEntries p).map Line.write := by
  have hnil : hopLines p.toDict = [] ↔ hopTable p = [] := by
    rw [hopLines_eq, entries, List.map_eq_nil_iff, List.map_eq_nil_iff]
  rw [hopEntries]
  by_cases h : hopTable p = []
  · rw [if_pos (hnil.mpr h), if_pos h]
    rfl
  · rw [if_neg (fun hlines => h (hnil.mp hlines)), if_neg h, hopLines_eq]

theorem listLine_eq {d : Fields} {field : String} (h : Value.get d field = .strings items) (key : String) :
    listLine d key field = some (Line.entry key (.texts items)).write := by
  rw [listLine, h, asStrings_strings, Option.map_some, assign_list]

theorem hostLines_eq (p : Profile) : hostLines p.toDict =
    some ((entries (if p.viableHosts = [] then [] else [("hosts", .texts p.viableHosts)])).map Line.write) := by
  have hget : Value.get p.toDict "viable_hosts" = .strings p.viableHosts := rfl
  rw [hostLines, listLine_eq hget, hget]
  cases p.viableHosts with
  | nil => rfl
  | cons host hosts => rfl

theorem diagLine_eq (h : Typed p) (hkey : key ∈ diagKeys) :
    listLine p.dpiDiag key key = some (Line.entry key (.texts (diagList p.dpiDiag key))).write := by
  rcases h.diag key hkey with hnone | ⟨items, hitems⟩
  · have hempty : diagList p.dpiDiag key = [] := by
      rw [diagList, hnone]
      rfl
    rw [listLine, hnone, hempty]
    rfl
  · have hlist : diagList p.dpiDiag key = items := by
      rw [diagList, hitems, asStrings_strings]
      rfl
    rw [listLine_eq hitems, hlist]

theorem dpiDiagLines_eq (h : Typed p) : dpiDiagLines p.toDict = some ((diagEntries p).map Line.write) := by
  have hget : (Value.get p.toDict "dpi_diag").asDict = some p.dpiDiag := asDict_dict p.dpiDiag
  rw [dpiDiagLines, hget, diagEntries]
  change (if p.dpiDiag = [] then _ else _) = _
  by_cases hdiag : p.dpiDiag = []
  · rw [if_pos hdiag, if_pos hdiag]
    rfl
  · rw [if_neg hdiag, if_neg hdiag, diagLine_eq h (by decide), diagLine_eq h (by decide), diagLine_eq h (by decide)]
    rfl

theorem clusterLine_eq {cluster : Fields} (h : Simple (Value.get cluster key))
    (hsome : isNone (Value.get cluster key) = false) :
    ∃ value, reportLeaf (Value.get cluster key) = some value ∧
      clusterLine cluster key = some (Line.entry key value).write := by
  rw [clusterLine]
  rcases h with h | ⟨b, h⟩ | ⟨s, h⟩
  · rw [h] at hsome
    exact absurd hsome (by decide)
  · rw [h]
    exact ⟨.bool b, rfl, rfl⟩
  · rw [h]
    exact ⟨.text s, rfl, congrArg some (assign_str key s)⟩

theorem clusterLines_eq {cluster : Fields} {keys : List String} (h : ∀ key ∈ keys, Simple (Value.get cluster key)) :
    (keys.filter (fun key => !isNone (Value.get cluster key))).mapM (clusterLine cluster) =
      some ((entries (keys.filterMap
        (fun key => (reportLeaf (Value.get cluster key)).map fun value => (key, value)))).map Line.write) := by
  induction keys with
  | nil => rfl
  | cons key keys ih =>
      have hrest := ih (fun k hk => h k (List.mem_cons_of_mem key hk))
      cases hnone : isNone (Value.get cluster key) with
      | true =>
          have hleaf : reportLeaf (Value.get cluster key) = none := by
            rcases h key List.mem_cons_self with hv | ⟨b, hv⟩ | ⟨s, hv⟩
            · rw [hv]
              rfl
            · rw [hv] at hnone
              exact absurd hnone Bool.false_ne_true
            · rw [hv] at hnone
              exact absurd hnone Bool.false_ne_true
          rw [List.filter_cons_of_neg (by simp [hnone]), hrest, List.filterMap_cons, hleaf]
          rfl
      | false =>
          obtain ⟨value, hleaf, hline⟩ := clusterLine_eq (h key List.mem_cons_self) hnone
          rw [List.filter_cons_of_pos (by simp [hnone]), List.mapM_cons, hline, hrest, List.filterMap_cons, hleaf]
          rfl

theorem oneClusterLines_eq (h : Typed p) (print : List Atom) :
    oneClusterLines (cluster p.domainReports print) =
      some (([Line.blank, Line.element "cluster"] ++ entries (clusterTable (cluster p.domainReports print))).map Line.write) := by
  have hkeys : ∀ key ∈ lineKeys, Simple (Value.get (cluster p.domainReports print) key) := by
    have hsub : lineKeys ⊆ clusterKeys := by decide
    exact fun key hkey => cluster_simple h print (hsub hkey)
  rw [oneClusterLines, clusterName_cluster, clusterLines_eq hkeys]
  change some ([[], "[[cluster]]".toList, assign "primary_domain" (tomlStr _)] ++ _) = _
  rw [assign_str]
  rfl

theorem clusters_flatten (tables : List Table) :
    (tables.map (fun table => ([Line.blank, Line.element "cluster"] ++ entries table).map Line.write)).flatten =
      (elementLines "cluster" tables).map Line.write := by
  rw [elementLines, List.map_flatMap, List.flatMap_def]

/-- Every cluster is one of a fingerprint. -/
theorem mem_clustersOf {c : Fields} (h : c ∈ clustersOf p) : ∃ print, c = cluster p.domainReports print := by
  rw [clustersOf, clusterDomainReports] at h
  cases hprints : p.domainReports.mapM (fun r => reportFingerprint r.2) with
  | none =>
      rw [hprints] at h
      exact absurd h List.not_mem_nil
  | some prints =>
      rw [hprints] at h
      obtain ⟨print, -, hc⟩ := List.mem_map.mp h
      exact ⟨print, hc.symm⟩

theorem clusterTomlLines_eq (h : Typed p) :
    clusterTomlLines (clustersOf p) = some ((elementLines "cluster" (clusterTables p)).map Line.write) := by
  rw [clusterTomlLines, clusterTables]
  by_cases hfew : (clustersOf p).length < 2
  · rw [if_pos hfew, if_pos hfew]
    rfl
  · have hone : ∀ c ∈ clustersOf p, oneClusterLines c =
        some (([Line.blank, Line.element "cluster"] ++ entries (clusterTable c)).map Line.write) := by
      intro c hc
      obtain ⟨print, rfl⟩ := mem_clustersOf hc
      exact oneClusterLines_eq h print
    rw [if_neg hfew, if_neg hfew, mapM_some hone, Option.map_some, ← clusters_flatten, List.map_map]
    rfl

theorem clusteredPrimaryDomain_eq (p : Profile) (primaryDomain : String) :
    clusteredPrimaryDomain (clustersOf p) primaryDomain = some (topOf p primaryDomain) := by
  rw [topOf]
  cases hclusters : clustersOf p with
  | nil => rfl
  | cons first clusters =>
      have hfirst : first ∈ clustersOf p := hclusters ▸ List.mem_cons_self
      obtain ⟨print, rfl⟩ := mem_clustersOf hfirst
      have hget : Value.get (cluster p.domainReports print) "primary_domain" =
          .str (", ".intercalate (namesFor p.domainReports print)) := if_pos rfl
      rw [clusteredPrimaryDomain, hget]
      rfl

/-- The file has a line for each of the tables' entries. -/
theorem dumpTriageToml_eq (h : Typed p) (now : Stamp) (primaryDomain : String) :
    dumpTriageToml now p primaryDomain = some (joinLines ((triageLines now p primaryDomain).map Line.write)) := by
  have hfoolings : Value.get p.toDict "viable_foolings" = .strings p.viableFoolings := rfl
  have hblobs : Value.get p.toDict "viable_blobs" = .strings p.viableBlobs := rfl
  have hdead : Value.get p.toDict "dead_foolings" = .strings p.deadFoolings := rfl
  have hsplit : (Value.get p.toDict "split_mode").asStrOr = some p.splitMode := asStrOr_str p.splitMode
  rw [dumpTriageToml, clusterDomainReports_typed h]
  dsimp only [Option.bind_eq_bind, Option.bind_some]
  rw [clusteredPrimaryDomain_eq p, clusterTomlLines_eq h, listLine_eq hfoolings, listLine_eq hblobs, hsplit,
    hostLines_eq, listLine_eq hdead, dpiDiagLines_eq h]
  dsimp only [Option.bind_some]
  rw [hopEntries_eq, flagLines_eq, assign_str, assign_str, assign_str, assign_list]
  congr 2
  simp only [triageLines, viableTable, write_append, List.map_append, List.append_assoc]
  rfl

end writing

end Blockchecks.TriageTomlLines
