import Blockchecks.TriageTomlText

namespace Blockchecks.TriageTomlTrip

open FailPhases TriageProfiles TriageRecord TextFile TriageToml TriageTrip TriageTomlLines TriageTomlText
open Toml (Line Leaf Table Document entries elementNodes names Plain)

section lookup

variable {a b : Fields} {key : String}

theorem get_absent (h : key ∉ names a) : Value.get a key = .none := by
  induction a with
  | nil => rfl
  | cons e a ih =>
      obtain ⟨hne, hrest⟩ := not_or.mp (fun hin => h (List.mem_cons.mpr hin))
      rw [Value.get, if_neg (fun heq => hne heq.symm), ih hrest]

theorem get_append_of_notMem (h : key ∉ names a) : Value.get (a ++ b) key = Value.get b key := by
  induction a with
  | nil => rfl
  | cons e a ih =>
      obtain ⟨hne, hrest⟩ := not_or.mp (fun hin => h (List.mem_cons.mpr hin))
      rw [List.cons_append, Value.get, if_neg (fun heq => hne heq.symm), ih hrest]

theorem get_append_of_absent (h : key ∉ names b) : Value.get (a ++ b) key = Value.get a key := by
  induction a with
  | nil => exact get_absent h
  | cons e a ih => rw [List.cons_append, Value.get, Value.get, ih]

theorem names_tableValue (table : Table) : names (tableValue table) = names table := by
  rw [names, tableValue, List.map_map]
  rfl

theorem notMem_tableValue {table : Table} {keys : List String} (h : (names table).Sublist keys) (hkey : key ∉ keys) :
    key ∉ names (tableValue table) := by
  rw [names_tableValue]
  exact fun hin => hkey (h.subset hin)

theorem asList_strings (items : List String) : asList (.strings items) = some (items.map .str) := by
  cases items with
  | nil => rfl
  | cons s items => rfl

end lookup

section flatten

variable {p : Profile}

/-- The diagnostics that the file stores: its three lists, if there are diagnostics at all. -/
def storedDiag (p : Profile) : Fields := if p.dpiDiag = [] then [] else tableValue (diagTable p.dpiDiag)

def storedLists (p : Profile) : Fields :=
  [("viable_foolings", .strings p.viableFoolings), ("viable_blobs", .strings p.viableBlobs),
    ("split_mode", .str p.splitMode), ("dead_foolings", .strings p.deadFoolings),
    ("viable_hosts", .strings p.viableHosts), ("dpi_diag", .dict (storedDiag p))]

/-- What the file gives to from_dict. -/
def storedData (p : Profile) : Fields := storedLists p ++ tableValue (hopTable p) ++ tableValue (flagTable p)

theorem hosts_stored (p : Profile) :
    asList (Value.get (tableValue (viableTable p)) "hosts") = some (p.viableHosts.map .str) := by
  rw [viableTable]
  cases p.viableHosts with
  | nil => rfl
  | cons host hosts => rfl

theorem diag_stored (now : Stamp) (p : Profile) (primaryDomain : String) :
    (Value.get (rawOf (documentOf now p primaryDomain)) "dpi_diag").asDict = some (storedDiag p) := by
  have hclusters : Value.get (rawOf (elementNodes "cluster" (clusterTables p))) "dpi_diag" = .none := by
    cases clusterTables p with
    | nil => rfl
    | cons table tables => rfl
  have hget : Value.get (rawOf (documentOf now p primaryDomain)) "dpi_diag" =
      Value.get (rawOf (diagNodes p) ++ rawOf (elementNodes "cluster" (clusterTables p))) "dpi_diag" := by
    rw [documentOf, List.append_assoc, rawOf, List.map_append, List.map_append]
    rfl
  rw [hget, diagNodes, storedDiag]
  split_ifs with h
  · exact congrArg Value.asDict hclusters
  · exact asDict_dict _

theorem flatten_documentOf (now : Stamp) (p : Profile) (primaryDomain : String) :
    flattenTriageToml (rawOf (documentOf now p primaryDomain)) = some (storedData p) := by
  have hflags : (Value.get (rawOf (documentOf now p primaryDomain)) "flags").asDict =
      some (tableValue (flagTable p)) := asDict_dict _
  have hhops : (Value.get (rawOf (documentOf now p primaryDomain)) "hops").asDict =
      some (tableValue (hopTable p)) := asDict_dict _
  have hviable : (Value.get (rawOf (documentOf now p primaryDomain)) "viable").asDict =
      some (tableValue (viableTable p)) := asDict_dict _
  have hdead : (Value.get (rawOf (documentOf now p primaryDomain)) "dead").asDict =
      some (tableValue (deadTable p)) := asDict_dict _
  have hfoolings : asList (Value.get (tableValue (viableTable p)) "foolings") = some (p.viableFoolings.map .str) :=
    asList_strings _
  have hblobs : asList (Value.get (tableValue (viableTable p)) "blobs") = some (p.viableBlobs.map .str) :=
    asList_strings _
  have hmode : (Value.get (tableValue (viableTable p)) "split_mode").asStrOr = some p.splitMode := asStrOr_str _
  have hdeadFoolings : asList (Value.get (tableValue (deadTable p)) "foolings") = some (p.deadFoolings.map .str) :=
    asList_strings _
  rw [flattenTriageToml, hflags, hhops, hviable, hdead, diag_stored]
  simp only [Option.bind_eq_bind, Option.bind_some]
  rw [hfoolings, hblobs, hmode, hdeadFoolings, hosts_stored]
  rfl

theorem hopKeys_absent {key : String} (h : key ∉ hopKeys) (p : Profile) :
    key ∉ names (tableValue (hopTable p)) := notMem_tableValue (hopTable_sublist p) h

theorem flagKeys_absent {key : String} (h : key ∉ flagKeys) (p : Profile) :
    key ∉ names (tableValue (flagTable p)) := notMem_tableValue (flagTable_sublist p) h

def listKeys : List String :=
  ["viable_foolings", "viable_blobs", "split_mode", "dead_foolings", "viable_hosts", "dpi_diag"]

/-- A list is looked up before the hops and the flags. -/
theorem get_list {key : String} (hhop : key ∉ hopKeys)
    (hflag : key ∉ flagKeys) (p : Profile) :
    Value.get (storedData p) key = Value.get (storedLists p) key := by
  rw [storedData, get_append_of_absent (flagKeys_absent hflag p), get_append_of_absent (hopKeys_absent hhop p)]

theorem get_hop {key : String} (hlist : key ∉ listKeys) (hflag : key ∉ flagKeys)
    (p : Profile) : Value.get (storedData p) key = Value.get (tableValue (hopTable p)) key := by
  rw [storedData, get_append_of_absent (flagKeys_absent hflag p), get_append_of_notMem (a := storedLists p) hlist]

theorem get_flag {key : String} (hlist : key ∉ listKeys) (hhop : key ∉ hopKeys)
    (p : Profile) : Value.get (storedData p) key = Value.get (tableValue (flagTable p)) key := by
  rw [storedData, List.append_assoc, get_append_of_notMem (a := storedLists p) hlist,
    get_append_of_notMem (hopKeys_absent hhop p)]

/-- A field that the file does not store is read as if it were not there. -/
theorem get_other {key : String} (hlist : key ∉ listKeys)
    (hhop : key ∉ hopKeys)
    (hflag : key ∉ flagKeys) (p : Profile) :
    Value.get (storedData p) key = .none :=
  (get_list hhop hflag p).trans (get_absent hlist)

theorem get_hopTable (p : Profile) :
    Value.get (tableValue (hopTable p)) "server_hops" = .ofOption .int p.serverHops ∧
      Value.get (tableValue (hopTable p)) "dpi_hops" = .ofOption .int p.dpiHops ∧
      Value.get (tableValue (hopTable p)) "autottl_delta" = .ofOption .int p.autottlDelta := by
  rw [hopTable]
  cases p.serverHops <;> cases p.dpiHops <;> cases p.autottlDelta <;> exact ⟨rfl, rfl, rfl⟩

theorem get_flagTable (p : Profile) :
    Value.get (tableValue (flagTable p)) "ech_blocked" = .ofOption .bool p.echBlocked ∧
      Value.get (tableValue (flagTable p)) "http_blocked" = .ofOption .bool p.httpBlocked := by
  rw [flagTable]
  cases p.echBlocked <;> cases p.httpBlocked <;> exact ⟨rfl, rfl⟩

/-- The profile that comes back: what the file stores, and nothing else. -/
def stored (p : Profile) : Profile where
  dnsHijacked := p.dnsHijacked
  dnsSinkhole := p.dnsSinkhole
  rstAtSni := p.rstAtSni
  silentDropAfterSni := p.silentDropAfterSni
  udpBlocked := p.udpBlocked
  voiceOk := p.voiceOk
  viableFoolings := p.viableFoolings
  viableBlobs := p.viableBlobs
  splitMode := p.splitMode
  serverHops := p.serverHops
  dpiHops := p.dpiHops
  autottlDelta := p.autottlDelta
  echBlocked := p.echBlocked
  httpBlocked := p.httpBlocked
  deadFoolings := p.deadFoolings
  viableHosts := p.viableHosts
  dpiDiag := storedDiag p

/-- The fields that the file does not store. -/
def otherKeys : List String :=
  ["client_hello_len", "stall_at_bytes", "read_rate_bps", "fingerprint_pass", "domain_phases", "domain_reports",
    "unbypassable_l3", "l3_phase", "handshake_phase", "stall_phase", "bandwidth_throttled", "quic_drop",
    "is_tls_fingerprint_blocked", "requires_postquantum_awareness"]

theorem fromDict_storedData (members : List FailPhase) (p : Profile) :
    fromDict members (storedData p) = some (stored p) := by
  have hne : storedData p ≠ [] := List.cons_ne_nil _ _
  have hkeys : ∀ key ∈ otherKeys, key ∉ listKeys ∧ key ∉ hopKeys ∧ key ∉ flagKeys := by decide
  have hother : ∀ key ∈ otherKeys, Value.get (storedData p) key = .none :=
    fun key hkey => get_other (hkeys key hkey).1 (hkeys key hkey).2.1 (hkeys key hkey).2.2 p
  have hlist : ∀ key ∈ listKeys, Value.get (storedData p) key = Value.get (storedLists p) key := by
    have habsent : ∀ key ∈ listKeys, key ∉ hopKeys ∧ key ∉ flagKeys := by decide
    exact fun key hkey => get_list (habsent key hkey).1 (habsent key hkey).2 p
  have hhop : ∀ key ∈ hopKeys, Value.get (storedData p) key = Value.get (tableValue (hopTable p)) key := by
    have habsent : ∀ key ∈ hopKeys, key ∉ listKeys ∧ key ∉ flagKeys := by decide
    exact fun key hkey => get_hop (habsent key hkey).1 (habsent key hkey).2 p
  have hflag : ∀ key ∈ flagKeys, Value.get (storedData p) key = Value.get (tableValue (flagTable p)) key := by
    have habsent : ∀ key ∈ flagKeys, key ∉ listKeys ∧ key ∉ hopKeys := by decide
    exact fun key hkey => get_flag (habsent key hkey).1 (habsent key hkey).2 p
  obtain ⟨hserver, hdpi, hdelta⟩ := get_hopTable p
  obtain ⟨hech, hhttp⟩ := get_flagTable p
  have hfoolings : (Value.get (storedData p) "viable_foolings").asStrings = some p.viableFoolings := by
    rw [hlist _ (by decide)]
    exact asStrings_strings _
  have hblobs : (Value.get (storedData p) "viable_blobs").asStrings = some p.viableBlobs := by
    rw [hlist _ (by decide)]
    exact asStrings_strings _
  have hmode : (Value.get (storedData p) "split_mode").asStrOr = some p.splitMode := by
    rw [hlist _ (by decide)]
    exact asStrOr_str _
  have hdead : (Value.get (storedData p) "dead_foolings").asStrings = some p.deadFoolings := by
    rw [hlist _ (by decide)]
    exact asStrings_strings _
  have hhosts : (Value.get (storedData p) "viable_hosts").asStrings = some p.viableHosts := by
    rw [hlist _ (by decide)]
    exact asStrings_strings _
  have hdiag : (Value.get (storedData p) "dpi_diag").asDict = some (storedDiag p) := by
    rw [hlist _ (by decide)]
    exact asDict_dict _
  rw [fromDict, if_neg hne, hother "client_hello_len" (by decide), hother "stall_at_bytes" (by decide),
    hother "read_rate_bps" (by decide), hother "fingerprint_pass" (by decide), hother "domain_phases" (by decide),
    hother "domain_reports" (by decide), hother "unbypassable_l3" (by decide), hother "l3_phase" (by decide),
    hother "handshake_phase" (by decide), hother "stall_phase" (by decide), hother "bandwidth_throttled" (by decide),
    hother "quic_drop" (by decide), hother "is_tls_fingerprint_blocked" (by decide),
    hother "requires_postquantum_awareness" (by decide), hfoolings, hblobs, hmode, hdead, hhosts, hdiag,
    hhop "server_hops" (by decide), hhop "dpi_hops" (by decide), hhop "autottl_delta" (by decide), hserver, hdpi,
    hdelta, hflag "ech_blocked" (by decide), hflag "http_blocked" (by decide), hech, hhttp, asOptInt_ofOption,
    asOptInt_ofOption, asOptInt_ofOption, asOptBool_ofOption, asOptBool_ofOption,
    hflag "dns_hijacked" (by decide), hflag "dns_sinkhole" (by decide), hflag "rst_at_sni" (by decide),
    hflag "silent_drop_after_sni" (by decide), hflag "udp_blocked" (by decide), hflag "voice_ok" (by decide)]
  rfl

end flatten

section trip

variable {p q : Profile} {primaryDomain : String}

/-- Two profiles are the same in every field that the file stores. Of the diagnostics it stores
whether there are any, and their three lists. -/
structure Agrees (p q : Profile) : Prop where
  flags : (q.silentDropAfterSni, q.rstAtSni, q.voiceOk, q.udpBlocked, q.dnsHijacked, q.dnsSinkhole) =
    (p.silentDropAfterSni, p.rstAtSni, p.voiceOk, p.udpBlocked, p.dnsHijacked, p.dnsSinkhole)
  optionalFlags : (q.echBlocked, q.httpBlocked) = (p.echBlocked, p.httpBlocked)
  hops : (q.serverHops, q.dpiHops, q.autottlDelta) = (p.serverHops, p.dpiHops, p.autottlDelta)
  viable : (q.viableFoolings, q.viableBlobs, q.viableHosts) = (p.viableFoolings, p.viableBlobs, p.viableHosts)
  splitMode : q.splitMode = p.splitMode
  dead : q.deadFoolings = p.deadFoolings
  diag : q.dpiDiag = [] ↔ p.dpiDiag = []
  diagLists : ∀ key ∈ diagKeys, (Value.get q.dpiDiag key).asStrings = (Value.get p.dpiDiag key).asStrings

theorem asStrings_typed (h : Typed p) {key : String} (hkey : key ∈ diagKeys) :
    (Value.get p.dpiDiag key).asStrings = some (diagList p.dpiDiag key) := by
  rw [diagList]
  rcases h.diag key hkey with hnone | ⟨items, hitems⟩
  · rw [hnone]
    rfl
  · rw [hitems, asStrings_strings]
    rfl

theorem asStrings_diagTable (diag : Fields) {key : String} (hkey : key ∈ diagKeys) :
    (Value.get (tableValue (diagTable diag)) key).asStrings = some (diagList diag key) := by
  have hget : Value.get (tableValue (diagTable diag)) key = .strings (diagList diag key) := by
    simp only [diagKeys, List.mem_cons, List.not_mem_nil, or_false] at hkey
    rcases hkey with rfl | rfl | rfl <;> rfl
  rw [hget, asStrings_strings]

theorem agrees_stored (h : Typed p) : Agrees p (stored p) where
  flags := rfl
  optionalFlags := rfl
  hops := rfl
  viable := rfl
  splitMode := rfl
  dead := rfl
  diag := by
    change storedDiag p = [] ↔ p.dpiDiag = []
    rw [storedDiag]
    split_ifs with hdiag
    · exact iff_of_true rfl hdiag
    · exact iff_of_false (List.cons_ne_nil _ _) hdiag
  diagLists := by
    intro key hkey
    change (Value.get (storedDiag p) key).asStrings = _
    rw [storedDiag]
    split_ifs with hdiag
    · rw [hdiag]
    · rw [asStrings_diagTable p.dpiDiag hkey, asStrings_typed h hkey]

/-- The file of plain texts is read back. -/
theorem load_plain (members : List FailPhase) (now : Stamp) (h : ∀ s ∈ givenTexts p primaryDomain, Plain s) :
    loadTriageToml members (some (joinLines ((triageLines now p primaryDomain).map Line.write))) =
      some (stored p) := by
  have hlines : ∀ line ∈ triageLines now p primaryDomain, line.Writable := fun line hline =>
    ⟨named_triageLines now p primaryDomain line hline, (plain_triageLines_iff now p primaryDomain).mpr h line hline⟩
  have hreturn : '\r' ∉ joinLines ((triageLines now p primaryDomain).map Line.write) := by
    intro hin
    rcases mem_intercalate hin with heq | ⟨part, hpart, hc⟩
    · exact absurd heq (by decide)
    · obtain ⟨line, hline, rfl⟩ := List.mem_map.mp hpart
      exact absurd (Toml.line_plain (hlines line hline).1 (hlines line hline).2 '\r' hc) (by decide)
  have hloads : Toml.loads (joinLines ((triageLines now p primaryDomain).map Line.write)) =
      some (documentOf now p primaryDomain) :=
    (Toml.loads_lines hlines (List.cons_ne_nil _ _)).trans (assemble_triageLines now p primaryDomain)
  rw [loadTriageToml, Option.bind_eq_bind, Option.bind_some, universalNewlines_eq_self hreturn, hloads]
  simp only [Option.bind_eq_bind, Option.bind_some]
  rw [flatten_documentOf, Option.bind_some, fromDict_storedData]

/-- The file of other texts is no TOML. -/
theorem load_control (members : List FailPhase) (now : Stamp) (h : ¬ ∀ s ∈ givenTexts p primaryDomain, Plain s) :
    loadTriageToml members (some (joinLines ((triageLines now p primaryDomain).map Line.write))) = none := by
  have hcontrol : ∀ c, isNewline c = true → Toml.control c = true := by
    intro c hc
    rcases Bool.or_eq_true_iff.mp hc with hc | hc
    · rw [beq_iff_eq.mp hc]
      rfl
    · rw [beq_iff_eq.mp hc]
      rfl
  rw [← plain_triageLines_iff now p primaryDomain] at h
  push Not at h
  obtain ⟨line, hline, s, hs, hbad⟩ := h
  obtain ⟨piece, hpiece, hne, hpieceBad⟩ := Toml.exists_bad_piece hcontrol rfl hline
    (named_triageLines now p primaryDomain line hline) (fun hall => hbad (hall s hs))
  obtain ⟨part, parts, parts', hsplit, hsplit', hblank⟩ :=
    splitOn_universalNewlines (joinLines ((triageLines now p primaryDomain).map Line.write))
  have hmem : piece ∈ part :: parts := by
    have hcut : piece ∈ part :: parts' := hsplit' ▸ hpiece
    rcases List.mem_cons.mp hcut with rfl | hcut
    · exact List.mem_cons_self
    · have hkept : piece ∈ parts'.filter (· ≠ []) := List.mem_filter.mpr ⟨hcut, decide_eq_true hne⟩
      rw [← hblank] at hkept
      exact List.mem_cons_of_mem part (List.mem_filter.mp hkept).1
  have hloads : Toml.loads (universalNewlines (joinLines ((triageLines now p primaryDomain).map Line.write))) = none := by
    rw [Toml.loads, hsplit, Toml.mapM_eq_none hmem hpieceBad]
    rfl
  rw [loadTriageToml, Option.bind_eq_bind, Option.bind_some, hloads]
  rfl

/-- A profile that is written to triage.toml comes back in all that the file stores if and only
if none of the texts it gives to the file has a control character other than a tab. -/
theorem triage_toml_trip_iff (members : List FailPhase) (now : Stamp) (p : Profile) (primaryDomain : String)
    (hp : Typed p) :
    (∃ text q, dumpTriageToml now p primaryDomain = some text ∧ loadTriageToml members (some text) = some q ∧
      Agrees p q) ↔ ∀ s ∈ givenTexts p primaryDomain, Plain s := by
  constructor
  · rintro ⟨text, q, hdump, hload, -⟩
    rw [dumpTriageToml_eq hp] at hdump
    obtain rfl := Option.some.inj hdump
    by_contra hbad
    rw [load_control members now hbad] at hload
    exact absurd hload.symm (Option.some_ne_none q)
  · intro h
    exact ⟨_, stored p, dumpTriageToml_eq hp now primaryDomain, load_plain members now h, agrees_stored hp⟩

def midnight : Stamp where
  text := "2026-01-01T00:00:00"
  clock := fun c hc => of_decide_eq_true (List.all_eq_true.mp (by decide :
    "2026-01-01T00:00:00".toList.all (fun c => decide (c.isDigit = true ∨ c ∈ ['-', ':', 'T'])) = true) c hc)

/-- A profile in which the probes found something of each kind. -/
def probed : Profile where
  silentDropAfterSni := true
  echBlocked := some false
  viableFoolings := ["tcp_ts=-1000"]
  splitMode := "a \"quoted\" \\ mode"
  serverHops := some 12
  domainReports := [("a.com", [("phase", .str "pass"), ("prolog_ok", .bool true)]), ("b.com", [("phase", .str "other")])]
  dpiDiag := [("sni_whitelist", .strings ["c.com"]), ("siberian", .bool true)]

theorem simple_get {row : Fields} (h : ∀ e ∈ row, Simple e.2) (key : String) : Simple (Value.get row key) := by
  induction row with
  | nil => exact Or.inl rfl
  | cons e row ih =>
      rw [Value.get]
      split_ifs
      · exact h e List.mem_cons_self
      · exact ih fun e he => h e (List.mem_cons_of_mem _ he)

theorem typed_probed : Typed probed where
  reports := by
    intro r hr key _
    apply simple_get
    rcases List.mem_cons.mp hr with rfl | hr
    · exact List.forall_mem_cons.mpr ⟨Or.inr (Or.inr ⟨_, rfl⟩), List.forall_mem_singleton.mpr (Or.inr (Or.inl ⟨_, rfl⟩))⟩
    · obtain rfl := List.mem_singleton.mp hr
      exact List.forall_mem_singleton.mpr (Or.inr (Or.inr ⟨_, rfl⟩))
  diag := by
    have hthree : ∀ key ∈ diagKeys, key = "sni_whitelist" ∨ Value.get probed.dpiDiag key = .none := by
      intro key hkey
      simp only [diagKeys, List.mem_cons, List.not_mem_nil, or_false] at hkey
      rcases hkey with rfl | rfl | rfl
      · exact Or.inl rfl
      · exact Or.inr rfl
      · exact Or.inr rfl
    intro key hkey
    rcases hthree key hkey with rfl | hnone
    · exact Or.inr ⟨["c.com"], rfl⟩
    · exact Or.inl hnone

theorem triage_toml_trip_iff_probed :
    (∃ text q, dumpTriageToml midnight probed "a.com" = some text ∧
      loadTriageToml classMembers (some text) = some q ∧ Agrees probed q) ↔
        ∀ s ∈ givenTexts probed "a.com", Plain s :=
  triage_toml_trip_iff classMembers midnight probed "a.com" typed_probed

/-- A split mode with a line break in it. -/
def broken : Profile := { splitMode := "a\nb" }

theorem typed_broken : Typed broken where
  reports := fun _ hr => absurd hr List.not_mem_nil
  diag := fun _ _ => Or.inl rfl

/-- Its file is not read at all. -/
theorem line_break_unreadable :
    ¬ ∀ (members : List FailPhase) (now : Stamp) (p : Profile) (primaryDomain : String), Typed p →
      ∃ text q, dumpTriageToml now p primaryDomain = some text ∧ loadTriageToml members (some text) = some q ∧
        Agrees p q := by
  intro h
  obtain ⟨text, q, hdump, hload, -⟩ := h classMembers midnight broken "x.com" typed_broken
  have hbad : ¬ ∀ s ∈ givenTexts broken "x.com", Plain s :=
    fun hplain => absurd (hplain "a\nb" (by decide)) (by decide)
  rw [dumpTriageToml_eq typed_broken] at hdump
  obtain rfl := Option.some.inj hdump
  rw [load_control classMembers midnight hbad] at hload
  exact absurd hload.symm (Option.some_ne_none q)

end trip

end Blockchecks.TriageTomlTrip
