import Blockchecks.ConfRun
import Blockchecks.ExportConf

namespace Blockchecks.ConfEscape

open StrategyText LuaConf NfqwsConfig ConfRun ExportConf

/-- How nfqws2 reads a line of a conf file. -/
def readArg (line : List Char) : Option (List Char) := Escaping.read '\\' '<' line

/-- A line with the argument that it is meant to be. A text that was read from
a conf file means what nfqws2 reads in it. -/
structure Emission where
  line : String
  argument : Option (List Char)

def verbatim (line : String) : Emission := ⟨line, some line.toList⟩

def sanitized (argument : List Char) : Emission :=
  ⟨String.ofList (sanitizeArgForConf argument), some argument⟩

def desyncArgument (core : List Char) : List Char := "--lua-desync=".toList ++ core

def argument : Item → List Char
  | .cli arg => arg
  | .core text => desyncArgument text

def numbered (n : Nat) : Item → List Char
  | .cli arg => arg
  | .core text =>
      desyncArgument (if contains text ":strategy=" then text else text ++ tag n)

def cliArguments (strategy : String) : List (List Char) :=
  (split strategy.toList "\n").flatMap (fun rawLine =>
    let rawLine := strip rawLine
    if rawLine = [] then [] else splitCliArgs rawLine)

def exportArgument (n : Nat) (part : ExportPart) : List Char :=
  if startsWith part.text "--" then part.text else desyncArgument (ensureStrategyN part.text n)

def exported (n : Nat) (part : ExportPart) : Emission :=
  ⟨String.ofList (sanitizeArgForConf (exportArgument n part)),
    if part.fromFile then readArg (exportArgument n part) else some (exportArgument n part)⟩

/-- A conf that one of the builders makes. -/
inductive Producer where
  | inline (strategy protocol extraLuaDesync : String)
  | quic (strategy : String)
  | bridge (strategies : List String) (ipcDir : String) (staged : List String) (protocol : String)
  | udp (strategy : String) (port : Nat)
  | exports (strategies : List String)

/-- What the builders find on the host. -/
structure Host where
  env : Env
  discordBlob : Option String
  confText : List Char → Option (List Char)

variable (host : Host)

def lines : Producer → List String
  | .inline strategy protocol extra => buildInlineNfqwsLines host.env strategy protocol extra
  | .quic strategy => buildQuicNfqwsLines host.env strategy
  | .bridge strategies ipcDir staged protocol =>
      buildBridgeConf host.env strategies ipcDir staged protocol
  | .udp strategy port => materializeUdpConf host.env host.discordBlob strategy port
  | .exports strategies => desyncCliLines host.confText strategies

/-- The lines before those of the strategies, and the texts of the strategies
with their blobs renamed. -/
def inlineParts (strategy protocol : String) : List String × String :=
  addBlobsFromStrategy host.env
    (buildFilterLines host.env protocol ++ luaInitLines host.env.luaInitScripts) strategy

def quicParts (strategy : String) : List String × String :=
  addBlobsFromStrategy host.env
    ((if startsWith (strip strategy.toList) "--" then
        ["--qnum=" ++ toString host.env.nfqueueUdp, "--filter-l3=ipv4", "--ipcache-lifetime=0",
          "--bind-fix4"]
      else buildFilterLines host.env "quic") ++ luaInitLines host.env.luaInitScripts) strategy

def bridgeParts (strategies : List String) (ipcDir : String) (staged : List String)
    (protocol : String) : List String × Renames :=
  bridgeRenames host.env (bridgeHeader host.env ipcDir staged protocol) strategies

def udpParts (strategy : String) (port : Nat) : List String × String :=
  if startsWith (strip strategy.toList) "--" then (udpBaseLines host.env, strategy)
  else udpBlobs host.env host.discordBlob strategy port

def emissions : Producer → List Emission
  | .inline strategy protocol extra =>
      let (header, text) := inlineParts host strategy protocol
      header.map verbatim ++ (strategyItems text).map (fun item => sanitized (argument item)) ++
        if extra = "" then [] else [sanitized (desyncArgument extra.toList)]
  | .quic strategy =>
      let (header, text) := quicParts host strategy
      header.map verbatim ++
        if startsWith (strip strategy.toList) "--" then (cliArguments text).map sanitized
        else (strategyItems text).map (fun item => sanitized (argument item))
  | .bridge strategies ipcDir staged protocol =>
      let (header, renames) := bridgeParts host strategies ipcDir staged protocol
      header.map verbatim ++ (strategies.zipIdx 1).flatMap (fun p =>
        (strategyItems (applyBlobRenames p.1 renames)).map (fun item => sanitized (numbered p.2 item)))
  | .udp strategy port =>
      (materializeUdpConf host.env host.discordBlob strategy port).map verbatim
  | .exports strategies => (strategies.zipIdx 1).flatMap (fun p =>
      (strategyPartsForExport host.confText p.1).map (exported p.2))

/-- Every line is read as the argument that it is meant to be. -/
def Exact (p : Producer) : Prop :=
  List.Forall₂ (fun line meant => meant.isSome = true ∧ readArg line.toList = meant)
    (lines host p) ((emissions host p).map Emission.argument)

def Unescaped (text : List Char) : Prop := '\\' ∉ text

def Plain (text : List Char) : Prop := '\\' ∉ text ∧ '<' ∉ text

/-- A text of a conf file survives a second escape. -/
def Survives (text : List Char) : Prop := (readArg text).isSome = true ∧ '<' ∉ text

def CleanPart (n : Nat) (part : ExportPart) : Prop :=
  if part.fromFile then Survives (exportArgument n part) else Unescaped (exportArgument n part)

def Clean : Producer → Prop
  | .inline strategy protocol extra =>
      let (header, text) := inlineParts host strategy protocol
      (∀ line ∈ header, Plain line.toList) ∧
        (∀ item ∈ strategyItems text, Unescaped (argument item)) ∧ Unescaped extra.toList
  | .quic strategy =>
      let (header, text) := quicParts host strategy
      (∀ line ∈ header, Plain line.toList) ∧
        if startsWith (strip strategy.toList) "--" then ∀ arg ∈ cliArguments text, Unescaped arg
        else ∀ item ∈ strategyItems text, Unescaped (argument item)
  | .bridge strategies ipcDir staged protocol =>
      let (header, renames) := bridgeParts host strategies ipcDir staged protocol
      (∀ line ∈ header, Plain line.toList) ∧ ∀ s ∈ strategies,
        ∀ item ∈ strategyItems (applyBlobRenames s renames), Unescaped (argument item)
  | .udp strategy port =>
      let (header, text) := udpParts host strategy port
      (∀ line ∈ header, Plain line.toList) ∧
        ∀ token ∈ strategyCliTokens text, Plain token.toList
  | .exports strategies => ∀ i s, strategies[i]? = some s →
      ∀ part ∈ strategyPartsForExport host.confText s, CleanPart (i + 1) part

def Emission.Exact (e : Emission) : Prop :=
  e.argument.isSome = true ∧ readArg e.line.toList = e.argument

theorem verbatim_exact_iff (line : String) : (verbatim line).Exact ↔ Plain line.toList :=
  (and_iff_right rfl).trans (Escaping.read_self_iff (by decide) line.toList)

theorem sanitized_exact_iff (arg : List Char) : (sanitized arg).Exact ↔ Unescaped arg := by
  refine (and_iff_right rfl).trans ?_
  rw [sanitized, String.toList_ofList]
  exact Escaping.read_escape_iff (by decide) arg

theorem exported_exact_iff (n : Nat) (part : ExportPart) :
    (exported n part).Exact ↔ CleanPart n part := by
  rw [CleanPart]
  cases hfile : part.fromFile with
  | false =>
      have heq : exported n part = sanitized (exportArgument n part) := by
        rw [exported, sanitized, hfile]
        rfl
      rw [heq]
      exact sanitized_exact_iff _
  | true =>
      rw [Emission.Exact, exported, hfile, String.toList_ofList]
      simp only [if_true]
      refine and_congr_right (fun hsome => ?_)
      obtain ⟨text, htext⟩ := Option.isSome_iff_exists.mp hsome
      rw [htext]
      exact Escaping.read_escape_again_iff (by decide) htext

/-- The prefix of a desync has nothing to escape. -/
theorem sanitize_desync (core : List Char) :
    sanitizeArgForConf (desyncArgument core) = "--lua-desync=".toList ++ sanitizeArgForConf core := by
  have hprefix : Escaping.escape '\\' '<' "--lua-desync=".toList = "--lua-desync=".toList :=
    Escaping.escape_eq_self (by simp)
  exact (Escaping.escape_append _ _).trans (congrArg (· ++ _) hprefix)

theorem unescaped_desync (core : List Char) : Unescaped (desyncArgument core) ↔ Unescaped core := by
  have hprefix : '\\' ∉ "--lua-desync=".toList := by simp
  exact (not_congr List.mem_append).trans (not_or.trans (and_iff_right hprefix))

theorem unescaped_numbered (n : Nat) (item : Item) :
    Unescaped (numbered n item) ↔ Unescaped (argument item) := by
  cases item with
  | cli arg => exact Iff.rfl
  | core text =>
      rw [numbered, argument, unescaped_desync, unescaped_desync]
      split
      · exact Iff.rfl
      · rw [Unescaped, Unescaped, List.mem_append, not_or]
        refine and_iff_left (fun htag => ?_)
        exact absurd (mem_tag htag) (by decide)

theorem line_argument (item : Item) : (sanitized (argument item)).line = item.alone := by
  cases item with
  | cli arg => rfl
  | core text => exact congrArg String.ofList (sanitize_desync text)

theorem line_numbered (n : Nat) (item : Item) :
    (sanitized (numbered n item)).line = item.inBatch n := by
  cases item with
  | cli arg => rfl
  | core text => exact congrArg String.ofList (sanitize_desync _)

theorem map_line_verbatim (header : List String) :
    (header.map verbatim).map Emission.line = header := by
  rw [List.map_map]
  exact List.map_id header

theorem map_line_items (text : String) :
    ((strategyItems text).map (fun item => sanitized (argument item))).map Emission.line =
      inlineLines text := by
  rw [inlineLines_eq, List.map_map]
  exact List.map_congr_left (fun item _ => line_argument item)

theorem map_line_numbered (text : String) (n : Nat) :
    ((strategyItems text).map (fun item => sanitized (numbered n item))).map Emission.line =
      appendStrategyDesyncs text n := by
  rw [appendStrategyDesyncs_eq, List.map_map]
  exact List.map_congr_left (fun item _ => line_numbered n item)

theorem map_line_cli (text : String) :
    ((cliArguments text).map sanitized).map Emission.line = cliLines text := by
  rw [cliArguments, cliLines, List.map_flatMap, List.map_flatMap]
  congr 1
  funext rawLine
  dsimp only
  split
  · rfl
  · rw [List.map_map]
    rfl

theorem line_exported (n : Nat) (part : ExportPart) : (exported n part).line = exportLine n part := by
  rw [exported, exportArgument, exportLine]
  split
  · rfl
  · rw [sanitize_desync]

/-- The emissions are what the builder writes. -/
theorem map_line_emissions (p : Producer) : (emissions host p).map Emission.line = lines host p := by
  cases p with
  | inline strategy protocol extra =>
      rw [emissions, lines, buildInlineNfqwsLines, inlineParts]
      dsimp only
      rw [List.map_append, List.map_append, map_line_verbatim, map_line_items]
      congr 1
      split
      · rfl
      · rw [List.map_singleton, sanitized, sanitize_desync]
  | quic strategy =>
      rw [emissions, lines, buildQuicNfqwsLines, quicParts]
      dsimp only
      rw [List.map_append, map_line_verbatim]
      split
      · rw [map_line_cli]
      · rw [map_line_items]
  | bridge strategies ipcDir staged protocol =>
      rw [emissions, lines, buildBridgeConf, bridgeParts]
      dsimp only
      rw [List.map_append, map_line_verbatim, List.map_flatMap, strategyBlocks, ← List.flatMap_def]
      congr 2
      funext q
      exact map_line_numbered _ _
  | udp strategy port =>
      rw [emissions, lines]
      exact map_line_verbatim _
  | exports strategies =>
      rw [emissions, lines, desyncCliLines, List.map_flatMap]
      congr 1
      funext q
      rw [List.map_map]
      exact List.map_congr_left (fun part _ => line_exported q.2 part)

theorem exact_iff_emissions (p : Producer) : Exact host p ↔ ∀ e ∈ emissions host p, e.Exact := by
  rw [Exact, ← map_line_emissions, List.forall₂_map_left_iff, List.forall₂_map_right_iff,
    List.forall₂_same]
  rfl

theorem forall_verbatim (header : List String) :
    (∀ e ∈ header.map verbatim, e.Exact) ↔ ∀ line ∈ header, Plain line.toList := by
  rw [List.forall_mem_map]
  exact forall₂_congr (fun line _ => verbatim_exact_iff line)

theorem forall_items (text : String) :
    (∀ e ∈ (strategyItems text).map (fun item => sanitized (argument item)), e.Exact) ↔
      ∀ item ∈ strategyItems text, Unescaped (argument item) := by
  rw [List.forall_mem_map]
  exact forall₂_congr (fun item _ => sanitized_exact_iff (argument item))

theorem forall_numbered (text : String) (n : Nat) :
    (∀ e ∈ (strategyItems text).map (fun item => sanitized (numbered n item)), e.Exact) ↔
      ∀ item ∈ strategyItems text, Unescaped (argument item) := by
  rw [List.forall_mem_map]
  exact forall₂_congr (fun item _ =>
    (sanitized_exact_iff (numbered n item)).trans (unescaped_numbered n item))

theorem forall_exported (n : Nat) (parts : List ExportPart) :
    (∀ e ∈ parts.map (exported n), e.Exact) ↔ ∀ part ∈ parts, CleanPart n part := by
  rw [List.forall_mem_map]
  exact forall₂_congr (fun part _ => exported_exact_iff n part)

theorem forall_zipIdx {α : Type} {P : α → Nat → Prop} (xs : List α) (k : Nat) :
    (∀ p ∈ xs.zipIdx k, P p.1 p.2) ↔ ∀ i x, xs[i]? = some x → P x (k + i) := by
  induction xs generalizing k with
  | nil => simp
  | cons x xs ih =>
      rw [List.zipIdx_cons, List.forall_mem_cons, ih]
      constructor
      · rintro ⟨hhead, htail⟩ i y hy
        cases i with
        | zero =>
            obtain rfl : x = y := Option.some.inj hy
            exact hhead
        | succ i =>
            have hnext := htail i y hy
            rwa [Nat.add_right_comm] at hnext
      · intro h
        refine ⟨h 0 x rfl, fun i y hy => ?_⟩
        have hnext := h (i + 1) y hy
        rwa [← Nat.add_assoc, Nat.add_right_comm] at hnext

theorem forall_mem_zipIdx_fst {α : Type} {P : α → Prop} (xs : List α) (k : Nat) :
    (∀ p ∈ xs.zipIdx k, P p.1) ↔ ∀ x ∈ xs, P x := by
  rw [@forall_zipIdx _ (fun x _ => P x)]
  constructor
  · intro h x hx
    obtain ⟨i, hi⟩ := List.mem_iff_getElem?.mp hx
    exact h i x hi
  · exact fun h i x hi => h x (List.mem_of_getElem? hi)

theorem plain_filterUdp (port : Nat) :
    Plain ("--filter-udp=" ++ voiceUdpFilterForPort port).toList := by
  have hall : ∀ c ∈ ("--filter-udp=" ++ voiceUdpFilterForPort port).toList,
      c ∈ "--filter-udp=50000-50100,".toList ∨ c.isDigit = true := by
    intro c hc
    rw [String.toList_append, List.mem_append] at hc
    rcases hc with hc | hc
    · exact Or.inl ((by decide +kernel : "--filter-udp=".toList ⊆ "--filter-udp=50000-50100,".toList) hc)
    · rw [voiceUdpFilterForPort] at hc
      split at hc
      · exact Or.inl ((by decide +kernel : voiceUdpFilter.toList ⊆ "--filter-udp=50000-50100,".toList) hc)
      · rw [String.toList_append, String.toList_append, List.mem_append] at hc
        rcases hc with hc | hc
        · exact Or.inl ((by decide +kernel :
            voiceUdpFilter.toList ++ ",".toList ⊆ "--filter-udp=50000-50100,".toList) hc)
        · rw [Nat.toString_eq_repr, Nat.toList_repr] at hc
          exact Or.inr (Nat.isDigit_of_mem_toDigits (by decide) (by decide) hc)
  exact ⟨fun h => absurd (hall _ h) (by simp), fun h => absurd (hall _ h) (by simp)⟩

theorem forall_ensure {P : String → Prop} {lines : List String} {port : Nat}
    (hfilter : P ("--filter-udp=" ++ voiceUdpFilterForPort port)) :
    (∀ line ∈ ensureUdpFilterLines lines port, P line) ↔ ∀ line ∈ lines, P line := by
  rw [ensureUdpFilterLines]
  dsimp only
  split
  · exact Iff.rfl
  · rw [List.forall_mem_append, List.forall_mem_append, List.forall_mem_singleton,
      and_iff_left hfilter, ← List.forall_mem_append, List.take_append_drop]

theorem materialize_eq (strategy : String) (port : Nat) :
    materializeUdpConf host.env host.discordBlob strategy port =
      ensureUdpFilterLines ((udpParts host strategy port).1 ++
        strategyCliTokens (udpParts host strategy port).2) port := by
  rw [materializeUdpConf, udpParts]
  split
  · rfl
  · rfl

/-- Every line of a conf is read as the argument that it is meant to be exactly
when no text has a character that its builder does not escape. -/
theorem exact_iff (p : Producer) : Exact host p ↔ Clean host p := by
  rw [exact_iff_emissions]
  cases p with
  | inline strategy protocol extra =>
      rw [emissions, Clean]
      dsimp only
      rw [List.forall_mem_append, List.forall_mem_append, forall_verbatim, forall_items, and_assoc]
      refine and_congr_right (fun _ => and_congr_right (fun _ => ?_))
      split
      next hempty =>
        rw [hempty]
        simp [Unescaped]
      next =>
        rw [List.forall_mem_singleton, sanitized_exact_iff, unescaped_desync]
  | quic strategy =>
      rw [emissions, Clean]
      dsimp only
      rw [List.forall_mem_append, forall_verbatim]
      refine and_congr_right (fun _ => ?_)
      split
      · rw [List.forall_mem_map]
        exact forall₂_congr (fun arg _ => sanitized_exact_iff arg)
      · exact forall_items _
  | bridge strategies ipcDir staged protocol =>
      rw [emissions, Clean]
      dsimp only
      rw [List.forall_mem_append, forall_verbatim, List.forall_mem_flatMap]
      generalize (bridgeParts host strategies ipcDir staged protocol).2 = renames
      have hnumbered := forall₂_congr (fun (q : String × Nat) (_ : q ∈ strategies.zipIdx 1) =>
        forall_numbered (applyBlobRenames q.1 renames) q.2)
      exact and_congr_right (fun _ => hnumbered.trans (@forall_mem_zipIdx_fst _ (fun s =>
        ∀ item ∈ strategyItems (applyBlobRenames s renames), Unescaped (argument item)) strategies 1))
  | udp strategy port =>
      rw [emissions, Clean, forall_verbatim, materialize_eq, forall_ensure (plain_filterUdp port),
        List.forall_mem_append]
  | exports strategies =>
      have hparts := @forall_zipIdx _ (fun s n =>
        ∀ part ∈ strategyPartsForExport host.confText s, CleanPart n part) strategies 1
      simp only [Nat.add_comm 1] at hparts
      have hemissions : (∀ e ∈ emissions host (.exports strategies), e.Exact) ↔
          ∀ q ∈ strategies.zipIdx 1, ∀ part ∈ strategyPartsForExport host.confText q.1,
            CleanPart q.2 part := by
        rw [emissions, List.forall_mem_flatMap]
        exact forall₂_congr (fun q _ => forall_exported q.2 _)
      exact hemissions.trans hparts

/-- A host with one exported conf file. -/
def exportHost : Host where
  env := ⟨200, 201, [], fun _ => none⟩
  discordBlob := none
  confText := fun path =>
    if path = "/etc/a.conf".toList then some "--lua-desync=fake:range=s1\\<d1".toList else none

theorem not_exact_of_unread {p : Producer}
    (h : ¬ ∀ e ∈ emissions host p, (readArg e.line.toList).isSome = true) : ¬ Exact host p := by
  rw [exact_iff_emissions]
  refine fun hexact => h (fun e he => ?_)
  obtain ⟨hsome, hread⟩ := hexact e he
  rw [hread]
  exact hsome

/-- An option of a UDP strategy that is not escaped, and a desync of a conf file
that is escaped twice. -/
theorem rangeOption_rejected :
    ¬ Exact exportHost (.udp "fake:blob=discord_udp\n--out-range=<n2" 50000) ∧
      ¬ Exact exportHost (.exports ["/etc/a.conf"]) :=
  ⟨not_exact_of_unread _ (by decide +kernel), not_exact_of_unread _ (by decide +kernel)⟩

end Blockchecks.ConfEscape
