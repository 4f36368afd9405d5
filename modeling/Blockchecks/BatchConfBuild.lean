import Blockchecks.BatchConf

namespace Blockchecks.BatchConfBuild

open StrategyText LuaConf OrderedDict NfqwsConfig StickyOptions ConfRun BatchConf

def read (lines : List String) : List (Line (List Char)) :=
  lines.map (fun line => directive line.toList)

theorem read_append (xs ys : List String) : read (xs ++ ys) = read xs ++ read ys :=
  List.map_append ..

/-- Two texts of which neither begins the other. -/
def clashes (xs ys : List Char) : Bool := (xs.zip ys).any (fun p => p.1 != p.2)

theorem not_isPrefixOf_of_clashes {xs ys : List Char} (h : clashes xs ys = true) (rest : List Char) :
    ys.isPrefixOf (xs ++ rest) = false := by
  induction xs generalizing ys with
  | nil => cases h
  | cons x xs ih =>
      cases ys with
      | nil => cases h
      | cons y ys =>
          rw [clashes, List.zip_cons_cons, List.any_cons, Bool.or_eq_true, bne_iff_ne] at h
          rw [List.cons_append, List.isPrefixOf_cons_cons, Bool.and_eq_false_iff]
          rcases h with hne | htail
          · exact Or.inl (beq_eq_false_iff_ne.mpr (Ne.symm hne))
          · exact Or.inr (ih htail)

/-- The text begins a line that is none of the options of a conf. -/
def Foreign (text : String) : Prop :=
  ∀ option ∈ ["--payload=", "--out-range=", "--in-range=", "--lua-desync="],
    clashes text.toList option.toList = true

instance decidableForeign (text : String) : Decidable (Foreign text) :=
  inferInstanceAs (Decidable (∀ option ∈ _, _ = true))

theorem directive_foreign {text : String} (h : Foreign text) (rest : String) :
    directive (text ++ rest).toList = .other := by
  have hnone : ∀ option ∈ ["--payload=", "--out-range=", "--in-range=", "--lua-desync="],
      value (text ++ rest).toList option = none := by
    intro option hoption
    have hstart : startsWith (text.toList ++ rest.toList) option = false :=
      not_isPrefixOf_of_clashes (h option hoption) rest.toList
    rw [value, String.toList_append, hstart, if_neg Bool.false_ne_true]
  simp only [List.forall_mem_cons] at hnone
  obtain ⟨hpayload, hout, hin, hdesync, _⟩ := hnone
  simp only [directive, hpayload, hout, hin, hdesync]

theorem foreign_luaInit : Foreign "--lua-init=@" := by decide

theorem foreign_writable : Foreign "--writable=" := by decide

theorem foreign_blob : Foreign "--blob=" := by decide

theorem foreign_filter : Foreign "--filter-" := by decide

theorem foreign_qnum : Foreign "--qnum=" := by decide

theorem directive_payload (payload : String) :
    directive ("--payload=" ++ payload).toList = .set .payload payload.toList := by
  have hvalue : value ("--payload=" ++ payload).toList "--payload=" = some payload.toList := by
    rw [String.toList_append]
    rfl
  simp only [directive, hvalue]

theorem idle_luaInit (scripts : List String) : Idle (read (luaInitLines scripts)) := by
  intro d hd
  rw [read, luaInitLines, List.map_map] at hd
  obtain ⟨script, _, rfl⟩ := List.mem_map.mp hd
  exact directive_foreign foreign_luaInit script

/-- The filters of a protocol set the payload and use nothing. -/
theorem read_filterLines (queue : Nat) (filter l7 payload : String) :
    read (filterLines queue ("--filter-" ++ filter) l7 payload) =
      [.other, .other, .other, .other, .other, .other, .set .payload payload.toList] := by
  have hl7 : "--filter-l7=" ++ l7 = "--filter-" ++ ("l7=" ++ l7) := by
    rw [← String.append_assoc]
    rfl
  rw [filterLines, hl7]
  simp only [read, List.map_cons, List.map_nil, directive_foreign foreign_qnum,
    directive_foreign foreign_filter, directive_payload]
  rfl

theorem buildFilterLines_eq (env : Env) (protocol : String) :
    ∃ queue filter l7 payload, buildFilterLines env protocol =
      filterLines queue ("--filter-" ++ filter) l7 payload := by
  rw [buildFilterLines]
  split
  · exact ⟨_, "tcp=80", _, _, rfl⟩
  · split
    · exact ⟨_, "udp=443", _, _, rfl⟩
    · split
      · exact ⟨_, "udp=" ++ voiceUdpFilter, _, _, rfl⟩
      · split
        · exact ⟨_, "udp=1024-65535", _, _, rfl⟩
        · exact ⟨_, "tcp=443", _, _, rfl⟩

/-- The options that the desyncs of a strategy alone start with. -/
def base (env : Env) (protocol : String) : Settings :=
  after (fun _ => none) (read (buildFilterLines env protocol))

theorem instances_filters (env : Env) (protocol : String) (options : Settings) :
    instances options (read (buildFilterLines env protocol)) = [] := by
  obtain ⟨queue, filter, l7, payload, heq⟩ := buildFilterLines_eq env protocol
  rw [heq, read_filterLines]
  rfl

/-- Blobs only append lines that name a blob. -/
theorem blobs_eq (env : Env) (lines names : List String) :
    ∃ blobs, (appendBlobCliLines env lines names).1 = lines ++ blobs ∧ Idle (read blobs) := by
  rw [appendBlobCliLines]
  generalize (Dict.empty : Renames) = renames
  induction names generalizing lines renames with
  | nil => exact ⟨[], (List.append_nil lines).symm, fun d hd => by cases hd⟩
  | cons name names ih =>
      rw [List.foldl_cons]
      have hstep : ∃ added, (blobStep env (lines, renames) name).1 = lines ++ added ∧
          Idle (read added) := by
        rw [blobStep]
        split
        · exact ⟨[], (List.append_nil lines).symm, fun d hd => by cases hd⟩
        · split
          · exact ⟨[], (List.append_nil lines).symm, fun d hd => by cases hd⟩
          · split
            · refine ⟨_, rfl, ?_⟩
              intro d hd
              obtain rfl := List.mem_singleton.mp hd
              rw [String.append_assoc, String.append_assoc]
              exact directive_foreign foreign_blob _
            · exact ⟨[], (List.append_nil lines).symm, fun d hd => by cases hd⟩
      obtain ⟨added, hadded, hidle⟩ := hstep
      obtain ⟨blobs, hblobs, hrest⟩ := ih (blobStep env (lines, renames) name).1
        (blobStep env (lines, renames) name).2
      refine ⟨added ++ blobs, ?_, ?_⟩
      · rw [hblobs, hadded, List.append_assoc]
      · rw [read_append]
        intro d hd
        rcases List.mem_append.mp hd with hd | hd
        · exact hidle d hd
        · exact hrest d hd

/-- A strategy's lines, its desyncs before they are numbered. -/
def sources (text : String) : List (Line Source) := (strategyItems text).map Item.directive

theorem read_inlineLines (text : String) :
    read (inlineLines text) = (sources text).map (Directive.mapCore Source.text) := by
  rw [inlineLines_eq, read, sources, List.map_map, List.map_map]
  exact List.map_congr_left (fun item _ => directive_alone item)

theorem read_appendStrategyDesyncs (text : String) (n : Nat) :
    read (appendStrategyDesyncs text n) = (sources text).map (Directive.mapCore (Source.emit n)) := by
  rw [appendStrategyDesyncs_eq, read, sources, List.map_map, List.map_map]
  exact List.map_congr_left (fun item _ => directive_inBatch n item)

theorem read_strategyBlocks (rename : String → String) (strategies : List String) :
    read (strategyBlocks rename strategies).flatten =
      ((strategies.map (fun s => sources (rename s))).zipIdx 1).flatMap
        (fun p => p.1.map (Directive.mapCore (Source.emit p.2))) := by
  rw [strategyBlocks, ← List.flatMap_def, read, List.map_flatMap, List.zipIdx_map, List.flatMap_map]
  congr 1
  funext p
  exact read_appendStrategyDesyncs _ _

/-- The text of a strategy in a conf of its own, and in a batch. -/
def aloneText (env : Env) (protocol strategy : String) : String :=
  (addBlobsFromStrategy env (buildFilterLines env protocol ++ luaInitLines env.luaInitScripts)
    strategy).2

def batchText (env : Env) (lines strategies : List String) (strategy : String) : String :=
  applyBlobRenames strategy (bridgeRenames env lines strategies).2

theorem desyncs_eq (lines : List String) :
    desyncs lines = instances (fun _ => none) (read lines) := rfl

theorem alone_header (env : Env) (protocol : String) {blobs : List String} (h : Idle (read blobs)) :
    instances (fun _ => none) (read (buildFilterLines env protocol ++ luaInitLines env.luaInitScripts) ++
        read blobs) = [] ∧
      after (fun _ => none) (read (buildFilterLines env protocol ++ luaInitLines env.luaInitScripts) ++
        read blobs) = base env protocol := by
  have hinit := (idle_luaInit env.luaInitScripts).run (base env protocol)
  have hblobs := h.run (base env protocol)
  rw [read_append, instances_append, instances_append, after_append, after_append, after_append]
  change instances _ (read (buildFilterLines env protocol)) ++ instances (base env protocol) _ ++
    instances (after (base env protocol) _) _ = [] ∧
      after (after (base env protocol) _) _ = base env protocol
  rw [instances_filters, hinit.1, hinit.2, hblobs.1, hblobs.2]
  exact ⟨rfl, rfl⟩

theorem desyncs_inline (env : Env) (strategy protocol : String) :
    desyncs (buildInlineNfqwsLines env strategy protocol "") =
      (instances (base env protocol) (sources (aloneText env protocol strategy))).map
        (Instance.mapCore Source.text) := by
  obtain ⟨blobs, hblobs, hidle⟩ := blobs_eq env
    (buildFilterLines env protocol ++ luaInitLines env.luaInitScripts) (extractBlobNames strategy)
  have hlines : buildInlineNfqwsLines env strategy protocol "" =
      buildFilterLines env protocol ++ luaInitLines env.luaInitScripts ++ blobs ++
        inlineLines (aloneText env protocol strategy) := by
    rw [buildInlineNfqwsLines, aloneText, addBlobsFromStrategy]
    dsimp only
    rw [hblobs, if_pos rfl, List.append_nil]
  rw [hlines, desyncs_eq, read_append, instances_append, read_append, (alone_header env protocol hidle).1,
    (alone_header env protocol hidle).2, List.nil_append, read_inlineLines, instances_mapCore]

/-- The header of a batch: two desyncs, and scan_pick, under the options that
the strategies start with. -/
theorem bridge_header (env : Env) (ipcDir : String) (staged : List String) (protocol : String) :
    instances (fun _ => none) (read (bridgeHeader env ipcDir staged protocol)) =
        [⟨"bs_poll_strategy".toList, base env protocol⟩, ⟨"smart_fallback".toList, base env protocol⟩,
          ⟨"scan_pick".toList, base env protocol⟩] ∧
      after (fun _ => none) (read (bridgeHeader env ipcDir staged protocol)) = base env protocol := by
  have hwritable : Idle (read ["--writable=" ++ ipcDir]) := by
    intro d hd
    obtain rfl := List.mem_singleton.mp hd
    exact directive_foreign foreign_writable ipcDir
  have hdesyncs : read ["--lua-desync=bs_poll_strategy", "--lua-desync=smart_fallback",
      "--lua-desync=scan_pick"] = [.use "bs_poll_strategy".toList, .use "smart_fallback".toList,
        .use "scan_pick".toList] := rfl
  rw [bridgeHeader, read_append, read_append, read_append, read_append, hdesyncs]
  simp only [instances_append, after_append, (hwritable.run _).1, (hwritable.run _).2,
    ((idle_luaInit _).run _).1, ((idle_luaInit _).run _).2, instances_filters, List.nil_append]
  exact ⟨rfl, rfl⟩

theorem plan_bridge (env : Env) (strategies : List String) (ipcDir : String) (staged : List String)
    (protocol : String) :
    plan (buildBridgeConf env strategies ipcDir staged protocol) =
      (batches (base env protocol) 1 (strategies.map (fun s =>
        sources (batchText env (bridgeHeader env ipcDir staged protocol) strategies s)))).flatten := by
  obtain ⟨blobs, hblobs, hidle⟩ := blobs_eq env (bridgeHeader env ipcDir staged protocol)
    (strategies.flatMap extractBlobNames)
  have hlines : buildBridgeConf env strategies ipcDir staged protocol =
      bridgeHeader env ipcDir staged protocol ++ (blobs ++
        (strategyBlocks (batchText env (bridgeHeader env ipcDir staged protocol) strategies)
          strategies).flatten) := by
    rw [buildBridgeConf, bridgeRenames, ← List.append_assoc, ← hblobs]
    rfl
  obtain ⟨hheader, hafter⟩ := bridge_header env ipcDir staged protocol
  rw [plan, hlines, desyncs_eq, read_append, instances_append, hheader, hafter, read_append,
    instances_append, (hidle.run _).1, (hidle.run _).2, List.nil_append, read_strategyBlocks,
    instances_zipIdx]
  rfl

section claim

variable {env : Env} {strategies : List String} {ipcDir protocol : String} {staged : List String}
  {strategyArg : List Char → Option Nat}

/-- Blobs are renamed in a batch as in the conf of each strategy alone. -/
def SameBlobs (env : Env) (strategies : List String) (ipcDir : String) (staged : List String)
    (protocol : String) : Prop :=
  ∀ s ∈ strategies, batchText env (bridgeHeader env ipcDir staged protocol) strategies s =
    aloneText env protocol s

/-- Every number that a strategy carries is its own number in the batch. -/
def NumbersFit (strategyArg : List Char → Option Nat) (env : Env) (protocol : String)
    (strategies : List String) : Prop :=
  ∀ i s, strategies[i]? = some s →
    OwnNumbers strategyArg (i + 1) (sources (aloneText env protocol s))

/-- The options that earlier strategies leave are those of the header, or the
strategy sets them before its first desync. -/
def OptionsFit (env : Env) (protocol : String) (strategies : List String) : Prop :=
  ∀ i s, strategies[i]? = some s → OwnOptions (base env protocol)
    (after (base env protocol) ((strategies.take i).flatMap (fun e => sources (aloneText env protocol e))))
    (sources (aloneText env protocol s))

end claim

theorem mem_set_entries {d : Renames} {k v : String} {e : String × String}
    (h : e ∈ (d.set k v).entries) : e = (k, v) ∨ e ∈ d.entries := by
  obtain ⟨j, w⟩ := e
  rw [← Dict.get?_eq_some_iff, Dict.get?_set] at h
  split at h
  next hj =>
    left
    rw [hj, Option.some.inj h]
  next => exact Or.inr ((Dict.get?_eq_some_iff d j w).mp h)

def Plain (renames : Renames) : Prop := ∀ e ∈ renames.entries, e.2 = "" ∨ e.1 = e.2

theorem plain_set {renames : Renames} {name safe : String} (h : Plain renames)
    (hsafe : safe = "" ∨ name = safe) : Plain (renames.set name safe) := by
  intro e he
  rcases mem_set_entries he with rfl | hmem
  · exact hsafe
  · exact h e hmem

/-- Names that are identifiers are not renamed. -/
theorem plain_append (env : Env) (lines : List String) {names : List String}
    (hnames : ∀ name ∈ names, isIdentifier name = true) :
    Plain (appendBlobCliLines env lines names).2 := by
  rw [appendBlobCliLines]
  have hempty : Plain .empty := fun e he => by cases he
  revert hempty
  generalize (Dict.empty : Renames) = renames
  intro hplain
  induction names generalizing lines renames with
  | nil => exact hplain
  | cons name names ih =>
      rw [List.forall_mem_cons] at hnames
      rw [List.foldl_cons]
      refine ih (blobStep env (lines, renames) name).1 hnames.2
        (blobStep env (lines, renames) name).2 ?_
      have hknown : Plain (if (renames.get? name).isSome then renames
          else renames.set name ((renames.get? name).getD (safeBlobName name))) := by
        split
        next => exact hplain
        next hnew =>
          refine plain_set hplain (Or.inr ?_)
          rw [Option.not_isSome_iff_eq_none.mp hnew, Option.getD_none, safeBlobName, hnames.1]
          rfl
      rw [blobStep]
      split
      · exact hknown
      · split
        · exact hknown
        · split
          · exact hknown
          · exact plain_set hknown (Or.inl rfl)

theorem applyBlobRenames_plain {renames : Renames} (h : Plain renames) (text : String) :
    applyBlobRenames text renames = text := by
  rw [applyBlobRenames]
  obtain ⟨entries, hnodup⟩ := renames
  rw [Plain] at h
  dsimp only at h ⊢
  clear hnodup
  induction entries with
  | nil => rfl
  | cons e entries ih =>
      rw [List.forall_mem_cons] at h
      rw [List.foldl_cons, renameBlob, if_pos (Or.inr h.1)]
      exact ih h.2

/-- Blobs with identifiers for names are the same everywhere. -/
theorem sameBlobs_of_identifiers {env : Env} {strategies : List String} {ipcDir protocol : String}
    {staged : List String}
    (h : ∀ s ∈ strategies, ∀ name ∈ extractBlobNames s, isIdentifier name = true) :
    SameBlobs env strategies ipcDir staged protocol := by
  intro s hs
  have hall : ∀ name ∈ strategies.flatMap extractBlobNames, isIdentifier name = true := by
    intro name hname
    obtain ⟨e, he, hmem⟩ := List.mem_flatMap.mp hname
    exact h e he name hmem
  rw [batchText, bridgeRenames, applyBlobRenames_plain (plain_append env _ hall), aloneText,
    addBlobsFromStrategy]
  exact (applyBlobRenames_plain (plain_append env _ (h s hs)) s).symm

/-- A reader of the number at the end of a desync. -/
def lastNumber (core : List Char) : Option Nat :=
  let digits := core.reverse.takeWhile Char.isDigit
  let before := core.reverse.dropWhile Char.isDigit
  if ":strategy=".toList.reverse.isPrefixOf before ∧ digits ≠ [] then
    some (Nat.ofDigitChars 10 digits.reverse 0)
  else none

theorem lastNumber_reads : ReadsStrategy lastNumber where
  added := by
    intro text n _
    have hdigits : ∀ c ∈ (Nat.toDigits 10 n).reverse, c.isDigit = true := fun c hc =>
      Nat.isDigit_of_mem_toDigits (by decide) (by decide) (List.mem_reverse.mp hc)
    have hreverse : (text ++ tag n).reverse =
        (Nat.toDigits 10 n).reverse ++ (":strategy=".toList.reverse ++ text.reverse) := by
      rw [tag, String.toList_append, Nat.toString_eq_repr, Nat.toList_repr]
      simp only [List.reverse_append, List.append_assoc]
    have htake : (":strategy=".toList.reverse ++ text.reverse).takeWhile Char.isDigit = [] := rfl
    have hdrop : (":strategy=".toList.reverse ++ text.reverse).dropWhile Char.isDigit =
        ":strategy=".toList.reverse ++ text.reverse := rfl
    have hstarts : ":strategy=".toList.reverse.isPrefixOf
        (":strategy=".toList.reverse ++ text.reverse) = true :=
      List.isPrefixOf_iff_prefix.mpr (List.prefix_append _ _)
    rw [lastNumber, hreverse, List.takeWhile_append_of_pos hdigits,
      List.dropWhile_append_of_pos hdigits, htake, hdrop, List.append_nil, List.reverse_reverse,
      Nat.ofDigitChars_ten_toDigits, if_pos ⟨hstarts, by simp⟩]
  written := by
    intro text n h
    rw [lastNumber] at h
    split at h
    next hread =>
      obtain ⟨rest, hrest⟩ := List.isPrefixOf_iff_prefix.mp hread.1
      have hsplit := congrArg List.reverse
        (List.takeWhile_append_dropWhile (p := Char.isDigit) (l := text.reverse))
      rw [← hrest, List.reverse_append, List.reverse_append, List.reverse_reverse,
        List.reverse_reverse, List.append_assoc] at hsplit
      rw [contains, ← hsplit]
      exact (hasInfix_iff _ _).mpr (List.infix_append' _ _ _)
    next => cases h

instance decidableOwnNumbers (strategyArg : List Char → Option Nat) (n : Nat)
    (ds : List (Line Source)) : Decidable (OwnNumbers strategyArg n ds) :=
  decidable_of_iff (∀ core ∈ (instances (fun _ => none) ds).map Instance.core,
      core.tagged = true ∨ strategyArg core.text = some n)
    (forall_congr' (fun _ => imp_congr_left use_mem_iff))

instance decidableOwnOptions (start options : Settings) (ds : List (Line Source)) :
    Decidable (OwnOptions start options ds) :=
  decidable_of_iff (∀ setting ∈ [Setting.payload, .outRange, .inRange],
      options setting = start setting ∨ SetsFirst setting ds)
    ⟨fun h setting => h setting (by cases setting <;> decide), fun h setting _ => h setting⟩

def scanHost : Env := ⟨200, 201, ["/opt/zapret2/lua/zapret-lib.lua"], fun name =>
  if name = "stun" then some "/opt/zapret2/blobs/stun.bin" else none⟩

/-- The second strategy sets the payload that the first has changed. -/
def settingBatch : List String :=
  ["fake:blob=stun:ttl=3\n--payload=empty\npktmod:ip_ttl=1",
    "--payload=tls_client_hello\nmultisplit:pos=1"]

def batchRun (strategies : List String) (id : Nat) : List (Desync (List Char)) :=
  scanPick lastNumber id (plan (buildBridgeConf scanHost strategies "/dev/shm/bs" [] "tls12"))

def aloneRun (strategy : String) : List (Desync (List Char)) :=
  desyncs (buildInlineNfqwsLines scanHost strategy "tls12" "")

theorem sameRun_option_eq {n : Nat} {xs ys : List (Desync (List Char))} (h : SameRun n xs ys)
    (setting : Setting) :
    xs.map (fun i => i.options setting) = ys.map (fun i => i.options setting) := by
  rw [← List.forall₂_eq_eq_eq, List.forall₂_map_left_iff, List.forall₂_map_right_iff]
  exact h.imp (fun _ _ hxy => congrFun hxy.1 setting)

/-- A strategy with the companion of an acknowledgement that is dropped, and a
strategy after it. -/
def ackDropBatch : List String :=
  ["fake:blob=stun:ttl=3\n--payload=empty --out-range=s1<d1\npktmod:ip_ttl=1", "multisplit:pos=1"]

end Blockchecks.BatchConfBuild
