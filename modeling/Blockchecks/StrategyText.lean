import Mathlib.Data.List.Nodup

namespace Blockchecks.StrategyText

structure StrategyItem where
  label : String
  strategy : String
  isConfig : Bool := false
  protocol : String := "tls12"
  deriving DecidableEq, Repr

def splitItem : StrategyItem := ⟨"std_split_1", "multisplit:pos=1", false, "tls12"⟩

def fakeItem : StrategyItem := ⟨"std_fake_1", "fake:ttl=3", false, "tls12"⟩

def httpItem : StrategyItem := ⟨"http_split_1", "multisplit:pos=1", false, "http"⟩

def isSpace (c : Char) : Bool :=
  decide (c.toNat ∈ [0x09, 0x0a, 0x0b, 0x0c, 0x0d, 0x1c, 0x1d, 0x1e, 0x1f, 0x20, 0x85, 0xa0, 0x1680,
      0x2028, 0x2029, 0x202f, 0x205f, 0x3000]) ||
    decide (0x2000 ≤ c.toNat ∧ c.toNat ≤ 0x200a)

def strip (text : List Char) : List Char :=
  ((text.dropWhile isSpace).reverse.dropWhile isSpace).reverse

/-- Labels, strategies and host names are ASCII, where Python's lower is this map. -/
def lower (s : String) : List Char := s.toList.map Char.toLower

def startsWith (text : List Char) (pre : String) : Bool := pre.toList.isPrefixOf text

def hasInfix (needle : List Char) : List Char → Bool
  | [] => needle.isEmpty
  | c :: cs => needle.isPrefixOf (c :: cs) || hasInfix needle cs

def contains (text : List Char) (needle : String) : Bool := hasInfix needle.toList text

/-- Non-overlapping matches from the left. A matcher returns the length of the
match at the head of the text and the captured value; skip counts the
characters of the last match that are still to be passed. -/
def finditerFrom {α : Type} (matchAt : List Char → Option (Nat × α)) : Nat → List Char → List α
  | _, [] => []
  | skip + 1, _ :: cs => finditerFrom matchAt skip cs
  | 0, c :: cs => match matchAt (c :: cs) with
    | some (n, a) => a :: finditerFrom matchAt (n - 1) cs
    | none => finditerFrom matchAt 0 cs

def finditer {α : Type} (matchAt : List Char → Option (Nat × α)) (text : List Char) : List α :=
  finditerFrom matchAt 0 text

/-- The first value that re.search finds. -/
def search {α : Type} (matchAt : List Char → Option α) : List Char → Option α
  | [] => matchAt []
  | c :: cs => (matchAt (c :: cs)).or (search matchAt cs)

def assignment (pre : String) (cls : Char → Bool) (text : List Char) : Option (Nat × String) :=
  if startsWith text pre then
    let body := (text.drop pre.toList.length).takeWhile cls
    if body.isEmpty then none else some (pre.toList.length + body.length, String.ofList body)
  else none

def alternation (words : List String) (text : List Char) : Option (Nat × String) :=
  (words.find? (startsWith text)).map (fun w => (w.toList.length, w))

def isWordChar (c : Char) : Bool := c.isAlphanum || c == '_'

def addAll (seen : List String) (new : List String) : List String :=
  new.foldl (fun acc v => if v ∈ acc then acc else acc ++ [v]) seen

theorem forall_mem_of_all {p : Char → Bool} {b : Bool} {text : List Char}
    (h : text.all (fun c => p c == b) = true) : ∀ c ∈ text, p c = b := fun c hc =>
  eq_of_beq (List.all_eq_true.mp h c hc)

theorem hasInfix_iff (needle text : List Char) : hasInfix needle text = true ↔ needle <:+: text := by
  induction text with
  | nil => rw [hasInfix, List.isEmpty_iff, List.infix_nil]
  | cons c text ih => rw [hasInfix, Bool.or_eq_true, List.isPrefixOf_iff_prefix, ih, List.infix_cons_iff]

theorem mem_addAll {seen new : List String} {name : String} : name ∈ addAll seen new ↔ name ∈ seen ∨ name ∈ new := by
  induction new generalizing seen with
  | nil => rw [addAll, List.foldl_nil, List.mem_nil_iff, or_false]
  | cons first new ih =>
      have hfold : addAll seen (first :: new) = addAll (if first ∈ seen then seen else seen ++ [first]) new := rfl
      rw [hfold, ih, List.mem_cons]
      split
      next hmem =>
        refine ⟨fun h => h.imp_right Or.inr, ?_⟩
        rintro (h | rfl | h)
        · exact Or.inl h
        · exact Or.inl hmem
        · exact Or.inr h
      next => rw [List.mem_append, List.mem_singleton, or_assoc]

theorem nodup_addAll {seen : List String} (h : seen.Nodup) (new : List String) : (addAll seen new).Nodup := by
  induction new generalizing seen with
  | nil => exact h
  | cons first new ih =>
      have hfold : addAll seen (first :: new) = addAll (if first ∈ seen then seen else seen ++ [first]) new := rfl
      rw [hfold]
      refine ih ?_
      split
      next => exact h
      next hmem => exact List.nodup_append.mpr ⟨h, List.nodup_singleton _, fun a ha b hb heq => hmem (by
          rw [← List.mem_singleton.mp hb, ← heq]
          exact ha)⟩

def extractBlobHints (strategy : String) : List String :=
  addAll [] (finditer (assignment "blob=" isWordChar) strategy.toList)

def foolingWords : List String :=
  ["tcp_ts", "tcp_md5", "badsid", "badseq", "badsum", "seqovl", "ip_ttl", "tcp_seq", "tcp_ack"]

def techniqueWords : List String :=
  ["hostfakesplit", "fakedsplit", "fakeddisorder", "multisplit", "multidisorder", "tlsrec", "oob",
    "syndata", "pktmod", "send", "dupfake"]

def decimalValue (digits : String) : Nat :=
  digits.toList.foldl (fun n c => 10 * n + (c.toNat - '0'.toNat)) 0

def ttlBucket (digits : String) : String :=
  let t := decimalValue digits
  if t ≤ 8 then "ttl1" else if t ≤ 32 then "ttl2" else if t ≤ 128 then "ttl3" else "ttl4"

def strategyTraits (strategy : String) : List String :=
  let text := strategy.toList
  let posChar := fun c => isWordChar c || c == ','
  let traits := addAll [] ((finditer (assignment "repeats=" Char.isDigit) text).map ("r" ++ ·))
  let traits := addAll traits ((finditer (alternation foolingWords) text).map ("fool:" ++ ·))
  let traits := addAll traits ((finditer (assignment "ttl=" Char.isDigit) text).map ttlBucket)
  let traits := addAll traits ((finditer (assignment "pos=" posChar) text).map ("pos:" ++ ·))
  let traits := addAll traits ((finditer (assignment "ip_ttl=" Char.isDigit) text).map ("ipttl" ++ ·))
  addAll traits ((finditer (alternation techniqueWords) text).map ("tec:" ++ ·))

def tcpFamilies : List String :=
  ["fake", "rst_fake", "synack", "geneva_fool", "wssize", "hostfake", "multisplit", "multidisorder",
    "syndata", "tcpseg", "oob", "multi_fake", "triple_fake", "fake_multisplit",
    "fake_multidisorder", "fake_multisplit_hostfake", "fake_hostfake", "fakedsplit",
    "fakeddisorder", "fake_fakedsplit", "tcp_ipfrag"]

def labelPrefixes : List (String × String) :=
  [("std_fake_", "fake"), ("fake_", "fake"), ("std_rst_", "rst_fake"), ("std_synack", "synack"),
    ("std_gva_", "geneva_fool"), ("std_wssize", "wssize"), ("std_hf_", "hostfake"),
    ("std_hostfake_", "hostfake"), ("hostfake_", "hostfake"), ("std_split_", "multisplit"),
    ("std_multisplit_", "multisplit"), ("multisplit_", "multisplit"),
    ("std_mdis_", "multidisorder"), ("multidisorder_", "multidisorder"), ("std_syn_", "syndata"),
    ("std_syndata_", "syndata"), ("std_tcpseg_", "tcpseg"), ("std_oob_", "oob"),
    ("std_multi_fake_", "multi_fake"), ("std_multi_", "multi_fake"), ("fake_multi_", "multi_fake"),
    ("std_triple_", "triple_fake"), ("std_fms_", "fake_multisplit"),
    ("fake_multisplit_", "fake_multisplit"), ("std_fmd_", "fake_multidisorder"),
    ("fake_multidisorder_", "fake_multidisorder"), ("std_fmsh_", "fake_multisplit_hostfake"),
    ("fake_multisplit_hostfake_", "fake_multisplit_hostfake"),
    ("std_fake_hostfake_", "fake_hostfake"), ("std_fh_", "fake_hostfake"),
    ("fake_hostfake_", "fake_hostfake"), ("std_fds_", "fakedsplit"), ("fakedsplit_", "fakedsplit"),
    ("std_fdd_", "fakeddisorder"), ("fakeddisorder_", "fakeddisorder"),
    ("std_ffds_", "fake_fakedsplit"), ("fake_fakedsplit_", "fake_fakedsplit"),
    ("std_tcp_fake_ipfrag_", "tcp_ipfrag"), ("std_tcp_ipfrag_", "tcp_ipfrag")]

/-- The head of the hits sorted by decreasing prefix length, ties in registry order. -/
def longestHit (label : List Char) : List (String × String) → Option (String × String)
  | [] => none
  | (pre, family) :: rest =>
      let later := longestHit label rest
      if startsWith label pre then match later with
        | some hit => if pre.toList.length < hit.1.toList.length then some hit else some (pre, family)
        | none => some (pre, family)
      else later

def classifyStrategyFamily (item : StrategyItem) : String :=
  let label := lower item.label
  let strat := lower item.strategy
  match longestHit label labelPrefixes with
  | some hit => hit.2
  | none =>
      if contains strat "hostfakesplit" then "hostfake"
      else if contains strat "multisplit" || contains strat "multidisorder" then "multisplit"
      else if contains strat "fakedsplit" || contains strat "fakeddisorder" then "faked"
      else if startsWith label "std_" then
        let part := String.ofList ((label.drop 4).takeWhile (· ≠ '_'))
        if part ∈ tcpFamilies then part else "other"
      else "other"

inductive Cluster
  | discord
  | google
  | youtube
  | general
  deriving DecidableEq, Repr

def stripDots (text : List Char) : List Char :=
  ((text.dropWhile (· == '.')).reverse.dropWhile (· == '.')).reverse

def discordWords : List String := ["discord", "discordapp", "discord.gg", "discord.media"]

def googleWords : List String := ["google", "gstatic", "googleapis", "ggpht", "googleusercontent"]

def youtubeWords : List String := ["youtube", "googlevideo", "ytimg", "youtu.be"]

def clusterDomain (domain : String) : Cluster :=
  let d := stripDots ((lower domain).takeWhile (· ≠ '/'))
  if discordWords.any (contains d) then .discord
  else if youtubeWords.any (contains d) then .youtube
  else if googleWords.any (contains d) then .google
  else .general

end Blockchecks.StrategyText
