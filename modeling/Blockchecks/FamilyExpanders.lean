import Blockchecks.FamilyAxes
import Mathlib.Data.Prod.TProd

namespace Blockchecks.FamilyExpanders

open FamilyAxes StrategyText

/-- A label and its strategy. -/
abbrev Row := String × String

def ttlClause (ttl : String) : String :=
  if ttl = "" then ""
  else if contains ttl.toList "-" && contains ttl.toList "," then ":ip_autottl=" ++ ttl
  else ":ip_ttl=" ++ ttl

def foolingClause (fool : String) : String := if fool = "" then "" else ":" ++ fool

def requiredFoolings (fools : List String) : List String := fools.filter (· ≠ "")

def ackDropTail : String := "\n--payload=empty --out-range=s1<d1\npktmod:ip_ttl=1"

def sendMd5Tail : String := "\n--payload=empty --out-range=<s1\nsend:tcp_md5"

def withAckDrop (core : String) : String := core ++ ackDropTail

def withSendMd5 (core : String) : String := core ++ sendMd5Tail

def withIp6SendDrop (fool : String) : String := "send:" ++ fool ++ "\ndrop"

/-- What a label has for a fooling. -/
def foolName (fool : String) : String := if fool = "" then "nofool" else fool

def replaceMarks (marks : List Char) (text : String) : String :=
  String.ofList (text.toList.map (fun c => if c ∈ marks then '_' else c))

def takeText (n : Nat) (text : String) : String := String.ofList (text.toList.take n)

/-- The text before the first mark. -/
def beforeMark (mark : Char) (text : String) : String := String.ofList (text.toList.takeWhile (· ≠ mark))

/-- The deduplication by stripped strategies of the generator. -/
def add (items : List StrategyItem) (label strategy protocol : String) : List StrategyItem :=
  if items.any (fun item => strip item.strategy.toList == strip strategy.toList) then items
  else items ++ [⟨label, strategy, false, protocol⟩]

/-- With the items, whether the caller should stop. -/
def emitRows (scanLevel protocol : String) : List StrategyItem → List Row → List StrategyItem × Bool
  | items, [] => (items, false)
  | items, (label, strategy) :: rows =>
      if scanLevel = "single" then (add items label strategy protocol, true)
      else emitRows scanLevel protocol (add items label strategy protocol) rows

/-- Rows that an expander emits at once, and whether it returns when the
emission tells it to stop. -/
structure Batch where
  rows : List Row
  returns : Bool := false

def emitBatches (scanLevel protocol : String) (items : List StrategyItem) : List Batch → List StrategyItem
  | [] => items
  | batch :: batches =>
      let (items, stop) := emitRows scanLevel protocol items batch.rows
      if batch.returns && stop then items else emitBatches scanLevel protocol items batches

def ttlCompanionRows (autoName : String → String) (static : List Nat) (auto : List String) (row : Row) :
    List Row :=
  static.map (fun t => (row.1 ++ "_ttl" ++ toString t, row.2 ++ ttlClause (toString t))) ++
    auto.map (fun t => (row.1 ++ "_" ++ autoName t, row.2 ++ ttlClause t))

def autoTtlName (ttl : String) : String := "autottl" ++ ttl

def ackRows {α : Type} (core : α → Row) (axes : List α) : List Row :=
  axes.map (fun a => ((core a).1 ++ "_ackdrop", withAckDrop (core a).2))

def md5Rows {α : Type} (core : α → Row) (axes : List α) : List Row :=
  axes.map (fun a => ((core a).1 ++ "_sendmd5", withSendMd5 (core a).2))

/-- The companions of the cores, without those that are known to work when the
scan is fast. -/
def ttlRows {α : Type} (core : α → Row) (axes : List α) (p : Axes) (scanLevel : String)
    (known : List String) : List Row :=
  (axes.filter (fun a => !(decide (scanLevel = "fast") && decide ((core a).1 ∈ known)))).flatMap
    (fun a => ttlCompanionRows autoTtlName p.ttlStatic (p.ttlAuto.getD []) (core a))

/-- The params of a family: without repeats there are six of them, and without
foolings there is the empty one. -/
def fromFamily (family : Axes) : Axes := { family with
  repeats := if family.repeats = [] then [6] else family.repeats
  foolings := if family.foolings = [] then [""] else family.foolings }

/-- The params of a family whose cores need a fooling. -/
def fromFamilyFooled (family : Axes) : Axes :=
  { fromFamily family with foolings := requiredFoolings family.foolings }

section digest

-- the parameter is the blake2s digest of three bytes in hex
variable (digest : String → String)

def cmdLabel (pre cmd : String) : String := pre ++ "_" ++ digest cmd

end digest

/-! The fake families. -/

def ackBlobs : List String := ["stun", "google", "0x00000000"]

def hfCore (variant fool : String) : String :=
  if variant = "base" then "hostfakesplit:nofake2" ++ foolingClause fool ++ ":repeats=1"
  else if variant = "disorder" then
    "hostfakesplit:disorder_after:nofake2" ++ foolingClause fool ++ ":repeats=1"
  else "hostfakesplit:" ++ variant ++ foolingClause fool ++ ":repeats=1"

def fakeHfLine (hf fool : String) : String :=
  if hf = "base" then "hostfakesplit:nofake2" ++ foolingClause fool ++ ":repeats=1"
  else "hostfakesplit:" ++ hf ++ ":nofake2" ++ foolingClause fool ++ ":repeats=1"

def fakeLine (blob : String) (r : Nat) (fool : String) : String :=
  "fake:blob=" ++ blob ++ ":repeats=" ++ toString r ++ foolingClause fool

def fakeCore : String × Nat × String → Row
  | (blob, r, fool) => ("std_fake_" ++ blob ++ "_r" ++ toString r ++ "_" ++ foolName fool, fakeLine blob r fool)

def fakeIp6Row (fool : String) : String × String → Row
  | (ip6, blob) => ("std_fake_" ++ blob ++ "_r6_" ++ ip6, "fake:blob=" ++ blob ++ ":repeats=6:" ++ ip6 ++ ":" ++ fool)

def fakeTlsCmd : String × Nat × String → String
  | (blob, r, tmod) => "fake:blob=" ++ blob ++ ":repeats=" ++ toString r ++ ":tls_mod=" ++ tmod

def fakeTlsRow (digest : String → String) (a : String × Nat × String) : Row :=
  (cmdLabel digest ("std_fake_" ++ a.1 ++ "_r" ++ toString a.2.1 ++ "_tlsmod=" ++ takeText 20 a.2.2)
    (fakeTlsCmd a), fakeTlsCmd a)

def famFake (digest : String → String) (family : Axes) (scanLevel : String) (known : List String) : List Batch :=
  let p := fromFamily family
  let axes := p.blobs ×ˢ p.repeats ×ˢ p.foolings
  let fool := (requiredFoolings p.foolings).headD "tcp_ts=-1000"
  let ack := axes.filter (fun (blob, _, fool) => p.ackDrop &&
    (fool == "" || fool == "tcp_ts=-1000") && decide (blob ∈ ackBlobs))
  let md5 := axes.filter (fun (_, _, fool) => p.sendMd5 && contains fool.toList "tcp_md5")
  let tls := p.blobs.filter (fun b => b == "google" || b == "0x00000000") ×ˢ [6, 8] ×ˢ p.tlsMods.filter (· ≠ "")
  [{ rows := axes.map fakeCore, returns := true },
    { rows := if scanLevel = "single" then []
        else (family.ipv6Extra ×ˢ ["stun", "google"]).map (fakeIp6Row fool) },
    { rows := ackRows fakeCore ack ++ md5Rows fakeCore md5 ++ ttlRows fakeCore axes p scanLevel known ++
        (if "" ∈ p.foolings then tls.map (fakeTlsRow digest) else []) }]

def hostfakeCore : String × String → Row
  | (fool, variant) => ("std_hf_" ++ variant ++ "_" ++ foolName fool, hfCore variant fool)

def hostfakeHostRow : String × String → Row
  | (host, fool) => ("std_hf_host_" ++ host ++ "_" ++ foolName fool,
      "hostfakesplit:host=" ++ host ++ ":nofake2" ++ foolingClause fool ++ ":repeats=1")

def famHostfake (family : Axes) (scanLevel : String) (known : List String) : List Batch :=
  let p := fromFamilyFooled family
  let axes := p.foolings ×ˢ p.variants
  let fools := requiredFoolings p.foolings
  let ack := axes.filter (fun (fool, variant) => p.ackDrop && fool == "tcp_ts=-1000" && variant == "base")
  let md5 := axes.filter (fun (fool, variant) => p.sendMd5 && contains fool.toList "tcp_md5" && variant == "base")
  [{ rows := (family.hosts ×ˢ (if fools = [] then ["tcp_ts=-1000"] else fools)).map hostfakeHostRow
     returns := true },
    { rows := axes.map hostfakeCore, returns := true },
    { rows := ackRows hostfakeCore ack ++ md5Rows hostfakeCore md5 ++ ttlRows hostfakeCore axes p scanLevel known }]

def multiFakeRow : (String × String) × (Nat × Nat) × String → Row
  | ((b, b'), (r, r'), fool) =>
      ("std_multi_" ++ b ++ "+" ++ b' ++ "_r" ++ toString r ++ "+" ++ toString r' ++ "_" ++ foolName fool,
        fakeLine b r fool ++ "\n" ++ fakeLine b' r' fool)

def famMultiFake (family : Axes) : List Batch :=
  let p := fromFamily family
  let repeats := if family.repeats = [] then [6] else family.repeats
  let repeatPairs := family.repeatPairs.getD (repeats.map (fun r => (r, r)))
  [{ rows := (p.blobPairs ×ˢ repeatPairs ×ˢ p.foolings).map multiFakeRow }]

def tripleFakeRow : (String × String × String) × Nat × String → Row
  | ((b, b', b''), r, fool) =>
      ("std_triple_" ++ b ++ "+" ++ b' ++ "+" ++ b'' ++ "_r" ++ toString r ++ "_" ++ foolName fool,
        fakeLine b r fool ++ "\n" ++ fakeLine b' r fool ++ "\n" ++ fakeLine b'' r fool)

def famTripleFake (family : Axes) : List Batch :=
  let p := fromFamily family
  [{ rows := (p.triples ×ˢ p.repeats ×ˢ p.foolings).map tripleFakeRow }]

def fakeMultidisorderRow : String × String × Nat × String → Row
  | (blob, pos, r, fool) =>
      ("std_fmd_" ++ blob ++ "_p" ++ pos ++ "_r" ++ toString r ++ "_" ++ foolName fool,
        fakeLine blob r fool ++ "\nmultidisorder:pos=" ++ pos ++ foolingClause fool)

def famFakeMultidisorder (family : Axes) : List Batch :=
  let p := fromFamily family
  [{ rows := (p.blobs ×ˢ p.positions ×ˢ p.repeats ×ˢ p.foolings).map fakeMultidisorderRow }]

def fakeHostfakeRow : String × Nat × String × String → Row
  | (blob, r, fool, hf) =>
      ("std_fh_" ++ blob ++ "_r" ++ toString r ++ "_" ++ hf ++ "_" ++ foolName fool,
        fakeLine blob r fool ++ "\n" ++ fakeHfLine hf fool)

def famFakeHostfake (family : Axes) : List Batch :=
  let p := fromFamilyFooled family
  [{ rows := (p.blobs ×ˢ p.repeats ×ˢ p.foolings ×ˢ p.hfVariants).map fakeHostfakeRow }]

def rstModRow (mod : String) : Row :=
  ("std_rst_" ++ replaceMarks [':', '='] mod, "--payload=empty --out-range=s1<d1\n" ++ mod)

def rstFakeCmd (fake : String) : String := "--payload=empty --out-range=s1<d1\n" ++ fake

def rstFakeRow (digest : String → String) (fake : String) : Row :=
  (cmdLabel digest ("std_rst_" ++ beforeMark ':' fake ++ "_" ++ takeText 40 (replaceMarks [':', '='] fake))
    (rstFakeCmd fake), rstFakeCmd fake)

def famRstFake (digest : String → String) (family : Axes) : List Batch :=
  [{ rows := family.mods.map rstModRow, returns := true },
    { rows := family.flagFakes.map (rstFakeRow digest) }]

def synackModeRow (mode : String) : Row := ("std_synack_" ++ mode, "synack_split:mode=" ++ mode)

def synackFoolRow (fool : String) : Row :=
  ("std_synack_fool_" ++ foolName fool, "synack" ++ foolingClause fool)

def famSynack (family : Axes) : List Batch :=
  [{ rows := family.modes.eraseDups.map synackModeRow, returns := true },
    { rows := [("std_synack_bare", "synack")] },
    { rows := (fromFamily family).foolings.map synackFoolRow }]

/-! The split families. -/

/-- Zapret2 cancels disorder seqovl when it reaches the numeric position. -/
def disorderSeqovlOk (pos : String) (seqovl : Nat) : Bool :=
  let head := strip (pos.toList.takeWhile (· ≠ ','))
  if head.isEmpty || !head.all Char.isDigit then true else decide (seqovl < decimalValue (String.ofList head))

def ipfragOpts (kind pos : String) (disorder : Bool) (nxt : Option Nat) : String :=
  "ipfrag_pos_" ++ kind ++ "=" ++ pos ++ (if disorder then ":ipfrag_disorder" else "") ++
    (match nxt with
    | some n => ":ipfrag_next=" ++ toString n
    | none => "")

def ipfragLabel (pre pos : String) (disorder : Bool) (nxt : Option Nat) : String :=
  pre ++ pos ++ (if disorder then "_disorder" else "") ++
    (match nxt with
    | some n => "_next" ++ toString n
    | none => "")

def skipNull (blobs : List String) : List String := blobs.filter (· ≠ "0x00000000")

def multisplitCore : String × Nat × String × String → Row
  | (pos, seqovl, fool, blob) =>
      ("std_split_" ++ pos ++ "_s" ++ toString seqovl ++ "_" ++ blob ++ "_" ++ foolName fool,
        "multisplit:pos=" ++ pos ++ ":seqovl=" ++ toString seqovl ++ ":seqovl_pattern=" ++ blob ++
          foolingClause fool)

def padRow (tmod : String) : Row :=
  ("std_seqovl_pad_" ++ takeText 12 tmod,
    "fake:blob=google:repeats=6:tls_mod=" ++ tmod ++ "\nmultisplit:pos=10,sniext+1:seqovl=1")

/-- The companions of all cores, known or not. -/
def famMultisplit (family : Axes) (scanLevel : String) : List Batch :=
  let p := fromFamily family
  let axes := p.positions ×ˢ p.seqovl ×ˢ p.foolings ×ˢ skipNull p.seqovlBlobs
  [{ rows := axes.map multisplitCore, returns := true },
    { rows := ttlRows multisplitCore axes p scanLevel [] },
    { rows := if family.padencap then ["rnd,dupsid,padencap", "rnd,dupsid"].map padRow else [] }]

def multidisorderRow : String × String × String → Row
  | (pos, fool, blob) =>
      ("std_mdis_" ++ pos ++ "_" ++ blob ++ "_" ++ foolName fool,
        "multidisorder:pos=" ++ pos ++ ":seqovl_pattern=" ++ blob ++ foolingClause fool)

def multidisorderSeqovlRow : String × String × String × Nat → Row
  | (pos, fool, blob, seqovl) =>
      ("std_mdis_" ++ pos ++ "_s" ++ toString seqovl ++ "_" ++ blob ++ "_" ++ foolName fool,
        "multidisorder:pos=" ++ pos ++ ":seqovl=" ++ toString seqovl ++ ":seqovl_pattern=" ++ blob ++
          foolingClause fool)

def famMultidisorder (family : Axes) : List Batch :=
  let p := fromFamily family
  [{ rows := (p.positions ×ˢ p.foolings ×ˢ p.seqovlBlobs).map multidisorderRow, returns := true },
    { rows := ((p.positions ×ˢ p.foolings ×ˢ p.seqovlBlobs ×ˢ p.seqovl).filter
        (fun (pos, _, _, seqovl) => disorderSeqovlOk pos seqovl)).map multidisorderSeqovlRow }]

def fakedCore (fn pre : String) : String × String × String × Nat → Row
  | (pos, blob, fool, r) =>
      (pre ++ "_p" ++ pos ++ "_" ++ blob ++ "_r" ++ toString r ++ "_" ++ foolName fool,
        fn ++ ":pos=" ++ pos ++ ":pattern=" ++ blob ++ foolingClause fool ++ ":repeats=" ++ toString r)

def famFakedCore (family : Axes) (fn pre : String) : List Batch :=
  let p := fromFamilyFooled family
  let axes := p.positions ×ˢ skipNull p.patternBlobs ×ˢ p.foolings ×ˢ p.repeats
  let ack := axes.filter (fun (_, _, fool, r) => p.ackDrop && fool == "tcp_ts=-1000" && r == 6)
  let md5 := axes.filter (fun (_, _, fool, r) => p.sendMd5 && contains fool.toList "tcp_md5" && r == 6)
  [{ rows := axes.map (fakedCore fn pre), returns := true },
    { rows := ackRows (fakedCore fn pre) ack ++ md5Rows (fakedCore fn pre) md5 }]

def famFakedsplit (family : Axes) : List Batch := famFakedCore family "fakedsplit" "std_fds"

def famFakeddisorder (family : Axes) : List Batch := famFakedCore family "fakeddisorder" "std_fdd"

def unequalPairs (pairs : List (String × String)) : List (String × String) := pairs.filter (fun p => p.1 ≠ p.2)

def multisplitLine (pos : String) (seqovl : Nat) (pattern fool : String) : String :=
  "multisplit:pos=" ++ pos ++ ":seqovl=" ++ toString seqovl ++ ":seqovl_pattern=" ++ pattern ++ foolingClause fool

def fakeMultisplitRow : (String × String) × String × Nat × Nat × String → Row
  | ((b, b'), pos, seqovl, r, fool) =>
      ("std_fms_" ++ b ++ "+" ++ b' ++ "_p" ++ pos ++ "_s" ++ toString seqovl ++ "_r" ++ toString r ++ "_" ++
          foolName fool,
        fakeLine b r fool ++ "\n" ++ multisplitLine pos seqovl b' fool)

def famFakeMultisplit (family : Axes) : List Batch :=
  let p := fromFamily family
  [{ rows := (unequalPairs p.blobPairs ×ˢ p.positions ×ˢ p.seqovl ×ˢ p.repeats ×ˢ p.foolings).map
      fakeMultisplitRow }]

def fakeMultisplitHostfakeRow : (String × String) × String × Nat × Nat × String × String → Row
  | ((b, b'), pos, seqovl, r, fool, host) =>
      ("std_fmsh_" ++ b ++ "+" ++ b' ++ "_p" ++ pos ++ "_s" ++ toString seqovl ++ "_h" ++ beforeMark '.' host ++
          "_r" ++ toString r ++ "_" ++ foolName fool,
        fakeLine b r fool ++ "\n" ++ multisplitLine pos seqovl b' fool ++ "\nhostfakesplit:host=" ++ host ++
          ":nofake2" ++ foolingClause fool ++ ":repeats=1")

def famFakeMultisplitHostfake (family : Axes) : List Batch :=
  let p := fromFamilyFooled family
  [{ rows := (unequalPairs p.blobPairs ×ˢ p.positions ×ˢ p.seqovl ×ˢ p.repeats ×ˢ p.foolings ×ˢ p.hfHosts).map
      fakeMultisplitHostfakeRow }]

def fakeFakedsplitRow : String × String × String × Nat × String → Row
  | (blob, pattern, pos, r, fool) =>
      ("std_ffds_" ++ blob ++ "+" ++ pattern ++ "_p" ++ pos ++ "_r" ++ toString r ++ "_" ++ foolName fool,
        fakeLine blob r fool ++ "\nfakedsplit:pos=" ++ pos ++ ":pattern=" ++ pattern ++ foolingClause fool)

def famFakeFakedsplit (family : Axes) : List Batch :=
  let p := fromFamilyFooled family
  [{ rows := (p.blobs ×ˢ p.patternBlobs ×ˢ p.positions ×ˢ p.repeats ×ˢ p.foolings).map fakeFakedsplitRow }]

def ipfragRow (kind : String) : String × Bool × Option Nat → Row
  | (pos, disorder, nxt) =>
      (ipfragLabel ("std_" ++ (if kind = "tcp" then "tcp" else "quic") ++ "_ipfrag_pos") pos disorder nxt,
        "send:ipfrag:" ++ ipfragOpts kind pos disorder nxt ++ "\ndrop")

def fakeIpfragRow (kind : String) : String × String × Nat × Bool → Row
  | (pos, blob, r, disorder) =>
      (ipfragLabel ("std_" ++ (if kind = "tcp" then "tcp" else "quic") ++ "_fake_ipfrag" ++
          (if kind = "tcp" then "_" ++ blob else "") ++ "_r" ++ toString r ++ "_pos") pos disorder none,
        "fake:blob=" ++ blob ++ ":repeats=" ++ toString r ++ "\nsend:ipfrag:" ++
          ipfragOpts kind pos disorder none ++ "\ndrop")

def famIpfrag (family : Axes) (kind : String) : List Batch :=
  let p := fromFamily family
  let blobs := family.comboBlobs.filter (· ≠ "")
  let blobs := if kind = "udp" ∧ blobs = [] then ["fake_default_quic"] else blobs
  [{ rows := (p.positions ×ˢ family.disorder ×ˢ family.ipfragNext).map (ipfragRow kind), returns := true },
    { rows := (p.positions ×ˢ blobs ×ˢ p.repeats ×ˢ family.disorder.take 1).map (fakeIpfragRow kind) }]

def famTcpIpfrag (family : Axes) : List Batch := famIpfrag family "tcp"

def famQuicIpfrag (family : Axes) : List Batch := famIpfrag family "udp"

/-! The tamper families. -/

def syndataRow : String × String × Bool → Row
  | (blob, tmod, plus) =>
      ("std_syn_" ++ (if blob = "" then "bare" else blob) ++ "_" ++
          (if takeText 15 tmod = "" then "nomod" else takeText 15 tmod) ++ (if plus then "_split" else ""),
        (if blob = "" then "syndata"
          else "syndata:blob=" ++ blob ++ (if tmod = "" then "" else ":tls_mod=" ++ tmod)) ++
          (if plus then "\nmultisplit:pos=1,midsld:seqovl=1" else ""))

def famSyndata (family : Axes) : List Batch :=
  let p := fromFamily family
  [{ rows := (p.blobs ×ˢ p.tlsMods ×ˢ family.plusSplit).map syndataRow, returns := true },
    { rows := if family.plusHostfake then
        [("std_syn_bare_hf_ts", "syndata\nhostfakesplit:nofake2:tcp_ts=-1000")] else [] }]

def tcpsegRow (ipId : String) : String × Nat → Row
  | (pos, r) => ("std_tcpseg_p" ++ pos ++ "_r" ++ toString r,
      "tcpseg:pos=" ++ pos ++ ":ip_id=" ++ ipId ++ ":repeats=" ++ toString r)

def famTcpseg (family : Axes) : List Batch :=
  let p := fromFamily family
  [{ rows := (p.positions ×ˢ p.repeats).map (tcpsegRow family.ipId) }]

def oobRow (inRange : Option String) (urp : String) : Row :=
  ("std_oob_urp" ++ urp,
    match inRange with
    | some range => "--in-range=" ++ range ++ "\noob:urp=" ++ urp
    | none => "oob:urp=" ++ urp)

def famOob (family : Axes) : List Batch := [{ rows := family.urps.map (oobRow family.inRange) }]

def genevaFoolRow : String × Nat → Row
  | (fool, r) => ("std_gva_" ++ replaceMarks ['=', ':'] fool ++ "_r" ++ toString r,
      "send:" ++ fool ++ ":repeats=" ++ toString r)

def famGenevaFool (family : Axes) : List Batch :=
  let p := fromFamily family
  [{ rows := (p.fools ×ˢ p.repeats).map genevaFoolRow }]

def famWssize (family : Axes) : List Batch :=
  [{ rows := family.sizes.map (fun size => ("std_wssize", size)), returns := true },
    { rows := if family.combos.any id then
        [("std_wssize_multisplit", family.sizes.headD "" ++ "\nmultisplit:pos=1:seqovl=1")] else [] }]

def httpSimpleRow (variant : String) : Row := ("std_http_" ++ replaceMarks [':'] variant, variant)

def famHttpSimple (family : Axes) : List Batch := [{ rows := family.variants.map httpSimpleRow }]

/-- A fake of three axes, under the label prefix of its family. -/
def fooledRow (pre : String) : String × Nat × String → Row
  | (blob, r, fool) => (pre ++ blob ++ "_r" ++ toString r ++ "_" ++ foolName fool, fakeLine blob r fool)

def famHttpFake (family : Axes) : List Batch :=
  let p := fromFamily family
  [{ rows := (p.blobs ×ˢ p.repeats ×ˢ p.foolings).map (fooledRow "std_http_fake_") }]

def famHttpTlsDual (family : Axes) : List Batch :=
  let p := fromFamily family
  [{ rows := (family.httpBlobs ×ˢ p.repeats ×ˢ p.foolings).map (fooledRow "std_http_tls_dual_") }]

def quicIp6Row (fool : String) : Row :=
  ("std_quic_ip6_" ++ replaceMarks [':'] fool, "--filter-l3=ipv6\n" ++ withIp6SendDrop fool)

def famQuicFake (family : Axes) : List Batch :=
  let p := fromFamily family
  [{ rows := (p.blobs ×ˢ p.repeats ×ˢ p.foolings).map (fooledRow "std_quic_fake_"), returns := true },
    { rows := if family.ip6SendDrop then family.ip6Fools.map quicIp6Row else [] }]

/-- A fake without a fooling. -/
def repeatedRow (pre : String) : String × Nat → Row
  | (blob, r) => (pre ++ blob ++ "_r" ++ toString r, "fake:blob=" ++ blob ++ ":repeats=" ++ toString r)

def famQuicGv (family : Axes) : List Batch :=
  let p := fromFamily family
  [{ rows := (p.blobs ×ˢ p.repeats).map (repeatedRow "std_quic_gv_") }]

def discordBlobs (p : Axes) : List String := if p.blobs = [] then ["discord_udp"] else p.blobs

/-- All automatic companions of a core have one name here. -/
def famUdpDiscord (family : Axes) : List Batch :=
  let p := fromFamily family
  let axes := discordBlobs p ×ˢ p.repeats
  [{ rows := axes.map (repeatedRow "std_udp_"), returns := true },
    { rows := axes.flatMap (fun a => ttlCompanionRows (fun _ => "autottl") p.ttlStatic (p.ttlAuto.getD [])
        (repeatedRow "std_udp_" a)) }]

def famUdpQuic (family : Axes) : List Batch :=
  let p := fromFamily family
  [{ rows := (p.blobs ×ˢ p.repeats).map (repeatedRow "std_udp_quic_") }]

def udpGameRow : String × Nat × Option String → Row
  | (blob, r, range) =>
      ("std_udp_game_" ++ blob ++ "_r" ++ toString r ++ "_" ++ range.getD "no",
        match range with
        | some range => "--out-range=" ++ range ++ "\nfake:blob=" ++ blob ++ ":repeats=" ++ toString r
        | none => "fake:blob=" ++ blob ++ ":repeats=" ++ toString r)

def famUdpGame (family : Axes) : List Batch :=
  let p := fromFamily family
  [{ rows := (p.blobs ×ˢ p.repeats ×ˢ (if p.outRange = [] then [none] else p.outRange)).map udpGameRow }]

def udpMultiblobRow : (String × String) × Nat → Row
  | ((b, b'), r) => ("std_udp_multiblob_" ++ b ++ "+" ++ b' ++ "_r" ++ toString r,
      "fake:blob=" ++ b ++ ":repeats=" ++ toString r ++ "\nfake:blob=" ++ b' ++ ":repeats=" ++ toString r)

def famUdpMultiblob (family : Axes) : List Batch :=
  let p := fromFamily family
  [{ rows := (p.profiles ×ˢ p.repeats).map udpMultiblobRow }]

end Blockchecks.FamilyExpanders
