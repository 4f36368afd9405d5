import Blockchecks.FamilyRegistry
import Blockchecks.TriageRecord

namespace Blockchecks.FamilyAxes

open BlobFilter FamilyRegistry TriageRecord

/-- The strategy families, in the order of their registry. -/
inductive Family where
  | fake | rstFake | synack | genevaFool | wssize | hostfake | multisplit | multidisorder | syndata
  | tcpseg | oob | multiFake | tripleFake | fakeMultisplit | fakeMultidisorder
  | fakeMultisplitHostfake | fakeHostfake | fakedsplit | fakeddisorder | fakeFakedsplit | tcpIpfrag
  | httpSimple | httpFake | httpTlsDual
  | udpDiscord | udpMultiblob
  | quicFake | quicGv | quicIpfrag | udpQuic
  | udpGame
  deriving DecidableEq

namespace Family

def name : Family → String
  | fake => "fake"
  | rstFake => "rst_fake"
  | synack => "synack"
  | genevaFool => "geneva_fool"
  | wssize => "wssize"
  | hostfake => "hostfake"
  | multisplit => "multisplit"
  | multidisorder => "multidisorder"
  | syndata => "syndata"
  | tcpseg => "tcpseg"
  | oob => "oob"
  | multiFake => "multi_fake"
  | tripleFake => "triple_fake"
  | fakeMultisplit => "fake_multisplit"
  | fakeMultidisorder => "fake_multidisorder"
  | fakeMultisplitHostfake => "fake_multisplit_hostfake"
  | fakeHostfake => "fake_hostfake"
  | fakedsplit => "fakedsplit"
  | fakeddisorder => "fakeddisorder"
  | fakeFakedsplit => "fake_fakedsplit"
  | tcpIpfrag => "tcp_ipfrag"
  | httpSimple => "http_simple"
  | httpFake => "http_fake"
  | httpTlsDual => "http_tls_dual"
  | udpDiscord => "udp_discord"
  | udpMultiblob => "udp_multiblob"
  | quicFake => "quic_fake"
  | quicGv => "quic_gv"
  | quicIpfrag => "quic_ipfrag"
  | udpQuic => "udp_quic"
  | udpGame => "udp_game"

def protocol : Family → String
  | httpSimple | httpFake | httpTlsDual => "http"
  | udpDiscord | udpMultiblob => "udp_voice"
  | quicFake | quicGv | quicIpfrag | udpQuic => "quic"
  | udpGame => "udp_game"
  | _ => "tcp"

end Family

def registry : List Family :=
  [.fake, .rstFake, .synack, .genevaFool, .wssize, .hostfake, .multisplit, .multidisorder, .syndata, .tcpseg,
    .oob, .multiFake, .tripleFake, .fakeMultisplit, .fakeMultidisorder, .fakeMultisplitHostfake,
    .fakeHostfake, .fakedsplit, .fakeddisorder, .fakeFakedsplit, .tcpIpfrag, .httpSimple, .httpFake,
    .httpTlsDual, .udpDiscord, .udpMultiblob, .quicFake, .quicGv, .quicIpfrag, .udpQuic, .udpGame]

def familyAliases : List (String × String) :=
  [("ipfrag_tcp", "tcp_ipfrag"), ("ipfrag_udp", "quic_ipfrag")]

def resolveFamilyName (name : String) : String := (familyAliases.lookup name).getD name

/-- BY_NAME at a resolved name. -/
def byName (name : String) : Option Family := registry.find? (fun f => f.name == name)

/-- The families of a protocol; one that is not listed has those of TCP. -/
def familiesByProtocol (protocol : String) : List Family :=
  registry.filter (fun f => f.protocol ==
    if protocol ∈ ["udp_voice", "udp_game", "http", "quic"] then protocol else "tcp")

def allFoolingsTcp : List String :=
  ["", "tcp_md5", "badsum", "tcp_seq=-3000", "tcp_seq=1000000", "tcp_ack=-66000:tcp_ts_up",
    "tcp_ts=-1000", "tcp_flags_unset=ACK", "tcp_flags_set=SYN"]

def allFoolingsUdp : List String := ["badsum"]

def allFoolingsIpv6 : List String :=
  ["ip6_hopbyhop", "ip6_hopbyhop:ip6_hopbyhop2", "ip6_destopt", "ip6_routing", "ip6_ah"]

def fastFoolingsIpv6 : List String := ["ip6_hopbyhop", "ip6_destopt"]

def allRepeats : List Nat := [6, 3, 1, 8, 10, 11, 12, 2, 4, 5, 7, 9, 14, 15, 20]

def allTtl : List Nat := [1, 5, 7, 12, 63, 64, 127, 128, 255]

def allAutottl : List String := ["-1,3-20", "-2,5-15", "-3,7-12", "-4,3-20", "-5,5-15"]

def allSplitPositions : List String :=
  ["1", "2", "3", "23", "45", "midsld", "sniext+1", "sniext+4", "host+1", "1,midsld",
    "1,midsld,1220", "1,sniext+1,host+1,midsld-2,midsld,midsld+2,endhost-1"]

def allSeqovl : List Nat := [1, 568, 652, 664, 679, 681]

def tlsMods : List String :=
  ["", "rnd", "rnd,dupsid", "rnd,dupsid,padencap", "rnd,dupsid,sni=www.google.com",
    "rnd,dupsid,sni=fonts.google.com", "rnd,dupsid,sni=ya.ru"]

def allBlobsTcp : List String := ["0x00000000", "stun", "max_ru", "google", "4pda"]

def fastFoolingsTcp : List String :=
  ["tcp_ts=-1000", "", "tcp_md5", "badsum", "tcp_ack=-66000:tcp_ts_up", "tcp_md5:tcp_ts=-1000",
    "tcp_seq=-3000", "tcp_seq=1000000", "tcp_flags_unset=ACK", "tcp_flags_set=SYN"]

def fastRepeats : List Nat := [6, 8, 3, 11, 12, 4, 14]

/-- The axis table of a family. What a table leaves out has the default that the
expanders take for it. -/
structure Axes where
  blobs : List String := []
  repeats : List Nat := []
  foolings : List String := []
  ttlStatic : List Nat := []
  ttlAuto : Option (List String) := none
  tlsMods : List String := []
  ackDrop : Bool := false
  sendMd5 : Bool := false
  variants : List String := []
  positions : List String := []
  seqovl : List Nat := []
  seqovlBlobs : List String := []
  padencap : Bool := false
  plusSplit : List Bool := [false]
  plusHostfake : Bool := false
  ipId : String := "rnd"
  urps : List String := []
  inRange : Option String := none
  blobPairs : List (String × String) := []
  repeatPairs : Option (List (Nat × Nat)) := none
  triples : List (String × String × String) := []
  patternBlobs : List String := []
  hfHosts : List String := []
  hfVariants : List String := []
  comboBlobs : List String := [""]
  disorder : List Bool := [false]
  ipfragNext : List (Option Nat) := [none]
  mods : List String := ["rst:badsum"]
  flagFakes : List String := []
  modes : List String := ["synack"]
  sizes : List String := ["wssize:wsize=1:scale=6"]
  combos : List Bool := [false]
  fools : List String := []
  outRange : List (Option String) := []
  profiles : List (String × String) := []
  ip6SendDrop : Bool := false
  ip6Fools : List String := fastFoolingsIpv6
  httpBlobs : List String := []
  ipv6Extra : List String := []
  hosts : List String := []

/-- The fragment positions are numbers in the source, and read as texts. -/
def ipfragPositions : List String := ["8", "16", "24", "32", "40", "48", "64"]

/-- The table of a family, and with it FamilySpec.axes. -/
def axesFor : Family → Axes
  | .fake => {
      blobs := allBlobsTcp
      repeats := fastRepeats
      foolings := fastFoolingsTcp
      ttlStatic := allTtl
      ttlAuto := some allAutottl
      tlsMods := tlsMods.take 3
      ackDrop := true
      sendMd5 := true }
  | .hostfake => {
      foolings := (fastFoolingsTcp.take 5).filter (· ≠ "")
      variants := ["base", "disorder", "nofake1", "midhost=midsld", "nodrop"]
      ttlStatic := allTtl
      ttlAuto := some allAutottl
      ackDrop := true
      sendMd5 := true }
  | .multisplit => {
      repeats := [1, 6, 11]
      positions := allSplitPositions
      foolings := fastFoolingsTcp.take 4
      seqovl := allSeqovl
      seqovlBlobs := allBlobsTcp
      ttlStatic := allTtl
      ttlAuto := some allAutottl
      padencap := true }
  | .multidisorder => {
      positions := ["1", "2", "midsld", "method+2", "1,midsld"]
      foolings := fastFoolingsTcp.take 4
      seqovl := [664, 681]
      seqovlBlobs := allBlobsTcp
      padencap := true }
  | .syndata => {
      blobs := ["0x1603", "fake_default_tls", ""]
      tlsMods := ["", "rnd,dupsid", "rnd,dupsid,sni=www.google.com"]
      plusSplit := [false, true]
      plusHostfake := true }
  | .tcpseg => { positions := ["0,1", "0,midsld"], repeats := [1, 20, 100, 260], ipId := "rnd" }
  | .oob => { urps := ["b", "0", "2", "midsld"], inRange := some "-s1" }
  | .multiFake => {
      blobPairs := [("stun", "max_ru"), ("max_ru", "stun"), ("stun", "google"), ("google", "stun"),
        ("max_ru", "google"), ("google", "max_ru"), ("stun", "4pda"), ("4pda", "stun")]
      repeatPairs := some [(6, 6), (6, 3), (8, 6), (3, 6)]
      foolings := ["tcp_ts=-1000", "tcp_md5", "badsum", ""] }
  | .tripleFake => {
      triples := [("stun", "max_ru", "google"), ("stun", "google", "max_ru"),
        ("max_ru", "stun", "google"), ("google", "stun", "max_ru")]
      repeats := [6, 3]
      foolings := ["tcp_ts=-1000", "badsum", ""] }
  | .fakeMultisplit => {
      blobPairs := [("stun", "max_ru"), ("stun", "google"), ("max_ru", "google"), ("stun", "4pda"),
        ("google", "max_ru"), ("4pda", "google")]
      patternBlobs := allBlobsTcp
      seqovl := [664, 681, 652]
      positions := ["2", "1,midsld", "midsld"]
      repeats := [6, 3, 8]
      foolings := ["tcp_ts=-1000", "tcp_md5", "badsum", ""] }
  | .fakeMultisplitHostfake => {
      blobPairs := [("google", "max_ru"), ("stun", "max_ru"), ("stun", "google"), ("max_ru", "google")]
      seqovl := [664, 681]
      positions := ["1", "2"]
      repeats := [6, 8]
      foolings := ["tcp_ts=-1000", "tcp_md5", "badsum"]
      hfHosts := ["www.google.com", "fonts.google.com"] }
  | .fakeMultidisorder => {
      blobs := allBlobsTcp
      positions := ["1", "2", "midsld", "method+2"]
      repeats := [6, 3, 8, 11]
      foolings := ["tcp_ts=-1000", "tcp_md5", "badsum", ""] }
  | .fakedsplit => {
      positions := ["1", "midsld", "sniext+1", "method+2"]
      patternBlobs := allBlobsTcp
      foolings := (fastFoolingsTcp.take 4).filter (· ≠ "")
      repeats := [6, 11]
      ackDrop := true
      sendMd5 := true }
  | .fakeddisorder => {
      positions := ["1", "midsld", "method+2"]
      patternBlobs := allBlobsTcp
      foolings := (fastFoolingsTcp.take 4).filter (· ≠ "")
      repeats := [6, 11]
      ackDrop := true
      sendMd5 := true }
  | .fakeFakedsplit => {
      blobs := allBlobsTcp
      positions := ["1", "midsld", "method+2"]
      patternBlobs := allBlobsTcp
      repeats := [6, 3, 8]
      foolings := ["tcp_ts=-1000", "tcp_md5", "badsum"] }
  | .tcpIpfrag => {
      positions := ipfragPositions
      repeats := [6, 11, 4]
      comboBlobs := ["", "stun", "google"]
      disorder := [false, true]
      ipfragNext := [none, some 255] }
  | .fakeHostfake => {
      blobs := allBlobsTcp
      repeats := [6, 3, 8, 11, 2]
      foolings := ["tcp_ts=-1000", "tcp_md5", "badsum"]
      hfVariants := ["base", "disorder_after"]
      ackDrop := true
      sendMd5 := true }
  | .rstFake => {
      mods := ["rst:badsum", "rst:ip_ttl=10", "rst:ip_ttl=1", "rst:tcp_md5", "rst:rstack:badsum",
        "rst:rstack:ip_ttl=10", "rst:rstack:ip_ttl=1", "rst:badsum:tcp_md5"]
      flagFakes := ["send:tcp_flags_set=FIN,RST,ACK,PSH,URG,ECE:badsum",
        "send:tcp_flags_set=FIN,RST,ECE,ACK,CWR:ip_ttl=10",
        "send:tcp_flags_set=FIN,RST,ACK,PSH,URG:tcp_md5", "send:tcp_flags_set=FIN:tcp_md5"] }
  | .synack => { modes := ["synack", "synack", "acksyn"], foolings := [""] }
  | .wssize => { sizes := ["wssize:wsize=1:scale=6"], combos := [false, true] }
  | .genevaFool => {
      fools := ["fool=bs_dataofs:badsum", "fool=bs_dataofs:ip_ttl=10", "fool=bs_iplen:len=64",
        "fool=bs_iplen:len=78", "fool=bs_corrupt_load", "fool=bs_corrupt_load:badsum",
        "fool=bs_corrupt_load:ip_ttl=8", "fool=bs_corrupt_wscale", "fool=bs_corrupt_uto"]
      repeats := [1, 2] }
  | .udpDiscord => {
      blobs := ["discord_udp", "stun"]
      repeats := [6, 12, 3, 2]
      ttlStatic := [5]
      ttlAuto := some ["-2,3-20"] }
  | .udpQuic => {
      blobs := ["quic_google", "quic_dbank", "quic_gv_kyber_1", "quic_gv_kyber_2"]
      repeats := [1, 2, 5, 6, 10, 11, 20] }
  | .udpGame => {
      blobs := ["quic_initial_dbankcloud_ru", "game_udp"]
      repeats := [10, 12, 14]
      outRange := [none, some "n1-<n3", some "n1-<n4", some "n1-<n5"] }
  | .udpMultiblob => {
      profiles := [("stun", "discord_udp"), ("quic_dbank", "discord_udp"), ("game_udp", "discord_udp")]
      repeats := [6, 10, 12] }
  | .httpSimple => {
      variants := ["http_hostcase", "http_methodeol", "http_hostcase:spell=hoSt", "http_domcase",
        "http_unixeol"] }
  | .httpFake => {
      blobs := ["fake_default_http", "0x00000000"]
      repeats := fastRepeats.take 4
      foolings := fastFoolingsTcp.take 4 }
  | .httpTlsDual => {
      httpBlobs := ["fake_default_http"]
      repeats := [6, 3]
      foolings := ["tcp_ts=-1000", "badsum", ""] }
  | .quicFake => {
      blobs := ["fake_default_quic", "quic_initial", "quic_google", "quic_vk"]
      repeats := [1, 2, 5, 6, 10, 11, 20]
      foolings := ["", "badsum"]
      ip6SendDrop := true }
  | .quicGv => {
      blobs := ["quic_gv_kyber_1", "quic_gv_kyber_2", "quic_google"]
      repeats := [1, 2, 5, 6, 11] }
  | .quicIpfrag => {
      positions := ipfragPositions
      repeats := [6, 11, 4]
      disorder := [false, true]
      ipfragNext := [none, some 255] }

def mutFullFake (fam : Axes) : Axes := { fam with
  repeats := allRepeats.filter (fun r => r ≠ 100 ∧ r ≠ 260)
  foolings := allFoolingsTcp ++ allFoolingsIpv6
  tlsMods := FamilyAxes.tlsMods }

def mutFullTcpFools (fam : Axes) : Axes :=
  { fam with foolings := (fam.foolings ++ allFoolingsTcp).eraseDups }

/-- Every table that this one is applied to has foolings. -/
def mutFullQuicFake (fam : Axes) : Axes := { fam with
  foolings := (fam.foolings ++ allFoolingsUdp).eraseDups
  ip6Fools := allFoolingsIpv6 }

def mutFullUdpDiscord (fam : Axes) : Axes := { fam with
  repeats := [2, 3, 4, 6, 8, 10, 12, 14]
  ttlStatic := [5, 8]
  ttlAuto := some ["-2,3-20", "-1,2-10"] }

def mutFastFake (fam : Axes) : Axes := { fam with ipv6Extra := fastFoolingsIpv6 }

/-- _SCAN_MUTATORS, which change nothing at the levels they do not name. -/
def scanMutator (scanLevel : String) (family : Family) (fam : Axes) : Axes :=
  if scanLevel = "full" then
    match family with
    | .fake => mutFullFake fam
    | .hostfake | .fakedsplit | .fakeddisorder | .fakeHostfake | .httpFake => mutFullTcpFools fam
    | .quicFake => mutFullQuicFake fam
    | .udpDiscord => mutFullUdpDiscord fam
    | _ => fam
  else if scanLevel = "fast" then
    match family with
    | .fake => mutFastFake fam
    | _ => fam
  else fam

/-- The fooling axis without the values that the grid proved dead. -/
def filterFoolingValues (fools : List String) (profile : Profile) : List String :=
  let dead := deadFoolingTokens profile.toTriageProfile
  fools.filter (fun fool => !(strategyFoolingKeys (":" ++ fool)).any (fun key => decide (key ∈ dead)))

def filterTtlValues (ttls : List Nat) (profile : Profile) (scanLevel : String) : List Nat :=
  if scanLevel = "full" then ttls
  else ttls.filter (fun ttl => ttlOk ("ip_ttl=" ++ toString ttl) profile.dpiHops profile.serverHops)

/-- A family without blobs, foolings or positions has them empty here, which no
filter changes. -/
def applyTriageAxes (fam : Axes) (triage : Profile) (scanLevel protocol : String) : Axes := { fam with
  foolings := filterFoolingValues fam.foolings triage
  blobs := filterBlobAliases fam.blobs triage.toTriageProfile protocol
  ttlStatic := filterTtlValues fam.ttlStatic triage scanLevel
  positions := filterSplitPositions fam.positions (some triage.toTriageProfile) scanLevel
  hosts := if triage.viableHosts = [] then fam.hosts else triage.viableHosts.eraseDups.take 8
  ttlAuto := match fam.ttlAuto, triage.autottlDelta with
    | some auto, some delta => some (toString delta :: auto).eraseDups
    | auto, _ => auto }

/-- The axes that generate expands a family with. -/
def prepared (triage : Option Profile) (scanLevel protocol : String) (family : Family) : Axes :=
  let fam := scanMutator scanLevel family (axesFor family)
  match triage with
  | some triage => applyTriageAxes fam triage scanLevel protocol
  | none => fam

end Blockchecks.FamilyAxes
