import Blockchecks.StrategyText
import Blockchecks.FailPhases

namespace Blockchecks.BlobFilter

open StrategyText TriageProfiles

def blobClassMap : List (String × String) :=
  [("stun", "stun"), ("stun2", "stun"), ("google", "tls_clienthello"),
    ("tls_clienthello", "tls_clienthello"), ("max_ru", "tls_clienthello"), ("4pda", "tls_clienthello"),
    ("tls_vk", "tls_clienthello"), ("tls_5ka", "tls_clienthello"), ("tls_funpay", "tls_clienthello"),
    ("tls_rzd", "tls_clienthello"), ("discord_udp", "discord_udp"), ("discord_ipdisc", "discord_udp"),
    ("game_udp", "game_udp"), ("quic_google", "quic"), ("quic_initial", "quic"), ("quic_dbank", "quic"),
    ("quic_4pda", "quic"), ("quic_vk", "quic"), ("quic_tencent", "quic"), ("quic_steam", "quic"),
    ("quic_5ka", "quic"), ("quic_rutube", "quic"), ("quic_funpay", "quic"), ("quic_cloudflare", "quic"),
    ("quic_alfabank", "quic"), ("quic_gv_kyber", "quic"), ("quic_gv_kyber_1", "quic"),
    ("quic_gv_kyber_2", "quic"), ("quic_gv_rr2", "quic")]

def blobClass (name : String) : String :=
  match blobClassMap.lookup name with
  | some cls => cls
  | none =>
      if startsWith name.toList "quic_" then "quic"
      else if startsWith name.toList "tls_" then "tls_clienthello"
      else "other"

def aliasesForClass (cls : String) : List String :=
  (blobClassMap.filter (fun e => e.2 == cls || e.1 == cls)).map Prod.fst

/-- An empty list of viable blobs means unknown and filters nothing. -/
def filterBlobAliases (aliases : List String) (profile : TriageProfile) (protocol : String) : List String :=
  if profile.viableBlobs.isEmpty then aliases
  else aliases.filter (fun a => decide (a ∈ profile.viableBlobs) || decide (blobClass a ∈ profile.viableBlobs) ||
    (decide (protocol ∈ ["udp_voice", "udp_game", "quic"]) &&
      decide (blobClass a ∈ ["discord_udp", "game_udp", "quic"])))

end Blockchecks.BlobFilter

namespace Blockchecks.FamilyRegistry

open StrategyText TriageProfiles BlobFilter

def triageTags (profile : TriageProfile) : List String :=
  ([("stall", profile.requiresWindowClamp), ("silent_drop", profile.silentDropAfterSni),
    ("rst_at_sni", profile.rstAtSni || profile.handshakePhase == .tlsRstAtSni),
    ("quic_drop", profile.quicDrop), ("udp_blocked", profile.udpBlocked)].filter Prod.snd).map Prod.fst

def triageToFamilies : List (String × List String) :=
  [("stall", ["wssize"]),
    ("silent_drop", ["fake", "hostfake", "fakedsplit", "multisplit", "multi_fake"]),
    ("rst_at_sni", ["multisplit", "fakedsplit", "multidisorder"]),
    ("quic_drop", ["quic_fake", "quic_ipfrag"]),
    ("udp_blocked", ["udp_discord"])]

def defaultFamilies : List String := ["fake", "hostfake", "fakedsplit", "multisplit"]

def familiesForProfile (profile : TriageProfile) : List String :=
  let families := (triageTags profile).flatMap (fun tag => (triageToFamilies.lookup tag).getD [])
  if families.isEmpty then defaultFamilies else families.eraseDups

def foolingKey (token : String) : String :=
  String.ofList ((token.toList.takeWhile (· ≠ '=')).takeWhile (· ≠ ':'))

def foolingEquiv : List (String × List String) :=
  [("tcp_seq", ["tcp_seq", "badsid"]), ("badsid", ["tcp_seq", "badsid"])]

def deadFoolingTokens (profile : TriageProfile) : List String :=
  (profile.deadFoolings.flatMap (fun fool =>
    (foolingEquiv.lookup (foolingKey fool)).getD [foolingKey fool])).eraseDups

def foolTokens : List String := ["badsum", "tcp_md5", "badsid", "tcp_ts", "tcp_seq", "tcp_ack", "send"]

/-- Where a dollar sign matches: at the end, or before a last line break. -/
def atEnd (text : List Char) : Bool := decide (text = [] ∨ text = ['\n'])

/-- A token before an equals sign or a colon, which the match takes along, or at the end. -/
def foolTokenAt (text : List Char) : Option (Nat × String) :=
  foolTokens.findSome? (fun token =>
    if startsWith text token then
      let rest := text.drop token.toList.length
      if startsWith rest "=" || startsWith rest ":" then some (token.toList.length + 1, token)
      else if atEnd rest then some (token.toList.length, token)
      else none
    else none)

def strategyFoolingKeys (strategy : String) : List String := finditer foolTokenAt strategy.toList

def posOk (pos mode : String) : Bool :=
  if mode = "first_byte" then !contains pos.toList "sniext"
  else if mode = "sni_marker" then pos != "1" && !startsWith pos.toList "1,"
  else true

def filterSplitPositions (positions : List String) (profile : Option TriageProfile) (scanLevel : String) :
    List String :=
  match profile with
  | none => positions
  | some profile =>
      if scanLevel = "full" ∨ profile.splitMode = "" then positions
      else positions.filter (posOk · profile.splitMode)

def ttlOk (strategy : String) (dpiHops serverHops : Option Int) : Bool :=
  if dpiHops = none ∧ serverHops = none then true
  else
    match search (assignment "ip_ttl=" Char.isDigit) strategy.toList with
    | none => true
    | some (_, digits) =>
        let ttl : Int := decimalValue digits
        !dpiHops.any (fun hops => decide (ttl < hops)) && !serverHops.any (fun hops => decide (hops ≤ ttl))

def blobOk (strategy : String) (profile : TriageProfile) (protocol : String) : Bool :=
  let aliases := finditer (assignment "blob=" isWordChar) strategy.toList
  aliases.isEmpty || profile.viableBlobs.isEmpty || !(filterBlobAliases aliases profile protocol).isEmpty

/-- Whether a strategy splits at plain numbers only. -/
def staticNumericSplit (strategy : String) : Bool :=
  let values := finditer (assignment "pos=" (· ≠ ':')) strategy.toList
  !values.isEmpty && values.all (fun value => !value.toList.any Char.isAlpha)

/-- The position of the first byte before a comma or at the end. -/
def posOneAt (text : List Char) : Option Unit :=
  if startsWith text "pos=1" then
    let rest := text.drop "pos=1".toList.length
    if startsWith rest "," || atEnd rest then some () else none
  else none

def itemSurvives (item : StrategyItem) (profile : TriageProfile) (dead : List String) (dpi server : Option Int)
    (contextual : Bool) (splitMode : String) : Bool :=
  let strategy := item.strategy
  let protocol := if item.protocol = "" then "tcp" else item.protocol
  if (strategyFoolingKeys strategy).any (fun key => decide (key ∈ dead)) then false
  else if !ttlOk strategy dpi server then false
  else if !blobOk strategy profile protocol then false
  else if contextual && staticNumericSplit strategy then false
  else if splitMode = "first_byte" ∧ contains strategy.toList "sniext" = true then false
  else !(decide (splitMode = "sni_marker") && (search posOneAt strategy.toList).isSome)

def pruneItemsByTriage (items : List StrategyItem) (profile : Option TriageProfile) (scanLevel : String) :
    List StrategyItem :=
  match profile with
  | none => items
  | some profile =>
      if !profile.bypassable then []
      else
        let full := decide (scanLevel = "full")
        items.filter (fun item => itemSurvives item profile (deadFoolingTokens profile)
          (if full then none else profile.dpiHops) (if full then none else profile.serverHops)
          profile.preferContextualSplit (if full then "" else profile.splitMode))

end Blockchecks.FamilyRegistry
