import Blockchecks.LuaConf
import Blockchecks.OrderedDict

namespace Blockchecks.NfqwsConfig

open StrategyText OrderedDict LuaConf

/-- What the builders read besides the strategies: the queue numbers, the
scripts that exist, and the path at which a blob is found. -/
structure Env where
  nfqueueTcp : Nat
  nfqueueUdp : Nat
  luaInitScripts : List String
  blobPath : String → Option String

def blobKeywords : List String := ["blob=", "pattern=", "seqovl_pattern="]

def blobReference (text : List Char) : Option (Nat × String) :=
  blobKeywords.findSome? (fun keyword => assignment keyword isWordChar text)

def extractBlobNames (strategy : String) : List String :=
  addAll [] ((finditer blobReference strategy.toList).filter (· ≠ "0x00000000"))

def isIdentifier (name : String) : Bool :=
  match name.toList with
  | [] => false
  | c :: cs => (c.isAlpha || c == '_') && cs.all isWordChar

def safeBlobName (name : String) : String := if isIdentifier name then name else "b" ++ name

abbrev Renames := Dict String String

def blobStep (env : Env) (state : List String × Renames) (name : String) : List String × Renames :=
  let (lines, renames) := state
  let safe := (renames.get? name).getD (safeBlobName name)
  let renames := if (renames.get? name).isSome then renames else renames.set name safe
  if safe = "" then (lines, renames)
  else if lines.any (fun line => startsWith line.toList ("--blob=" ++ safe ++ ":@")) then
    (lines, renames)
  else match env.blobPath name with
    | some path => (lines ++ ["--blob=" ++ safe ++ ":@" ++ path], renames)
    | none => (lines, renames.set name "")

def appendBlobCliLines (env : Env) (lines names : List String) : List String × Renames :=
  names.foldl (blobStep env) (lines, .empty)

/-- re.sub: the counter skips the rest of a match. -/
def subFrom (matchAt : List Char → Option (Nat × List Char)) : Nat → List Char → List Char
  | _, [] => []
  | skip + 1, _ :: cs => subFrom matchAt skip cs
  | 0, c :: cs => match matchAt (c :: cs) with
    | some (n, replacement) => replacement ++ subFrom matchAt (n - 1) cs
    | none => c :: subFrom matchAt 0 cs

def renameAt (orig safe : String) (text : List Char) : Option (Nat × List Char) :=
  (blobKeywords.find? (fun keyword => startsWith text (keyword ++ orig) &&
    !((text.drop (keyword ++ orig).toList.length).head?.any isWordChar))).map
    (fun keyword => ((keyword ++ orig).toList.length, (keyword ++ safe).toList))

def renameBlob (text : String) (entry : String × String) : String :=
  if entry.1 = "" ∨ entry.2 = "" ∨ entry.1 = entry.2 then text
  else String.ofList (subFrom (renameAt entry.1 entry.2) 0 text.toList)

def applyBlobRenames (text : String) (renames : Renames) : String :=
  renames.entries.foldl renameBlob text

def addBlobsFromStrategy (env : Env) (lines : List String) (strategy : String) :
    List String × String :=
  let (lines, renames) := appendBlobCliLines env lines (extractBlobNames strategy)
  (lines, applyBlobRenames strategy renames)

def defaultUdpL7 : String := "wireguard,stun,discord,mtproto,unknown"

def voiceUdpFilter : String := "50000-50100"

def filterLines (queue : Nat) (filter : String) (l7 payload : String) : List String :=
  ["--qnum=" ++ toString queue, filter, "--filter-l3=ipv4", "--filter-l7=" ++ l7,
    "--ipcache-lifetime=0", "--bind-fix4", "--payload=" ++ payload]

def buildFilterLines (env : Env) (protocol : String) : List String :=
  if protocol = "http" then filterLines env.nfqueueTcp "--filter-tcp=80" "http" "http_req"
  else if protocol = "quic" then
    filterLines env.nfqueueUdp "--filter-udp=443" "quic" "quic_initial"
  else if protocol = "udp_voice" then
    filterLines env.nfqueueUdp ("--filter-udp=" ++ voiceUdpFilter) "discord,stun"
      "discord_ip_discovery,stun,unknown"
  else if protocol = "udp_game" then
    filterLines env.nfqueueUdp "--filter-udp=1024-65535" defaultUdpL7 "unknown"
  else filterLines env.nfqueueTcp "--filter-tcp=443" "tls" "tls_client_hello"

def luaInitLines (scripts : List String) : List String := scripts.map ("--lua-init=@" ++ ·)

/-- The lines of a strategy in a conf of its own. -/
def inlineLines (strategy : String) : List String :=
  (split strategy.toList "\n").flatMap (fun rawLine =>
    let rawLine := strip rawLine
    if rawLine = [] then []
    else if startsWith rawLine "--" then
      (splitCliArgs rawLine).map (fun cli => String.ofList (sanitizeArgForConf cli))
    else [String.ofList ("--lua-desync=".toList ++ sanitizeArgForConf rawLine)])

def buildInlineNfqwsLines (env : Env) (strategy protocol extraLuaDesync : String) : List String :=
  let configLines := buildFilterLines env protocol ++ luaInitLines env.luaInitScripts
  let (configLines, strategy) := addBlobsFromStrategy env configLines strategy
  configLines ++ inlineLines strategy ++
    if extraLuaDesync = "" then []
    else [String.ofList ("--lua-desync=".toList ++ sanitizeArgForConf extraLuaDesync.toList)]

def cliLines (strategy : String) : List String :=
  (split strategy.toList "\n").flatMap (fun rawLine =>
    let rawLine := strip rawLine
    if rawLine = [] then []
    else (splitCliArgs rawLine).map (fun cli => String.ofList (sanitizeArgForConf cli)))

def buildQuicNfqwsLines (env : Env) (strategy : String) : List String :=
  if startsWith (strip strategy.toList) "--" then
    let configLines := ["--qnum=" ++ toString env.nfqueueUdp, "--filter-l3=ipv4",
      "--ipcache-lifetime=0", "--bind-fix4"] ++ luaInitLines env.luaInitScripts
    let (configLines, strategy) := addBlobsFromStrategy env configLines strategy
    configLines ++ cliLines strategy
  else
    let configLines := buildFilterLines env "quic" ++ luaInitLines env.luaInitScripts
    let (configLines, strategy) := addBlobsFromStrategy env configLines strategy
    configLines ++ inlineLines strategy

/-- What stands before the blobs and the strategies of a batch. -/
def bridgeHeader (env : Env) (ipcDir : String) (staged : List String) (protocol : String) :
    List String :=
  ["--writable=" ++ ipcDir] ++ luaInitLines env.luaInitScripts ++ luaInitLines staged ++
    buildFilterLines env protocol ++
    ["--lua-desync=bs_poll_strategy", "--lua-desync=smart_fallback", "--lua-desync=scan_pick"]

def bridgeRenames (env : Env) (lines : List String) (strategies : List String) :
    List String × Renames :=
  appendBlobCliLines env lines (strategies.flatMap extractBlobNames)

/-- The lines that build_bridge_conf joins. -/
def buildBridgeConf (env : Env) (strategies : List String) (ipcDir : String) (staged : List String)
    (protocol : String) : List String :=
  let (lines, renames) := bridgeRenames env (bridgeHeader env ipcDir staged protocol) strategies
  lines ++ (strategyBlocks (applyBlobRenames · renames) strategies).flatten

end Blockchecks.NfqwsConfig
