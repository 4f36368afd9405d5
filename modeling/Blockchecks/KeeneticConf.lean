import Blockchecks.BlobScan

namespace Blockchecks.KeeneticConf

open StrategyText OrderedDict LuaConf NfqwsConfig ExportConf ExportFilter

def blobAliasMap : List (String × String) :=
  [("google", "tls_clienthello_www_google_com.bin"),
    ("tls_clienthello", "tls_clienthello_www_google_com.bin"),
    ("max_ru", "tls_clienthello_max_ru.bin"),
    ("stun", "stun.bin"),
    ("stun2", "stun2.bin"),
    ("4pda", "tls_clienthello_4pda_to.bin"),
    ("p4da", "tls_clienthello_4pda_to.bin"),
    ("discord_udp", "discord_udp.bin"),
    ("discord_ipdisc", "discord_ipdisc.bin"),
    ("quic_google", "quic_initial_www_google_com.bin"),
    ("quic_dbank", "quic_initial_dbankcloud_ru.bin"),
    ("quic_initial", "quic_initial.bin"),
    ("quic_4pda", "quic_4pda.bin"),
    ("quic_tencent", "quic_tencent.bin"),
    ("quic_steam", "quic_steam.bin"),
    ("quic_5ka", "quic_5ka.bin"),
    ("quic_rutube", "quic_rutube.bin"),
    ("tls_5ka", "tls_5ka.bin"),
    ("quic_funpay", "quic_funpay.bin"),
    ("quic_cloudflare", "quic_cloudflare.bin"),
    ("quic_alfabank", "quic_alfabank.bin"),
    ("tls_funpay", "tls_funpay.bin"),
    ("tls_rzd", "tls_rzd.bin"),
    ("quic_gv_kyber", "quic_gv_kyber_1.bin"),
    ("quic_gv_kyber_1", "quic_gv_kyber_1.bin"),
    ("quic_gv_kyber_2", "quic_gv_kyber_2.bin"),
    ("quic_gv_rr2", "quic_gv_rr2.bin"),
    ("tls_vk", "tls_clienthello_vk_com.bin"),
    ("quic_vk", "quic_initial_vk_com.bin"),
    ("game_udp", "game_udp.bin"),
    ("wireguard_init", "wireguard_init.bin"),
    ("http_iana", "http_iana.bin")]

def builtinBlobs : List String := ["fake_default_tls", "fake_default_http", "fake_default_quic"]

/-- The alias of which a name is the b-form, or the name. -/
def origName (name : String) : String :=
  match name.toList with
  | 'b' :: rest => if (blobAliasMap.lookup (String.ofList rest)).isSome then String.ofList rest else name
  | _ => name

def blobExportFilename (name : String) : Option String :=
  if name ∈ builtinBlobs ∨ name = "0x00000000" then none
  else
    let orig := origName name
    some (((blobAliasMap.lookup orig).or (blobAliasMap.lookup name)).getD (orig ++ ".bin"))

def exportIdent (name : String) : String :=
  let orig := origName name
  if (blobAliasMap.lookup orig).isSome then safeBlobName orig else name

def blobExportCliLine (name pre : String) : Option String :=
  (blobExportFilename name).map (fun file => "--blob=" ++ exportIdent name ++ ":@" ++ pre ++ "/blobs/" ++ file)

/-- Whether (?:^|:|=)fn: is found. -/
def usesFunction (text : List Char) (fn : String) : Bool :=
  startsWith text (fn ++ ":") || contains text (":" ++ fn ++ ":") || contains text ("=" ++ fn ++ ":")

/-- The manifest gives the functions of lua/custom and their files. -/
def customLuaFilesFor (manifest : List (String × String)) (cores : List String) : List String :=
  let blob := lower ("\n".intercalate cores)
  addAll [] ((manifest.filter (fun entry => usesFunction blob entry.1)).map Prod.snd)

def stockLuaNames : List String := ["zapret-lib.lua", "zapret-antidpi.lua", "zapret-auto.lua"]

def keeneticLuaInitLines (pre : String) (extra : List String) : List String :=
  (stockLuaNames ++ extra).map (fun name => "--lua-init=@" ++ pre ++ "/lua/" ++ name)

def circular : String := "circular:fails=2:time=300:retrans=3:nld=2"

def defaultUdpFilter : String := "590-600,1400,3478-3481,5349,19294-19344,49152-65535"

def defaultUdpPayload : String :=
  "wireguard_initiation,wireguard_response,wireguard_cookie,stun,discord_ip_discovery,mtproto_initial,unknown"

/-- What the shell variables of the conf hold, line by line. -/
structure KeeneticArgs where
  base : List String
  tcp : List String
  quic : List String
  udp : List String

def KeeneticArgs.lines (args : KeeneticArgs) : List String := args.base ++ args.tcp ++ args.quic ++ args.udp

/-- The arguments of build_keenetic_conf besides the strategies. -/
structure KeeneticOptions where
  pre : String
  ipsetFile : String
  ipsetIps : List String

def ipsetPart (options : KeeneticOptions) : List String :=
  if options.ipsetFile ≠ "" then ["--ipset=@" ++ options.pre ++ "/lists/user.ipset"]
  else if options.ipsetIps = [] then []
  else ["--ipset-ip=" ++ ",".intercalate options.ipsetIps]

section conf

variable (confText : List Char → Option (List Char)) (manifest : List (String × String))

def flattenExportStrategies (strategies : List String) : List String :=
  (strategies.flatMap (exportCores confText)).map (fun core => String.ofList core.text)

def exportBlobNames (strategies : List String) : List String :=
  addAll [] (((flattenExportStrategies confText strategies).flatMap (fun core =>
    finditer blobReference core.toList)).filter (· ≠ "0x00000000"))

def quicDefault (quic : List String) : List String :=
  if quic = [] then ["fake:blob=quic_initial:repeats=11"] else quic

def buildKeeneticConf (options : KeeneticOptions) (tcp udp quic : List String) : KeeneticArgs :=
  let quic := filterExportStrategies confText (quicDefault quic)
  let tcp := filterExportStrategies confText tcp
  let udp := filterExportStrategies confText udp
  let extraLua := customLuaFilesFor manifest (flattenExportStrategies confText (tcp ++ udp ++ quic))
  let blobNames := exportBlobNames confText (tcp ++ udp ++ quic)
  let blobParts := blobNames.filterMap (fun name => blobExportCliLine name options.pre)
  let tcpCircular := if flattenExportStrategies confText tcp = [] then []
    else ["--out-range=-s34228", "--in-range=-s5556 --lua-desync=" ++ circular, "--in-range=x"]
  let udpCircular := if flattenExportStrategies confText udp = [] then [] else ["--lua-desync=" ++ circular]
  { base := keeneticLuaInitLines options.pre extraLua ++ blobParts ++ ipsetPart options
    tcp := ["--filter-tcp=443,80,1984,5222", "--filter-l7=http,tls,mtproto",
        "--payload=tls_client_hello,mtproto_initial"] ++ tcpCircular ++ desyncCliLines confText tcp ++
      ["--payload=http_req", "--lua-desync=http_methodeol:badsum"]
    quic := ["--filter-udp=443", "--filter-l7=quic", "--payload=quic_initial"] ++ desyncCliLines confText quic
    udp := ["--filter-udp=" ++ defaultUdpFilter, "--filter-l7=" ++ defaultUdpL7, "--out-range=<n2",
        "--payload=" ++ defaultUdpPayload] ++ udpCircular ++ desyncCliLines confText udp }

end conf

end Blockchecks.KeeneticConf
