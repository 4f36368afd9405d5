import Blockchecks.NfqwsConfig

namespace Blockchecks.ExportConf

open StrategyText LuaConf NfqwsConfig

/-! The lines that the UDP probe of a namespace writes: in_ns_workers. -/

def isDigits (text : List Char) : Bool := !text.isEmpty && text.all Char.isDigit

def bounds (part : List Char) : List Char × List Char :=
  if '-' ∈ part then
    let upper := (part.dropWhile (· ≠ '-')).drop 1
    (part.takeWhile (· ≠ '-'), if upper = [] then part else upper)
  else (part, part)

def udpFilterCoversPort (spec : List Char) (port : Nat) : Bool :=
  (((split spec ",").map strip).filter (· ≠ [])).any (fun part =>
    let (lower, upper) := bounds part
    isDigits lower && isDigits upper && decide (Nat.ofDigitChars 10 lower 0 ≤ port) &&
      decide (port ≤ Nat.ofDigitChars 10 upper 0))

def voiceUdpFilterForPort (port : Nat) : String :=
  if udpFilterCoversPort voiceUdpFilter.toList port then voiceUdpFilter
  else voiceUdpFilter ++ "," ++ toString port

def ensureUdpFilterLines (lines : List String) (port : Nat) : List String :=
  let specs := (lines.filter (fun line => startsWith line.toList "--filter-udp=")).map
    (fun line => line.toList.drop "--filter-udp=".toList.length)
  if specs.any (udpFilterCoversPort · port) then lines
  else
    let afterQueue := (lines.findIdx? (fun line => startsWith line.toList "--qnum=")).map (· + 1)
    let insertAt := min (afterQueue.getD 1) lines.length
    lines.take insertAt ++ ["--filter-udp=" ++ voiceUdpFilterForPort port] ++ lines.drop insertAt

def udpBaseLines (env : Env) : List String :=
  ["--qnum=" ++ toString env.nfqueueUdp, "--filter-l3=ipv4", "--ipcache-lifetime=0",
    "--bind-fix4"] ++ luaInitLines env.luaInitScripts

def strategyCliTokens (strategy : String) : List String :=
  (((split strategy.toList "\n").map strip).filter (· ≠ [])).flatMap (fun line =>
    if startsWith line "--" then (splitCliArgs line).map String.ofList
    else [String.ofList ("--lua-desync=".toList ++ line)])

/-- The parameter is the path of discord_udp.bin, if it exists. -/
def udpBlobs (env : Env) (discordBlob : Option String) (strategy : String) (port : Nat) :
    List String × String :=
  let base := udpBaseLines env
  let lines := base.take 1 ++ ["--filter-udp=" ++ voiceUdpFilterForPort port] ++ base.drop 1
  let (lines, strategy) := addBlobsFromStrategy env lines strategy
  if lines.any (fun line => startsWith line.toList "--blob=") then (lines, strategy)
  else match discordBlob with
    | some blob => (lines ++ ["--blob=discord_udp:@" ++ blob], strategy)
    | none => (lines, strategy)

def inlineUdpLines (env : Env) (discordBlob : Option String) (strategy : String) (port : Nat) :
    List String :=
  let (lines, strategy) := udpBlobs env discordBlob strategy port
  ensureUdpFilterLines (lines ++ strategyCliTokens strategy) port

/-- The lines of _materialize_udp_conf for a strategy that is no conf file. -/
def materializeUdpConf (env : Env) (discordBlob : Option String) (strategy : String) (port : Nat) :
    List String :=
  if startsWith (strip strategy.toList) "--" then
    ensureUdpFilterLines (udpBaseLines env ++ strategyCliTokens strategy) port
  else inlineUdpLines env discordBlob strategy port

/-! The lines that an export writes: conf_builder. -/

/-- The text without a number at its end, as _STRATEGY_N_RE.sub leaves it. -/
def dropStrategyN (text : List Char) : List Char :=
  let digits := text.reverse.takeWhile Char.isDigit
  let before := text.reverse.dropWhile Char.isDigit
  if digits ≠ [] ∧ ":strategy=".toList.reverse.isPrefixOf before then
    (before.drop ":strategy=".toList.length).reverse
  else text

def looksLikeConfPath (text : List Char) : Bool :=
  let head := dropStrategyN (strip text)
  ".conf".toList.isSuffixOf head && head.contains '/'

def isLuaFunctionCore (text : List Char) : Bool :=
  !text.isEmpty && !startsWith text "/" && !startsWith text "--" &&
    isIdentifier (String.ofList (strip (text.takeWhile (· ≠ ':'))))

def isLineBreak (c : Char) : Bool :=
  decide (c.toNat ∈ [0x0a, 0x0b, 0x0c, 0x0d, 0x1c, 0x1d, 0x1e, 0x85, 0x2028, 0x2029])

/-- A part of a strategy, and whether its text was read from a conf file, where
it is escaped already. -/
structure ExportPart where
  text : List Char
  fromFile : Bool

def desyncValue (line : List Char) : List Char := line.drop "--lua-desync=".toList.length

section files

variable (confText : List Char → Option (List Char))

/-- The parameter gives the text of a file that can be read. -/
def luaDesyncCoresFromConf (path : List Char) : List ExportPart :=
  match confText (dropStrategyN (strip path)) with
  | none => []
  | some text =>
      let lines := (text.splitOnP isLineBreak).map strip
      let cores := (lines.filter (fun line => startsWith line "--lua-desync=")).map
        (fun line => strip (desyncValue line))
      (cores.filter isLuaFunctionCore).map (fun core => ⟨core, true⟩)

def exportPart (part : List Char) : List ExportPart :=
  if looksLikeConfPath part then luaDesyncCoresFromConf confText part
  else if startsWith part "--lua-desync=" then
    let core := strip (desyncValue part)
    if isLuaFunctionCore core then [⟨core, false⟩] else []
  else if startsWith part "--" then
    let cores := ((splitCliArgs part).filter (fun token => startsWith token "--lua-desync=" &&
      isLuaFunctionCore (desyncValue token))).map desyncValue
    if cores ≠ [] then cores.map (fun core => ⟨core, false⟩)
    else if '/' ∈ part then []
    else [⟨part, false⟩]
  else if isLuaFunctionCore part then [⟨part, false⟩]
  else []

def strategyPartsForExport (strategy : String) : List ExportPart :=
  let text := strip strategy.toList
  if text = [] then []
  else if looksLikeConfPath text then luaDesyncCoresFromConf confText text
  else (((split text "\n").map strip).filter (· ≠ [])).flatMap (exportPart confText)

end files

/-- Whether re.search finds a whole number after ":strategy=". -/
def hasStrategyN : List Char → Bool
  | [] => false
  | c :: cs =>
      let rest := (c :: cs).drop ":strategy=".toList.length
      let digits := rest.takeWhile Char.isDigit
      startsWith (c :: cs) ":strategy=" && !digits.isEmpty &&
        !(rest.drop digits.length).head?.any isWordChar || hasStrategyN cs

def ensureStrategyN (strategy : List Char) (n : Nat) : List Char :=
  let s := strip strategy
  if hasStrategyN s then s else s ++ (":strategy=" ++ toString n).toList

def exportLine (n : Nat) (part : ExportPart) : String :=
  if startsWith part.text "--" then String.ofList (sanitizeArgForConf part.text)
  else String.ofList ("--lua-desync=".toList ++ sanitizeArgForConf (ensureStrategyN part.text n))

def desyncCliLines (confText : List Char → Option (List Char)) (strategies : List String) :
    List String :=
  (strategies.zipIdx 1).flatMap (fun p =>
    (strategyPartsForExport confText p.1).map (exportLine p.2))

end Blockchecks.ExportConf
