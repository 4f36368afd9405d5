import Blockchecks.DomainLoader
import Blockchecks.OrderedDict
import Mathlib.Data.Rat.Defs

namespace Blockchecks.DnsSecure

open StrategyText OrderedDict DomainLoader

/-! The host of a URL, as urlsplit reads it. -/

def isSchemeChar (c : Char) : Bool := c.isAlphanum || c == '+' || c == '-' || c == '.'

def dropScheme (url : List Char) : List Char :=
  let scheme := url.takeWhile (· ≠ ':')
  if ':' ∈ url ∧ scheme.head?.any Char.isAlpha ∧ scheme.all isSchemeChar then url.drop (scheme.length + 1)
  else url

def netloc (url : List Char) : List Char :=
  let url := dropScheme ((url.dropWhile (fun c => c.toNat ≤ 0x20)).filter
    (fun c => c ≠ '\t' ∧ c ≠ '\r' ∧ c ≠ '\n'))
  if startsWith url "//" then (url.drop 2).takeWhile (fun c => c ≠ '/' ∧ c ≠ '?' ∧ c ≠ '#') else []

def urlHost (url : List Char) : List Char :=
  let hostinfo := ((netloc url).reverse.takeWhile (· ≠ '@')).reverse
  let host :=
    if '[' ∈ hostinfo then ((hostinfo.dropWhile (· ≠ '[')).drop 1).takeWhile (· ≠ ']')
    else hostinfo.takeWhile (· ≠ ':')
  host.map Char.toLower

structure Config where
  defaultDohServer : String := ""
  dohServers : List (String × String) :=
    [("https://cloudflare-dns.com/dns-query", "Cloudflare"), ("https://dns.google/dns-query", "Google"),
      ("https://dns.quad9.net/dns-query", "Quad9"), ("https://dns.adguard-dns.com/dns-query", "AdGuard"),
      ("https://dns.yandex.ru/dns-query", "Yandex")]
  untrustedDohUrls : List String := ["https://dns.yandex.ru/dns-query"]
  dnsCacheTtl : ℚ := 3600

/-- The addresses and the error of a query. -/
abbrev Answer := List String × String

def usable (answer : Answer) : Bool := !answer.1.isEmpty && answer.2 == ""

inductive Source where
  | answered (url : String)
  | stored
  deriving DecidableEq

/-- The addresses of a domain and when they were set; what they come from is
not in the code. -/
structure Entry where
  ips : List String
  ts : ℚ
  source : Source
  deriving DecidableEq

structure DnsRunCache where
  dohServer : String := ""
  entries : Dict String Entry := .empty
  pins : Dict String String := .empty

/-- An assignment that a call makes; prepare_dns_for_run begins a cache. -/
inductive Write where
  | fresh (dohServer : String)
  | server (url : String)
  | entry (domain : String) (e : Entry)
  | drop (domain : String)

def Write.apply (c : DnsRunCache) : Write → DnsRunCache
  | .fresh dohServer => { dohServer }
  | .server url => { c with dohServer := url }
  | .entry domain e => { c with entries := c.entries.set domain e }
  | .drop domain => { c with entries := c.entries.erase domain }

def applyAll (c : DnsRunCache) (writes : List Write) : DnsRunCache := writes.foldl Write.apply c

/-- What one resolution meets: the time when it looks and when it stores, the
answers to the probes of the servers, their answers for the domain, and the
records of the store. -/
structure Net where
  now : ℚ
  storedAt : ℚ
  probe : String → Answer
  ask : String → Answer
  records : List String

section config

variable (cfg : Config)

def dohIsTrusted (url : String) : Bool :=
  let u := rstripChar '/' url.toList
  !cfg.untrustedDohUrls.contains (String.ofList u) &&
    !(cfg.untrustedDohUrls.map (fun x => urlHost x.toList)).contains (urlHost u)

def trustedDohServers : List (String × String) := cfg.dohServers.filter (fun p => dohIsTrusted cfg p.1)

def pickCandidates : List String :=
  let first := if cfg.defaultDohServer ≠ "" ∧ dohIsTrusted cfg cfg.defaultDohServer then [cfg.defaultDohServer] else []
  addAll first ((trustedDohServers cfg).map Prod.fst)

def pickWorkingDoh (probe : String → Answer) : Option String :=
  (pickCandidates cfg).find? (fun url => usable (probe url))

/-- An expired entry is deleted where it is looked up. -/
def get (c : DnsRunCache) (domain : String) (now : ℚ) : List Write × Option (List String) :=
  match c.entries.get? domain with
  | none => ([], none)
  | some e => if cfg.dnsCacheTtl < now - e.ts then ([.drop domain], none) else ([], some e.ips)

def pinnedFirst (c : DnsRunCache) (domain : String) (ips : List String) : List String :=
  match c.pins.get? domain with
  | none => ips
  | some pin =>
      if pin = "" then ips
      else if pin ∉ ips then pin :: ips
      else if ips.head? ≠ some pin then pin :: ips.filter (· ≠ pin)
      else ips

/-- What follows a failed query: the other servers in turn, then the store. -/
def rotate (net : Net) (domain url : String) (ips : List String) : List Write × List String :=
  match ((trustedDohServers cfg).filter (fun p => p.1 ≠ url)).find? (fun p => usable (net.ask p.1)) with
  | some alt =>
      let ips := (net.ask alt.1).1
      ([.server alt.1, .entry domain ⟨ips, net.storedAt, .answered alt.1⟩], ips)
  | none =>
      if net.records ≠ [] then ([.entry domain ⟨net.records, net.storedAt, .stored⟩], net.records)
      else ([], ips)

/-- The URL that a resolution asks: the argument, the remembered server, or the
first that works. -/
def chooseUrl (net : Net) (c : DnsRunCache) (dohUrl : String) : Option String :=
  if dohUrl ≠ "" then some dohUrl
  else if c.dohServer ≠ "" then some c.dohServer
  else pickWorkingDoh cfg net.probe

/-- The assignments and the result of a resolution; no argument is empty. -/
def resolve (net : Net) (c : DnsRunCache) (domain dohUrl : String) : List Write × List String :=
  let (dropped, cached) := get cfg c domain net.now
  if cached.getD [] ≠ [] then (dropped, pinnedFirst c domain (cached.getD []))
  else match chooseUrl cfg net c dohUrl with
    | none => (dropped, pinnedFirst c domain [])
    | some url =>
        let remembered := if c.dohServer = "" then [.server url] else []
        let answer := net.ask url
        let (writes, ips) :=
          if usable answer then ([.entry domain ⟨answer.1, net.storedAt, .answered url⟩], answer.1)
          else rotate cfg net domain url answer.1
        (dropped ++ remembered ++ writes, pinnedFirst c domain ips)

def primaryIp (net : Net) (c : DnsRunCache) (domain dohUrl : String) : List Write × Option String :=
  let (writes, ips) := resolve cfg net c domain dohUrl
  (writes, ips.head?)

def candidates (lookedAt : ℚ) (net : Net) (c : DnsRunCache) (domain : String) : List Write × List String :=
  let (dropped, cached) := get cfg c domain lookedAt
  if cached.getD [] ≠ [] then (dropped, cached.getD [])
  else
    let (writes, ips) := resolve cfg net (applyAll c dropped) domain ""
    (dropped ++ writes, ips)

def resolveAll (nets : Nat → Net) (dohUrl : String) : Nat → DnsRunCache → List String → List Write
  | _, _, [] => []
  | n, c, domain :: domains =>
      let writes := (resolve cfg (nets n) c domain dohUrl).1
      writes ++ resolveAll nets dohUrl (n + 1) (applyAll c writes) domains

def prime (probe : String → Answer) (nets : Nat → Net) (c : DnsRunCache) (domains : List String)
    (dohUrl : String) : List Write :=
  let url := if dohUrl ≠ "" then some dohUrl else pickWorkingDoh cfg probe
  let remembered := (url.map Write.server).toList
  remembered ++ resolveAll cfg nets (url.getD "") 0 (applyAll c remembered) domains

structure PrepareArgs where
  secureDns : Bool := true
  skipAudit : Bool := false
  allowHijack : Bool := false
  dohServer : String := ""

/-- The sinkhole verdict of the audit, and the probes of the two picks. -/
structure PrepareNet where
  sinkhole : Bool
  probe : String → Answer
  primeProbe : String → Answer

def prepareDnsForRun (net : PrepareNet) (nets : Nat → Net) (domains : List String) (args : PrepareArgs) :
    List Write :=
  if !args.secureDns then []
  else
    let url := (if args.dohServer ≠ "" then some args.dohServer else pickWorkingDoh cfg net.probe).getD ""
    let begun := [Write.fresh url]
    if !args.skipAudit && net.sinkhole && !args.allowHijack then begun
    else begun ++ prime cfg net.primeProbe nets (applyAll {} begun) domains url

/-- A domain with a pin is not resolved. -/
def filterResolvableDomains (nets : Nat → Net) : Nat → DnsRunCache → List String → List Write
  | _, _, [] => []
  | n, c, domain :: domains =>
      let writes :=
        if (c.pins.get? domain).any (· ≠ "") then [] else (primaryIp cfg (nets n) c domain "").1
      writes ++ filterResolvableDomains nets (n + 1) (applyAll c writes) domains

inductive Call where
  | prepare (net : PrepareNet) (nets : Nat → Net) (domains : List String) (args : PrepareArgs)
  | prime (probe : String → Answer) (nets : Nat → Net) (domains : List String) (dohUrl : String)
  | resolve (net : Net) (domain dohUrl : String)
  | primaryIp (net : Net) (domain dohUrl : String)
  | candidates (lookedAt : ℚ) (net : Net) (domain : String)
  | filterResolvable (nets : Nat → Net) (domains : List String)

def Call.writes (c : DnsRunCache) : Call → List Write
  | .prepare net nets domains args => prepareDnsForRun cfg net nets domains args
  | .prime probe nets domains dohUrl => DnsSecure.prime cfg probe nets c domains dohUrl
  | .resolve net domain dohUrl => (DnsSecure.resolve cfg net c domain dohUrl).1
  | .primaryIp net domain dohUrl => (DnsSecure.primaryIp cfg net c domain dohUrl).1
  | .candidates lookedAt net domain => (DnsSecure.candidates cfg lookedAt net c domain).1
  | .filterResolvable nets domains => filterResolvableDomains cfg nets 0 c domains

end config

end Blockchecks.DnsSecure
