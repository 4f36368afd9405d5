import Blockchecks.LuaConf
import Mathlib.Data.List.Nodup

namespace Blockchecks.DomainLoader

open StrategyText LuaConf

def isOctet (text : List Char) : Bool :=
  !text.isEmpty && text.all Char.isDigit && decide (text.length ≤ 3) &&
    (decide (text.length = 1) || text.head? != some '0') && decide (Nat.ofDigitChars 10 text 0 ≤ 255)

/-- An IPv6 address has a colon in it, and is no name either. -/
def isLiteralIp (token : List Char) : Bool :=
  let octets := split token "."
  decide (octets.length = 4) && octets.all isOctet

def isLabelChar (c : Char) : Bool := decide ('a' ≤ c ∧ c ≤ 'z') || c.isDigit

def isLabel (text : List Char) : Bool :=
  text.head?.any isLabelChar && text.getLast?.any isLabelChar && decide (text.length ≤ 63) &&
    text.all (fun c => isLabelChar c || c == '-')

def isFqdn (text : List Char) : Bool :=
  let labels := split text "."
  decide (2 ≤ labels.length) && labels.all isLabel

def rstripChar (c : Char) (text : List Char) : List Char := (text.reverse.dropWhile (· == c)).reverse

/-- The lower case of a character, as far as a name can tell: beyond ASCII only the Kelvin
sign has an ASCII letter for it, and what has another one is in no name. -/
def lowerChar (c : Char) : Char := if c = '\u212a' then 'k' else c.toLower

def canonicalizeProbeDomain (raw : String) : Option String :=
  let s := strip raw.toList
  if s = [] then none
  else if contains s "://" || s.contains '*' || s.any isSpace then none
  else if isLiteralIp s then none
  else
    let s := if s.getLast? = some '/' then rstripChar '/' s else s
    let folded := rstripChar '.' (s.map lowerChar)
    if isFqdn folded then some (String.ofList folded) else none

def keepDomain (kept : List String) (raw : String) : List String :=
  match canonicalizeProbeDomain raw with
  | none => kept
  | some fqdn => if fqdn ∈ kept then kept else kept ++ [fqdn]

def filterProbeDomains (domains : List String) : List String := domains.foldl keepDomain []

def beforeHash (line : List Char) : List Char := strip (line.takeWhile (· ≠ '#'))

/-- The text of a file, with its lines ended by line feeds. -/
def readDomainLines (text : List Char) : List String :=
  (((split text "\n").map strip).filter (fun line => !line.isEmpty && !startsWith line "#")).filterMap
    (fun line => if beforeHash line = [] then none else some (String.ofList (beforeHash line)))

structure DenylistEntry where
  domain : String
  category : String
  deriving DecidableEq

def parseDenylistFile (text : List Char) : List DenylistEntry :=
  (((split text "\n").map strip).filter (fun raw => !raw.isEmpty && !startsWith raw "#")).filterMap (fun raw =>
    let domain := if '#' ∈ raw then (beforeHash raw).map lowerChar else raw.map lowerChar
    let category := if '#' ∈ raw then strip ((raw.dropWhile (· ≠ '#')).drop 1) else []
    if domain = [] then none else some ⟨String.ofList domain, String.ofList category⟩)

/-- Of the entries of a domain the last stands, in the place of the first. -/
def loadDenylist (bundled user : List Char) : List DenylistEntry :=
  (parseDenylistFile bundled ++ parseDenylistFile user).foldl (fun merged entry =>
    if merged.any (fun e => e.domain = entry.domain) then
      merged.map (fun e => if e.domain = entry.domain then entry else e)
    else merged ++ [entry]) []

def denyKey (domain : String) : String := String.ofList ((domain.toList.map lowerChar).takeWhile (· ≠ '/'))

def applyDenylist (domains : List String) (denylist : List DenylistEntry) (allowUnsafe : Bool) :
    List String × List DenylistEntry :=
  if allowUnsafe ∨ domains = [] ∨ denylist = [] then (domains, [])
  else
    (domains.filter (fun d => !denylist.any (fun e => e.domain = denyKey d)),
      domains.filterMap (fun d => denylist.reverse.find? (fun e => e.domain = denyKey d)))

/-- The domains of a run over a domains file; empty when the run is refused. -/
def loadRunDomains (domainsFile : List Char) (denylist : List DenylistEntry) (allowUnsafe : Bool) :
    List String :=
  filterProbeDomains (applyDenylist (readDomainLines domainsFile) denylist allowUnsafe).1

theorem keepDomain_spec {kept : List String} (hkept : kept.Nodup) (raw : String) :
    (keepDomain kept raw).Nodup ∧ (keepDomain kept raw).length ≤ kept.length + 1 := by
  rw [keepDomain]
  split
  · exact ⟨hkept, Nat.le_succ _⟩
  · split
    · exact ⟨hkept, Nat.le_succ _⟩
    next hnew =>
      refine ⟨?_, ?_⟩
      · rw [← List.concat_eq_append]
        exact List.Nodup.concat hnew hkept
      · exact Nat.le_of_eq List.length_append

theorem foldl_keepDomain (domains : List String) {kept : List String} (hkept : kept.Nodup) :
    (domains.foldl keepDomain kept).Nodup ∧
      (domains.foldl keepDomain kept).length ≤ kept.length + domains.length := by
  induction domains generalizing kept with
  | nil => exact ⟨hkept, Nat.le_refl _⟩
  | cons raw domains ih =>
      obtain ⟨hnodup, hlength⟩ := keepDomain_spec hkept raw
      obtain ⟨hrest, hbound⟩ := ih hnodup
      rw [List.foldl_cons, List.length_cons]
      exact ⟨hrest, by omega⟩

/-- Canonical spellings come once, and no more of them than there are lines. -/
theorem filterProbeDomains_spec (domains : List String) :
    (filterProbeDomains domains).Nodup ∧ (filterProbeDomains domains).length ≤ domains.length := by
  obtain ⟨hnodup, hlength⟩ := foldl_keepDomain domains List.nodup_nil
  rw [List.length_nil, Nat.zero_add] at hlength
  exact ⟨hnodup, hlength⟩

theorem applyDenylist_length (domains : List String) (denylist : List DenylistEntry) (allowUnsafe : Bool) :
    (applyDenylist domains denylist allowUnsafe).1.length ≤ domains.length := by
  rw [applyDenylist]
  split
  · exact Nat.le_refl _
  · exact List.length_filter_le _ _

theorem loadRunDomains_spec (domainsFile : List Char) (denylist : List DenylistEntry) (allowUnsafe : Bool) :
    (loadRunDomains domainsFile denylist allowUnsafe).Nodup ∧
      (loadRunDomains domainsFile denylist allowUnsafe).length ≤ (readDomainLines domainsFile).length := by
  obtain ⟨hnodup, hlength⟩ := filterProbeDomains_spec
    (applyDenylist (readDomainLines domainsFile) denylist allowUnsafe).1
  exact ⟨hnodup, Nat.le_trans hlength (applyDenylist_length _ _ _)⟩

end Blockchecks.DomainLoader
