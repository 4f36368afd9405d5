import Blockchecks.ExportConf

namespace Blockchecks.ExportFilter

open StrategyText OrderedDict LuaConf NfqwsConfig ExportConf

def isHexDigit (c : Char) : Bool :=
  c.isDigit || decide ('a' ≤ c ∧ c ≤ 'f') || decide ('A' ≤ c ∧ c ≤ 'F')

def isHexBlob (name : String) : Bool :=
  let digits := name.toList.drop 2
  startsWith name.toList "0x" && !digits.isEmpty && digits.all isHexDigit

/-- ip_ttl or ip6_ttl with its value, up to a colon or the end of the core. -/
def ttlParam (text : List Char) : Option (Nat × Int) :=
  ["ip_ttl=", "ip6_ttl="].findSome? (fun keyword =>
    if startsWith text keyword then
      let value := text.drop keyword.toList.length
      let negative := startsWith value "-"
      let body := if negative then value.drop 1 else value
      let digits := body.takeWhile Char.isDigit
      let rest := body.drop digits.length
      let sign : Int := if negative then -1 else 1
      let length := keyword.toList.length + (if negative then 1 else 0) + digits.length
      if digits = [] then none
      else if rest = [] then some (length, sign * Nat.ofDigitChars 10 digits 0)
      else if startsWith rest ":" then some (length + 1, sign * Nat.ofDigitChars 10 digits 0)
      else none
    else none)

def colonTtlParam : List Char → Option (Nat × Int)
  | ':' :: rest => (ttlParam rest).map (fun p => (p.1 + 1, p.2))
  | _ => none

/-- Only the first match may begin where the core does. A match takes the colon
behind the value with it. -/
def ttlValues (core : List Char) : List Int :=
  match ttlParam core with
  | some (n, value) => value :: finditer colonTtlParam (core.drop n)
  | none => finditer colonTtlParam core

def coreTtlOk (core : List Char) : Bool := (ttlValues core).all (fun value => decide (0 ≤ value ∧ value ≤ 255))

/-- A whole value behind blob=, pattern= or seqovl_pattern=, with its compounds. -/
def exportReference (text : List Char) : Option (Nat × String) :=
  blobKeywords.findSome? (fun keyword => assignment keyword (fun c => !isSpace c && c != ':') text)

def components (value : String) : List String :=
  ((split value.toList "+").filter (· ≠ [])).map String.ofList

def blobExportOk (value : String) : Bool := (components value).all (fun p => isIdentifier p || isHexBlob p)

def exportRenames (strategy : String) : Renames :=
  ((extractBlobNames strategy).filter (fun name => name != safeBlobName name && !isHexBlob name)).foldl
    (fun renames name => renames.set name (safeBlobName name)) .empty

def renameExportBlobs (strategy : String) : String := applyBlobRenames strategy (exportRenames strategy)

section files

variable (confText : List Char → Option (List Char))

/-- The cores of a strategy, without its fragments of a command line. -/
def exportCores (strategy : String) : List ExportPart :=
  (strategyPartsForExport confText strategy).filter (fun part => !startsWith part.text "--")

def keepExportStrategy (strategy : String) : Option String :=
  if strategyPartsForExport confText strategy = [] then none
  else
    let cores := exportCores confText strategy
    if cores.any (fun core => !coreTtlOk core.text) then none
    else if (cores.flatMap (fun core => finditer exportReference core.text)).any (fun value => !blobExportOk value)
      then none
    else some strategy

def filterExportStrategies (strategies : List String) : List String :=
  strategies.filterMap (fun strategy => keepExportStrategy confText (renameExportBlobs strategy))

variable {confText}

theorem keep_iff (strategy kept : String) : keepExportStrategy confText strategy = some kept ↔
    kept = strategy ∧ strategyPartsForExport confText strategy ≠ [] ∧
      ∀ core ∈ exportCores confText strategy, coreTtlOk core.text = true ∧
        ∀ value ∈ finditer exportReference core.text, blobExportOk value = true := by
  have httl : (exportCores confText strategy).any (fun core => !coreTtlOk core.text) = false ↔
      ∀ core ∈ exportCores confText strategy, coreTtlOk core.text = true := by
    simp only [List.any_eq_false, Bool.not_eq_true', Bool.not_eq_false]
  have hblob : ((exportCores confText strategy).flatMap (fun core => finditer exportReference core.text)).any
        (fun value => !blobExportOk value) = false ↔ ∀ core ∈ exportCores confText strategy,
      ∀ value ∈ finditer exportReference core.text, blobExportOk value = true := by
    simp only [List.any_eq_false, Bool.not_eq_true', Bool.not_eq_false, List.forall_mem_flatMap]
  rw [keepExportStrategy]
  by_cases hparts : strategyPartsForExport confText strategy = []
  · rw [if_pos hparts]
    exact ⟨fun h => absurd h (Option.some_ne_none kept).symm, fun h => absurd hparts h.2.1⟩
  · rw [if_neg hparts]
    simp only [forall₂_and]
    rw [← httl, ← hblob]
    cases (exportCores confText strategy).any (fun core => !coreTtlOk core.text) with
    | true => exact ⟨fun h => absurd h (Option.some_ne_none kept).symm, fun h => Bool.noConfusion h.2.2.1⟩
    | false =>
        rw [if_neg Bool.false_ne_true]
        cases ((exportCores confText strategy).flatMap (fun core => finditer exportReference core.text)).any
          (fun value => !blobExportOk value) with
        | true => exact ⟨fun h => absurd h (Option.some_ne_none kept).symm, fun h => Bool.noConfusion h.2.2.2⟩
        | false =>
            rw [if_neg Bool.false_ne_true, Option.some.injEq]
            exact ⟨fun h => ⟨h.symm, hparts, rfl, rfl⟩, fun h => h.1.symm⟩

end files

end Blockchecks.ExportFilter
