import Blockchecks.DomainDeny

namespace Blockchecks.DnsWire

open StrategyText DomainLoader DomainDeny TextLines

/-! An exception of the source is none: an index or a slice outside the bytes, a label
length that is no byte, a name that no codec encodes. -/

def slice (data : List UInt8) (start stop : Nat) : List UInt8 := (data.drop start).take (stop - start)

def packH (n : Nat) : List UInt8 := [UInt8.ofNat (n / 256), UInt8.ofNat (n % 256)]

def packI (n : Nat) : List UInt8 := packH (n / 65536) ++ packH (n % 65536)

def unpackHH : List UInt8 → Option (Nat × Nat)
  | [a, b, c, d] => some (a.toNat * 256 + b.toNat, c.toNat * 256 + d.toNat)
  | _ => none

/-- The first and the last field of a record header; TTL and class are not used. -/
def unpackHHIH : List UInt8 → Option (Nat × Nat)
  | [a, b, _, _, _, _, _, _, c, d] => some (a.toNat * 256 + b.toNat, c.toNat * 256 + d.toNat)
  | _ => none

def isAscii (c : Char) : Bool := decide (c.toNat < 128)

/-- The idna codec gives ASCII text back as it is and refuses its empty and long labels;
other text is the codec's own affair. -/
def encodeIdna (idna : List Char → Option (List Char)) (text : List Char) : Option (List Char) :=
  if text.all isAscii then
    let labels := text.splitOn '.'
    if labels.dropLast.all (fun l => decide (0 < l.length ∧ l.length < 64)) ∧
        (labels.getLast?.all fun l => decide (l.length < 64)) then some text
    else none
  else idna text

def encodeAscii (text : List Char) : Option (List Char) := if text.all isAscii then some text else none

def domainToDnsAscii (idna : List Char → Option (List Char)) (domain : List Char) : Option (List Char) :=
  let text := rstripChar '.' (strip domain)
  if text = [] then some text
  else match (encodeIdna idna text).bind encodeAscii with
    | some encoded => some encoded
    | none => encodeAscii text

def asciiBytes (text : List Char) : List UInt8 := text.map (fun c => UInt8.ofNat c.toNat)

def encodeLabel (part : List Char) : Option (List UInt8) :=
  if part.length < 256 then some (UInt8.ofNat part.length :: asciiBytes part) else none

def buildDnsQuery (idna : List Char → Option (List Char)) (domain : List Char) (qtype : Nat) :
    Option (List UInt8) := do
  let header := [0x4242, 0x0100, 1, 0, 0, 0].flatMap packH
  let text ← domainToDnsAscii idna domain
  let labels ← ((text.splitOn '.').filter (· ≠ [])).mapM encodeLabel
  return header ++ (labels.flatten ++ [0] ++ (packH qtype ++ packH 1))

def skipFrom (data : List UInt8) : Nat → Nat → Option Nat
  | 0, offset => some offset
  | fuel + 1, offset =>
      if data.length ≤ offset then some offset
      else data[offset]?.bind (fun label =>
        if label = 0 then some (offset + 1)
        else if label &&& 0xC0 = 0xC0 then some (offset + 2)
        else skipFrom data fuel (offset + (1 + (label &&& 0x3F).toNat)))

def skipDnsName (data : List UInt8) (offset : Nat) : Option Nat := skipFrom data 128 offset

def skipQuestions (data : List UInt8) : Nat → Nat → Option Nat
  | 0, offset => some offset
  | count + 1, offset => (skipDnsName data offset).bind (fun offset => skipQuestions data count (offset + 4))

def dotted (octets : List UInt8) : String := ".".intercalate (octets.map (fun b => toString b.toNat))

def readAnswers (data : List UInt8) : Nat → Nat → List String → Option (List String)
  | 0, _, ips => some ips
  | count + 1, offset, ips => (skipDnsName data offset).bind (fun offset =>
      if data.length < offset + 10 then some ips
      else (unpackHHIH (slice data offset (offset + 10))).bind (fun fields =>
        let offset := offset + 10
        let ips := if fields.1 = 1 ∧ fields.2 = 4 ∧ offset + 4 ≤ data.length then
            ips ++ [dotted (slice data offset (offset + 4))]
          else ips
        readAnswers data count (offset + fields.2) ips))

def parseDnsResponse (data : List UInt8) : Option (List String) :=
  if data.length < 12 then some []
  else (unpackHH (slice data 4 8)).bind (fun counts =>
    if counts.2 = 0 then some []
    else (skipQuestions data counts.1 12).bind (fun offset => readAnswers data (min counts.2 20) offset []))

theorem length_slice {data : List UInt8} {start stop : Nat} (h : stop ≤ data.length) :
    (slice data start stop).length = stop - start := by
  rw [slice, List.length_take, List.length_drop]
  omega

theorem unpackHH_isSome {bytes : List UInt8} (h : bytes.length = 4) : ∃ fields, unpackHH bytes = some fields := by
  match bytes, h with
  | [_, _, _, _], _ => exact ⟨_, rfl⟩

theorem unpackHHIH_isSome {bytes : List UInt8} (h : bytes.length = 10) : ∃ fields, unpackHHIH bytes = some fields := by
  match bytes, h with
  | [_, _, _, _, _, _, _, _, _, _], _ => exact ⟨_, rfl⟩

theorem skipFrom_isSome (data : List UInt8) (fuel offset : Nat) : ∃ stop, skipFrom data fuel offset = some stop := by
  induction fuel generalizing offset with
  | zero => exact ⟨offset, rfl⟩
  | succ fuel ih =>
      rw [skipFrom]
      split
      · exact ⟨_, rfl⟩
      next hin =>
        rw [List.getElem?_eq_getElem (by omega), Option.bind_some]
        split
        · exact ⟨_, rfl⟩
        · split
          · exact ⟨_, rfl⟩
          · exact ih _

theorem skipQuestions_isSome (data : List UInt8) (count offset : Nat) :
    ∃ stop, skipQuestions data count offset = some stop := by
  induction count generalizing offset with
  | zero => exact ⟨offset, rfl⟩
  | succ count ih =>
      obtain ⟨stop, hstop⟩ := skipFrom_isSome data 128 offset
      rw [skipQuestions, skipDnsName, hstop, Option.bind_some]
      exact ih _

theorem readAnswers_isSome (data : List UInt8) (count offset : Nat) (ips : List String) :
    ∃ found, readAnswers data count offset ips = some found := by
  induction count generalizing offset ips with
  | zero => exact ⟨ips, rfl⟩
  | succ count ih =>
      obtain ⟨stop, hstop⟩ := skipFrom_isSome data 128 offset
      rw [readAnswers, skipDnsName, hstop, Option.bind_some]
      split
      · exact ⟨ips, rfl⟩
      next hin =>
        have hlen : (slice data stop (stop + 10)).length = 10 := by
          rw [length_slice (by omega)]
          omega
        obtain ⟨fields, hfields⟩ := unpackHHIH_isSome hlen
        rw [hfields, Option.bind_some]
        exact ih _ _

/-- No byte string raises. -/
theorem parseDnsResponse_isSome (data : List UInt8) : ∃ ips, parseDnsResponse data = some ips := by
  rw [parseDnsResponse]
  split
  · exact ⟨[], rfl⟩
  next hin =>
    have hlen : (slice data 4 8).length = 4 := length_slice (by omega)
    obtain ⟨counts, hcounts⟩ := unpackHH_isSome hlen
    rw [hcounts, Option.bind_some]
    split
    · exact ⟨[], rfl⟩
    · obtain ⟨offset, hoffset⟩ := skipQuestions_isSome data counts.1 12
      rw [hoffset, Option.bind_some]
      exact readAnswers_isSome _ _ _ _

end Blockchecks.DnsWire
