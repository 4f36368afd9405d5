import Blockchecks.DnsWire
import Blockchecks.TextFile
import Mathlib.Algebra.BigOperators.Group.List.Basic
import Mathlib.Algebra.GroupWithZero.Nat

namespace Blockchecks.DnsTrip

open StrategyText DomainLoader DomainDeny TextLines DnsWire

/-- The labels of a name as RFC 1035 bounds them; the total counts length octets too. -/
structure Sized {α : Type} (labels : List (List α)) : Prop where
  sizes : ∀ label ∈ labels, 0 < label.length ∧ label.length < 64
  total : (labels.map (fun label => label.length + 1)).sum ≤ 255

structure HostName where
  labels : List (List Char)
  sized : Sized labels
  chars : ∀ label ∈ labels, ∀ c ∈ label, isAscii c = true ∧ c ≠ '.' ∧ isSpace c = false

def HostName.text (name : HostName) : List Char := ['.'].intercalate name.labels

def wireLabels (labels : List (List UInt8)) : List UInt8 :=
  labels.flatMap (fun label => UInt8.ofNat label.length :: label)

/-- How a name ends: with the root, or with a pointer to the rest of it. -/
inductive NameEnd where
  | root
  | pointer (high low : UInt8) (isPointer : high &&& 0xC0 = 0xC0)

def NameEnd.bytes : NameEnd → List UInt8
  | .root => [0]
  | .pointer high low _ => [high, low]

structure Owner where
  labels : List (List UInt8)
  sized : Sized labels
  last : NameEnd

def Owner.bytes (owner : Owner) : List UInt8 := wireLabels owner.labels ++ owner.last.bytes

/-- An answer record; the data of an A record is an address. -/
structure Record where
  owner : Owner
  rtype : UInt16
  rclass : UInt16
  ttl : UInt32
  rdata : List UInt8
  size : rdata.length < 65536
  address : rtype = 1 → rdata.length = 4

def Record.fields (record : Record) : List UInt8 :=
  packH record.rtype.toNat ++ (packH record.rclass.toNat ++ (packI record.ttl.toNat ++ packH record.rdata.length))

def Record.bytes (record : Record) : List UInt8 := record.owner.bytes ++ (record.fields ++ record.rdata)

def addresses (records : List Record) : List String :=
  (records.filter (fun record => decide (record.rtype = 1))).map (fun record => dotted record.rdata)

/-- A header with one question and so many answers; the other fields are free. -/
def responseHeader (id flags nscount arcount : UInt16) (ancount : Nat) : List UInt8 :=
  [id.toNat, flags.toNat, 1, ancount, nscount.toNat, arcount.toNat].flatMap packH

theorem Sized.count {α : Type} {labels : List (List α)} (h : Sized labels) : labels.length < 128 := by
  have hsum : 2 * labels.length ≤ (labels.map (fun label => label.length + 1)).sum := by
    have hsizes := h.sizes
    clear h
    induction labels with
    | nil => exact Nat.le_refl 0
    | cons label labels ih =>
        have hlabel := hsizes label List.mem_cons_self
        have hrest := ih fun l hl => hsizes l (List.mem_cons_of_mem _ hl)
        rw [List.map_cons, List.sum_cons, List.length_cons]
        omega
  have htotal := h.total
  omega

theorem label_byte {n : Nat} (h : n < 64) : UInt8.ofNat n &&& 0xC0 ≠ 0xC0 ∧ (UInt8.ofNat n &&& 0x3F).toNat = n ∧
    (0 < n → UInt8.ofNat n ≠ 0) := by
  have hall : ∀ n : Fin 64, UInt8.ofNat n &&& 0xC0 ≠ 0xC0 ∧ (UInt8.ofNat n &&& 0x3F).toNat = n ∧
      (0 < n.val → UInt8.ofNat n ≠ 0) := by decide
  exact hall ⟨n, h⟩

theorem getElem?_middle {pre rest : List UInt8} {b : UInt8} : (pre ++ b :: rest)[pre.length]? = some b := by
  rw [List.getElem?_append_right (Nat.le_refl _), Nat.sub_self, List.getElem?_cons_zero]

/-- Each label costs one turn and moves the offset behind it. -/
theorem skipFrom_labels {labels : List (List UInt8)} (hsizes : ∀ label ∈ labels, 0 < label.length ∧ label.length < 64)
    (pre rest : List UInt8) (fuel : Nat) :
    skipFrom (pre ++ (wireLabels labels ++ rest)) (labels.length + fuel) pre.length =
      skipFrom (pre ++ (wireLabels labels ++ rest)) fuel (pre.length + (wireLabels labels).length) := by
  induction labels generalizing pre with
  | nil => rw [List.length_nil, Nat.zero_add]; rfl
  | cons label labels ih =>
      obtain ⟨hpos, hlt⟩ := hsizes label List.mem_cons_self
      obtain ⟨hplain, hvalue, hzero⟩ := label_byte hlt
      have hdata : pre ++ (wireLabels (label :: labels) ++ rest) =
          (pre ++ UInt8.ofNat label.length :: label) ++ (wireLabels labels ++ rest) := by
        simp only [wireLabels, List.flatMap_cons, List.append_assoc]
      have hnext := ih (fun l hl => hsizes l (List.mem_cons_of_mem _ hl)) (pre ++ UInt8.ofNat label.length :: label)
      have hlen : (pre ++ UInt8.ofNat label.length :: label).length = pre.length + (1 + label.length) := by
        rw [List.length_append, List.length_cons, Nat.add_comm label.length 1]
      have hall : (wireLabels (label :: labels)).length = (1 + label.length) + (wireLabels labels).length := by
        simp only [wireLabels, List.flatMap_cons, List.length_append, List.length_cons]
        omega
      have hin : ¬(pre ++ (wireLabels (label :: labels) ++ rest)).length ≤ pre.length := by
        rw [List.length_append, List.length_append, hall]
        omega
      have hget : (pre ++ (wireLabels (label :: labels) ++ rest))[pre.length]? = some (UInt8.ofNat label.length) :=
        getElem?_middle
      rw [hlen, ← hdata] at hnext
      rw [List.length_cons, Nat.add_right_comm, skipFrom, if_neg hin, hget, Option.bind_some, if_neg (hzero hpos),
        if_neg hplain, hvalue, hnext, hall, Nat.add_assoc]

theorem skipFrom_end (last : NameEnd) (pre rest : List UInt8) (fuel : Nat) :
    skipFrom (pre ++ (last.bytes ++ rest)) (fuel + 1) pre.length = some (pre.length + last.bytes.length) := by
  have hin (b : UInt8) (bytes : List UInt8) : ¬(pre ++ b :: bytes).length ≤ pre.length := by
    rw [List.length_append, List.length_cons]
    omega
  cases last with
  | root =>
      have hdata : pre ++ (NameEnd.root.bytes ++ rest) = pre ++ (0 :: rest) := rfl
      rw [hdata, skipFrom, if_neg (hin 0 rest), getElem?_middle, Option.bind_some, if_pos rfl]
      rfl
  | pointer high low isPointer =>
      have hdata : pre ++ ((NameEnd.pointer high low isPointer).bytes ++ rest) = pre ++ (high :: low :: rest) := rfl
      have hne : high ≠ 0 := by
        rintro rfl
        exact absurd isPointer (by decide)
      rw [hdata, skipFrom, if_neg (hin high (low :: rest)), getElem?_middle, Option.bind_some, if_neg hne,
        if_pos isPointer]
      rfl

theorem skipDnsName_owner (owner : Owner) (pre rest : List UInt8) :
    skipDnsName (pre ++ (owner.bytes ++ rest)) pre.length = some (pre.length + owner.bytes.length) := by
  obtain ⟨fuel, hfuel⟩ := Nat.exists_eq_add_of_lt owner.sized.count
  have hlabels := skipFrom_labels owner.sized.sizes pre (owner.last.bytes ++ rest) (fuel + 1)
  have hend := skipFrom_end owner.last (pre ++ wireLabels owner.labels) rest fuel
  rw [List.append_assoc, List.length_append] at hend
  rw [skipDnsName, hfuel, Owner.bytes, List.append_assoc, Nat.add_assoc, hlabels, hend, List.length_append,
    Nat.add_assoc]

theorem packH_value {n : Nat} (h : n < 65536) :
    (UInt8.ofNat (n / 256)).toNat * 256 + (UInt8.ofNat (n % 256)).toNat = n := by
  rw [UInt8.toNat_ofNat', UInt8.toNat_ofNat']
  omega

theorem unpackHHIH_fields (record : Record) :
    unpackHHIH record.fields = some (record.rtype.toNat, record.rdata.length) := by
  have hfields : unpackHHIH record.fields =
      some ((UInt8.ofNat (record.rtype.toNat / 256)).toNat * 256 + (UInt8.ofNat (record.rtype.toNat % 256)).toNat,
        (UInt8.ofNat (record.rdata.length / 256)).toNat * 256 + (UInt8.ofNat (record.rdata.length % 256)).toNat) := rfl
  rw [hfields, packH_value record.rtype.toNat_lt, packH_value record.size]

theorem slice_middle (pre bytes rest : List UInt8) {stop : Nat} (hstop : stop = pre.length + bytes.length) :
    slice (pre ++ (bytes ++ rest)) pre.length stop = bytes := by
  rw [slice, List.drop_left, hstop, Nat.add_sub_cancel_left, List.take_left]

theorem addresses_cons (record : Record) (records : List Record) : addresses (record :: records) =
    (if record.rtype = 1 then [dotted record.rdata] else []) ++ addresses records := by
  rw [addresses, List.filter_cons]
  by_cases h : record.rtype = 1
  · rw [if_pos (decide_eq_true h), if_pos h]
    rfl
  · rw [if_neg (by rw [decide_eq_true_eq]; exact h), if_neg h]
    rfl

/-- One record: the offset moves behind it, and an address is kept. -/
theorem readAnswers_record (record : Record) (pre rest : List UInt8) (count : Nat) (ips : List String) :
    readAnswers (pre ++ (record.bytes ++ rest)) (count + 1) pre.length ips =
      readAnswers (pre ++ (record.bytes ++ rest)) count (pre.length + record.bytes.length)
        (ips ++ if record.rtype = 1 then [dotted record.rdata] else []) := by
  have hskip := skipDnsName_owner record.owner pre (record.fields ++ record.rdata ++ rest)
  have hdata : pre ++ (record.bytes ++ rest) = pre ++ (record.owner.bytes ++ (record.fields ++ record.rdata ++ rest)) := by
    simp only [Record.bytes, List.append_assoc]
  have hfields : pre ++ (record.bytes ++ rest) =
      (pre ++ record.owner.bytes) ++ (record.fields ++ (record.rdata ++ rest)) := by
    simp only [Record.bytes, List.append_assoc]
  have hrdata : pre ++ (record.bytes ++ rest) =
      (pre ++ record.owner.bytes ++ record.fields) ++ (record.rdata ++ rest) := by
    simp only [Record.bytes, List.append_assoc]
  have hten : record.fields.length = 10 := rfl
  have hlen : (pre ++ (record.bytes ++ rest)).length =
      pre.length + record.owner.bytes.length + 10 + record.rdata.length + rest.length := by
    rw [hrdata]
    simp only [List.length_append, hten]
    omega
  have hbytes : record.bytes.length = record.owner.bytes.length + 10 + record.rdata.length := by
    simp only [Record.bytes, List.length_append, hten]
    omega
  have hheader : slice (pre ++ (record.bytes ++ rest)) (pre.length + record.owner.bytes.length)
      (pre.length + record.owner.bytes.length + 10) = record.fields := by
    have hslice := slice_middle (pre ++ record.owner.bytes) record.fields (record.rdata ++ rest) rfl
    rw [← hfields, List.length_append, hten] at hslice
    exact hslice
  rw [readAnswers, hdata, hskip, ← hdata, Option.bind_some, if_neg (by omega), hheader, unpackHHIH_fields,
    Option.bind_some, hbytes, ← Nat.add_assoc, ← Nat.add_assoc]
  dsimp only
  by_cases htype : record.rtype = 1
  · have hfour := record.address htype
    have hipv4 : slice (pre ++ (record.bytes ++ rest)) (pre.length + record.owner.bytes.length + 10)
        (pre.length + record.owner.bytes.length + 10 + 4) = record.rdata := by
      have hslice := slice_middle (pre ++ record.owner.bytes ++ record.fields) record.rdata rest rfl
      rw [← hrdata, List.length_append, List.length_append, hten, hfour] at hslice
      exact hslice
    have hone : record.rtype.toNat = 1 := congrArg UInt16.toNat htype
    rw [if_pos ⟨hone, hfour, by omega⟩, hipv4, if_pos htype]
  · have hother : record.rtype.toNat ≠ 1 := fun hone => htype (UInt16.toNat_inj.mp hone)
    rw [if_neg fun h => hother h.1, if_neg htype, List.append_nil]

theorem readAnswers_records (records : List Record) (pre : List UInt8) (ips : List String) :
    readAnswers (pre ++ records.flatMap Record.bytes) records.length pre.length ips =
      some (ips ++ addresses records) := by
  induction records generalizing pre ips with
  | nil =>
      rw [List.length_nil, readAnswers]
      exact congrArg some (List.append_nil ips).symm
  | cons record records ih =>
      have hnext := ih (pre ++ record.bytes) (ips ++ if record.rtype = 1 then [dotted record.rdata] else [])
      rw [List.append_assoc, List.length_append] at hnext
      rw [List.flatMap_cons, List.length_cons, readAnswers_record, hnext, addresses_cons, List.append_assoc]

theorem unpackHH_header (id flags nscount arcount : UInt16) {ancount : Nat} (h : ancount < 65536)
    (rest : List UInt8) : unpackHH (slice (responseHeader id flags nscount arcount ancount ++ rest) 4 8) =
      some (1, ancount) := by
  have hslice : unpackHH (slice (responseHeader id flags nscount arcount ancount ++ rest) 4 8) =
      some ((UInt8.ofNat (1 / 256)).toNat * 256 + (UInt8.ofNat (1 % 256)).toNat,
        (UInt8.ofNat (ancount / 256)).toNat * 256 + (UInt8.ofNat (ancount % 256)).toNat) := rfl
  rw [hslice, packH_value (by omega), packH_value h]

/-- The header and a question section in front of the records. -/
theorem parse_response (id flags nscount arcount : UInt16) (owner : Owner) {qtype : List UInt8}
    (hqtype : qtype.length = 4) {records : List Record} (hcount : records.length ≤ 20) :
    parseDnsResponse (responseHeader id flags nscount arcount records.length ++
      ((owner.bytes ++ qtype) ++ records.flatMap Record.bytes)) = some (addresses records) := by
  have hheader : (responseHeader id flags nscount arcount records.length).length = 12 := rfl
  have hskip := skipDnsName_owner owner (responseHeader id flags nscount arcount records.length)
    (qtype ++ records.flatMap Record.bytes)
  have hread := readAnswers_records records
    (responseHeader id flags nscount arcount records.length ++ (owner.bytes ++ qtype)) []
  rw [List.append_assoc, List.length_append, List.length_append, hheader, hqtype, ← Nat.add_assoc] at hread
  rw [hheader, ← List.append_assoc owner.bytes] at hskip
  have hlen : ¬(responseHeader id flags nscount arcount records.length ++
      ((owner.bytes ++ qtype) ++ records.flatMap Record.bytes)).length < 12 := by
    rw [List.length_append, hheader]
    omega
  rw [parseDnsResponse, if_neg hlen, unpackHH_header id flags nscount arcount (by omega), Option.bind_some]
  dsimp only
  by_cases hnone : records.length = 0
  · rw [if_pos hnone, List.length_eq_zero_iff.mp hnone]
    rfl
  · rw [if_neg hnone, skipQuestions, hskip, Option.bind_some, skipQuestions, Option.bind_some,
      Nat.min_eq_left hcount, hread, List.nil_append]

theorem mapM_encodeLabel {labels : List (List Char)} (h : ∀ label ∈ labels, label.length < 64) :
    labels.mapM encodeLabel = some (labels.map (fun label => UInt8.ofNat label.length :: asciiBytes label)) := by
  induction labels with
  | nil => rfl
  | cons label labels ih =>
      have hlabel := h label List.mem_cons_self
      rw [List.mapM_cons, encodeLabel, if_pos (by omega), ih fun l hl => h l (List.mem_cons_of_mem _ hl)]
      rfl

/-- A text of non-empty labels does not end in a dot. -/
theorem getLast?_labels {labels : List (List Char)} (h : ∀ label ∈ labels, 0 < label.length ∧ '.' ∉ label) :
    (['.'].intercalate labels).getLast? ≠ some '.' := by
  induction labels with
  | nil => exact (Option.some_ne_none '.').symm
  | cons label labels ih =>
      obtain ⟨hpos, hdot⟩ := h label List.mem_cons_self
      have hrest : ∀ l ∈ labels, 0 < l.length ∧ '.' ∉ l := fun l hl => h l (List.mem_cons_of_mem _ hl)
      cases labels with
      | nil =>
          rw [List.intercalate_singleton]
          exact fun hlast => hdot (List.mem_of_getLast? hlast)
      | cons next labels =>
          have hne : ['.'].intercalate (next :: labels) ≠ [] := by
            intro hnil
            have hnext := (hrest next List.mem_cons_self).1
            have hlen := congrArg List.length hnil
            cases labels with
            | nil =>
                rw [List.intercalate_singleton, List.length_nil] at hlen
                omega
            | cons l ls =>
                rw [List.intercalate_cons_cons, List.length_append, List.length_append, List.length_nil] at hlen
                omega
          rw [List.intercalate_cons_cons, List.append_assoc, List.getLast?_append_of_ne_nil _ (by simp),
            List.getLast?_append_of_ne_nil _ hne]
          exact ih hrest

variable (name : HostName)

theorem HostName.mem_text {c : Char} (h : c ∈ name.text) : isAscii c = true ∧ isSpace c = false := by
  rcases TextFile.mem_intercalate h with rfl | ⟨label, hlabel, hc⟩
  · decide
  · have hchar := name.chars label hlabel c hc
    exact ⟨hchar.1, hchar.2.2⟩

theorem HostName.no_dot {label : List Char} (h : label ∈ name.labels) : '.' ∉ label := fun hdot =>
  (name.chars label h '.' hdot).2.1 rfl

theorem HostName.splitOn_text : (name.text.splitOn '.').filter (· ≠ []) = name.labels := by
  have hfull : name.labels.filter (· ≠ []) = name.labels := by
    refine List.filter_eq_self.mpr fun label hlabel => decide_eq_true fun hnil => ?_
    have hpos := (name.sized.sizes label hlabel).1
    rw [hnil] at hpos
    exact absurd hpos (lt_irrefl 0)
  by_cases hempty : name.labels = []
  · rw [text, hempty]
    rfl
  · rw [text, List.splitOn_intercalate '.' (fun label h => name.no_dot h) hempty, hfull]

theorem HostName.getLast?_text : name.text.getLast? ≠ some '.' :=
  getLast?_labels fun label h => ⟨(name.sized.sizes label h).1, name.no_dot h⟩

theorem domainToDnsAscii_text (idna : List Char → Option (List Char)) :
    domainToDnsAscii idna name.text = some name.text := by
  have hspace : ∀ c ∈ name.text, isSpace c = false := fun c hc => (name.mem_text hc).2
  have hascii : name.text.all isAscii = true := List.all_eq_true.mpr fun c hc => (name.mem_text hc).1
  have hstrip : strip name.text = name.text :=
    strip_eq_self (fun c hc => hspace c (List.mem_of_head? hc)) (fun c hc => hspace c (List.mem_of_getLast? hc))
  have hencode : encodeAscii name.text = some name.text := if_pos hascii
  rw [domainToDnsAscii, hstrip, rstripChar_eq_self name.getLast?_text]
  split
  · rfl
  · cases hidna : (encodeIdna idna name.text).bind encodeAscii with
    | none => exact hencode
    | some encoded =>
        obtain ⟨text, htext, hascii'⟩ := Option.bind_eq_some_iff.mp hidna
        have hsame : text = name.text := by
          rw [encodeIdna, if_pos hascii] at htext
          dsimp only at htext
          split at htext
          · exact (Option.some.inj htext).symm
          · exact absurd htext (Option.some_ne_none text).symm
        rw [hsame, hencode] at hascii'
        exact hascii'.symm

/-- The question section of a query names the host and asks for its address. -/
theorem buildDnsQuery_text (idna : List Char → Option (List Char)) :
    ∃ query, buildDnsQuery idna name.text 1 = some query ∧
      query.drop 12 = wireLabels (name.labels.map asciiBytes) ++ [0] ++ (packH 1 ++ packH 1) := by
  have hsmall : ∀ label ∈ name.labels, label.length < 64 := fun label h => (name.sized.sizes label h).2
  have hwire : (name.labels.map (fun label => UInt8.ofNat label.length :: asciiBytes label)).flatten =
      wireLabels (name.labels.map asciiBytes) := by
    rw [wireLabels, List.flatMap_map, List.flatMap_def]
    refine congrArg List.flatten (List.map_congr_left fun label _ => ?_)
    rw [asciiBytes, List.length_map]
  rw [buildDnsQuery]
  simp only [domainToDnsAscii_text name idna, Option.bind_eq_bind, Option.bind_some, name.splitOn_text,
    mapM_encodeLabel hsmall, hwire]
  exact ⟨_, rfl, List.drop_left' rfl⟩

theorem sized_map (h : Sized name.labels) : Sized (name.labels.map asciiBytes) where
  sizes label hlabel := by
    obtain ⟨chars, hchars, rfl⟩ := List.mem_map.mp hlabel
    rw [asciiBytes, List.length_map]
    exact h.sizes chars hchars
  total := by
    have hsame : (name.labels.map asciiBytes).map (fun label => label.length + 1) =
        name.labels.map (fun label => label.length + 1) := by
      rw [List.map_map]
      refine List.map_congr_left fun label _ => ?_
      rw [Function.comp_apply, asciiBytes, List.length_map]
    rw [hsame]
    exact h.total

/-- A response to the query for a host gives back the addresses in its answer records, and
the parser returns on every byte string. -/
theorem dns_round_trip (idna : List Char → Option (List Char)) :
    (∀ (name : HostName) (id flags nscount arcount : UInt16) (records : List Record), records.length ≤ 20 →
      ∃ query, buildDnsQuery idna name.text 1 = some query ∧
        parseDnsResponse (responseHeader id flags nscount arcount records.length ++
          (query.drop 12 ++ records.flatMap Record.bytes)) = some (addresses records)) ∧
    ∀ data, ∃ ips, parseDnsResponse data = some ips := by
  refine ⟨fun name id flags nscount arcount records hcount => ?_, parseDnsResponse_isSome⟩
  obtain ⟨query, hquery, hquestion⟩ := buildDnsQuery_text name idna
  refine ⟨query, hquery, ?_⟩
  rw [hquestion]
  exact parse_response id flags nscount arcount ⟨name.labels.map asciiBytes, sized_map name name.sized, .root⟩ rfl hcount

def exampleHost : HostName where
  labels := ["example".toList, "org".toList]
  sized := ⟨by decide, by decide⟩
  chars := by
    have hall : ["example".toList, "org".toList].all (fun label =>
        label.all fun c => decide (isAscii c = true ∧ c ≠ '.' ∧ isSpace c = false)) = true := by decide
    intro label hlabel c hc
    exact of_decide_eq_true (List.all_eq_true.mp (List.all_eq_true.mp hall label hlabel) c hc)

/-- An address whose owner points at the question, behind an alias with its own labels. -/
def exampleRecords : List Record :=
  [{ owner := ⟨[[119, 119, 119]], ⟨by decide, by decide⟩, .pointer 0xC0 12 rfl⟩
     rtype := 5, rclass := 1, ttl := 300, rdata := [0xC0, 12], size := by decide, address := by decide },
   { owner := ⟨[], ⟨by decide, by decide⟩, .pointer 0xC0 12 rfl⟩
     rtype := 1, rclass := 1, ttl := 300, rdata := [93, 184, 216, 34], size := by decide, address := by decide }]

theorem example_round_trip : ∃ query, buildDnsQuery (fun _ => none) exampleHost.text 1 = some query ∧
    parseDnsResponse (responseHeader 0x4242 0x8180 0 0 2 ++
      (query.drop 12 ++ exampleRecords.flatMap Record.bytes)) = some (addresses exampleRecords) :=
  (dns_round_trip fun _ => none).1 exampleHost 0x4242 0x8180 0 0 exampleRecords (by decide)

example : addresses exampleRecords = ["93.184.216.34"] := by decide +kernel

end Blockchecks.DnsTrip
