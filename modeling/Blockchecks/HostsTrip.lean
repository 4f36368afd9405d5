import Blockchecks.HostsPins

namespace Blockchecks.HostsTrip

open StrategyText LuaConf ExportConf OrderedDict TextLines TextFile HostsPins

/-- A pin that stands in one line of its own: two parts without white space, the first an
address. -/
structure Pin (domain ip : String) : Prop where
  isIp : isIp ip.toList = true
  ip_unspaced : ∀ c ∈ ip.toList, isSpace c = false
  domain_ne : domain.toList ≠ []
  domain_unspaced : ∀ c ∈ domain.toList, isSpace c = false

def Pinned (pins : Dict String String) : Prop := ∀ k ip, pins.get? k = some ip → Pin k ip

variable {part : List Char} {parts : List (List Char)}

theorem splitOn_head {c sep : Char} (hne : c ≠ sep) (text : List Char) :
    ∃ part parts, (c :: text).splitOn sep = (c :: part) :: parts := by
  rw [List.splitOn_cons_eq_if_modifyHead, if_neg (fun h => hne (beq_iff_eq.mp h))]
  obtain ⟨part, parts, h⟩ := List.exists_cons_of_ne_nil (List.splitOn_ne_nil sep text)
  exact ⟨part, parts, by rw [h]; rfl⟩

theorem isLiteralIp_head {text : List Char} (h : DomainLoader.isLiteralIp text = true) :
    ∃ c rest, text = c :: rest ∧ c ≠ '#' := by
  rw [DomainLoader.isLiteralIp, split_char (c := '.') rfl, Bool.and_eq_true, decide_eq_true_iff, List.all_eq_true] at h
  cases text with
  | nil => exact absurd h.1 (by decide)
  | cons c rest =>
      refine ⟨c, rest, rfl, ?_⟩
      rintro rfl
      obtain ⟨part, parts, hsplit⟩ := splitOn_head (by decide : '#' ≠ '.') rest
      have hoctet := h.2 _ (hsplit ▸ List.mem_cons_self)
      simp [DomainLoader.isOctet] at hoctet

theorem areHextets_head (h : areHextets (part :: parts) = true) : part = [] ∨ isHextet part = true := by
  rw [areHextets] at h
  split at h
  next =>
    rw [Bool.and_eq_true, List.all_eq_true] at h
    exact Or.inr (h.2 part List.mem_cons_self)
  next i _ =>
    rw [Bool.and_eq_true, Bool.and_eq_true, isSide, Bool.or_eq_true, List.take_succ_cons] at h
    rcases h.1.1 with hside | hside
    · exact Or.inl (List.cons.inj (of_decide_eq_true hside)).1
    · exact Or.inr (List.all_eq_true.mp hside part List.mem_cons_self)
  next => cases h

theorem isIpv6Text_head {text : List Char} (h : isIpv6Text text = true) :
    ∃ c rest, text = c :: rest ∧ c ≠ '#' := by
  rw [isIpv6Text, split_char (c := ':') rfl, Bool.and_eq_true, decide_eq_true_iff] at h
  cases text with
  | nil => exact absurd h.1 (by decide)
  | cons c rest =>
      refine ⟨c, rest, rfl, ?_⟩
      rintro rfl
      obtain ⟨part, parts, hsplit⟩ := splitOn_head (by decide : '#' ≠ ':') rest
      rw [hsplit] at h
      have hhead : areHextets (('#' :: part) :: parts) = true ∨
          ∃ parts', areHextets (('#' :: part) :: parts') = true := by
        have hrest := h.2
        split at hrest
        · right
          cases parts with
          | nil => exact absurd h.1 (by simp)
          | cons next parts => exact ⟨_, (Bool.and_eq_true_iff.mp hrest).2⟩
        · exact Or.inl hrest
      have hno : ∀ parts', areHextets (('#' :: part) :: parts') ≠ true := by
        intro parts' hp
        rcases areHextets_head hp with hnil | hhex
        · cases hnil
        · simp [isHextet, isHexDigit] at hhex
      rcases hhead with hp | ⟨parts', hp⟩
      · exact hno _ hp
      · exact hno _ hp

/-- No address is empty, and none begins a comment. -/
theorem isIp_head {text : List Char} (h : isIp text = true) : ∃ c rest, text = c :: rest ∧ c ≠ '#' := by
  rw [HostsPins.isIp, Bool.or_eq_true] at h
  rcases h with h | h
  · exact isLiteralIp_head h
  · rw [isIpv6, Bool.and_eq_true] at h
    obtain ⟨c, rest, htext, hc⟩ := isIpv6Text_head h.2
    cases text with
    | nil => cases htext
    | cons d text =>
        rw [List.takeWhile_cons] at htext
        split at htext
        · exact ⟨d, text, rfl, (List.cons.inj htext).1 ▸ hc⟩
        · cases htext

theorem mem_words {text : List Char} (h : part ∈ words text) : part ≠ [] ∧ ∀ c ∈ part, isSpace c = false := by
  obtain ⟨hpart, hne⟩ := List.mem_filter.mp h
  exact ⟨of_decide_eq_true hne, fun c hc => mem_splitOnP_not hpart hc⟩

theorem words_pair {a b : List Char} (ha : a ≠ []) (hb : b ≠ []) (hsa : ∀ c ∈ a, isSpace c = false)
    (hsb : ∀ c ∈ b, isSpace c = false) : words (a ++ '\t' :: b) = [a, b] := by
  rw [words, List.splitOnP_append_cons_of_forall_mem hsa '\t' (by decide), List.splitOnP_eq_singleton hsb]
  simp [ha, hb]

/-- What is read from a line could stand in a line of its own. -/
theorem pinOf_pin {raw : List Char} {domain ip : String} (h : pinOf raw = some (domain, ip)) : Pin domain ip := by
  rw [pinOf] at h
  split at h
  · cases h
  · split at h
    next first second rest hwords =>
      have hfirst := mem_words (hwords ▸ List.mem_cons_self : first ∈ words (strip raw))
      have hsecond := mem_words (hwords ▸ List.mem_cons_of_mem _ List.mem_cons_self : second ∈ words (strip raw))
      split at h
      next hip =>
        obtain ⟨rfl, rfl⟩ := Prod.mk.inj (Option.some.inj h)
        exact ⟨by rwa [String.toList_ofList], by rw [String.toList_ofList]; exact hfirst.2,
          by rw [String.toList_ofList]; exact hsecond.1, by rw [String.toList_ofList]; exact hsecond.2⟩
      next =>
        split at h
        next hip =>
          obtain ⟨rfl, rfl⟩ := Prod.mk.inj (Option.some.inj h)
          exact ⟨by rwa [String.toList_ofList], by rw [String.toList_ofList]; exact hsecond.2,
            by rw [String.toList_ofList]; exact hfirst.1, by rw [String.toList_ofList]; exact hfirst.2⟩
        next => cases h
    next => cases h

theorem pinOf_line {domain ip : String} (h : Pin domain ip) :
    pinOf (ip.toList ++ '\t' :: domain.toList) = some (domain, ip) := by
  obtain ⟨c, rest, hip, hc⟩ := isIp_head h.isIp
  have hstrip : strip (ip.toList ++ '\t' :: domain.toList) = ip.toList ++ '\t' :: domain.toList := by
    apply strip_eq_self
    · intro d hd
      rw [hip, List.cons_append, List.head?_cons, Option.mem_some_iff] at hd
      exact h.ip_unspaced d (by rw [hip, hd]; exact List.mem_cons_self)
    · intro d hd
      rw [List.getLast?_append, List.getLast?_cons_of_ne_nil h.domain_ne,
        List.getLast?_eq_some_getLast h.domain_ne, Option.some_or, Option.mem_some_iff] at hd
      exact h.domain_unspaced d (hd ▸ List.getLast_mem h.domain_ne)
  have hwords : words (ip.toList ++ '\t' :: domain.toList) = [ip.toList, domain.toList] :=
    words_pair (hip ▸ List.cons_ne_nil c rest) h.domain_ne h.ip_unspaced h.domain_unspaced
  have hplain : ¬ (ip.toList ++ '\t' :: domain.toList = [] ∨
      startsWith (ip.toList ++ '\t' :: domain.toList) "#" = true) := by
    rw [hip]
    simp [startsWith, hc.symm]
  rw [pinOf, hstrip, hwords, if_neg hplain]
  simp only [h.isIp, if_true, String.ofList_toList]

theorem unbroken_of_unspaced {c : Char} (h : isSpace c = false) : isLineBreak c = false := by
  cases hc : isLineBreak c with
  | false => rfl
  | true =>
      rw [isLineBreak, decide_eq_true_iff] at hc
      simp only [isSpace, Bool.or_eq_false_iff, decide_eq_false_iff_not] at h
      refine absurd ?_ h.1
      simp only [List.mem_cons, List.not_mem_nil, or_false] at hc ⊢
      omega

theorem pinned_foldl {pins : Dict String String} (h : Pinned pins) {found : List (String × String)}
    (hfound : ∀ e ∈ found, Pin e.1 e.2) : Pinned (found.foldl (fun pins pin => pins.set pin.1 pin.2) pins) := by
  induction found generalizing pins with
  | nil => exact h
  | cons e found ih =>
      apply ih
      · intro k ip hk
        rw [Dict.get?_set] at hk
        split at hk
        next heq => rw [heq, ← Option.some.inj hk]; exact hfound e List.mem_cons_self
        next => exact h k ip hk
      · exact fun e he => hfound e (List.mem_cons_of_mem _ he)

theorem pinned_empty : Pinned .empty := fun k ip h => by
  rw [Dict.get?_empty] at h
  cases h

theorem pinned_readPins (file : Option (List Char)) : Pinned (readPins file) := by
  cases file with
  | none => exact pinned_empty
  | some text =>
      apply pinned_foldl pinned_empty
      intro e he
      obtain ⟨raw, _, hraw⟩ := List.mem_filterMap.mp he
      exact pinOf_pin hraw

section merging

theorem get?_mergePins (current updates : Dict String String) (k : String) :
    (mergePins current updates).get? k = ((updates.get? k).filter (· ≠ "")).or (current.get? k) := by
  have hnodup : ((updates.entries.filter (fun e => decide (e.2 ≠ ""))).map Prod.fst).Nodup :=
    updates.nodup.sublist (List.filter_sublist.map Prod.fst)
  have hfold : mergePins current updates =
      (updates.entries.filter (fun e => decide (e.2 ≠ ""))).foldl (fun d e => d.set e.1 e.2) current := by
    rw [mergePins, List.foldl_filter]
    simp only [decide_eq_true_eq]
  have hmem (ip : String) : (k, ip) ∈ updates.entries.filter (fun e => decide (e.2 ≠ "")) ↔
      (updates.get? k).filter (· ≠ "") = some ip := by
    rw [List.mem_filter, ← Dict.get?_eq_some_iff, Option.filter_eq_some_iff]
  apply Option.ext
  intro ip
  rw [hfold, Dict.get?_foldl_entries hnodup, hmem, Option.or_eq_some_iff]
  apply or_congr_right
  apply and_congr_left'
  rw [Option.eq_none_iff_forall_ne_some, List.mem_map]
  constructor
  · exact fun h v hv => h ⟨(k, v), (hmem v).mpr hv, rfl⟩
  · rintro h ⟨⟨_, v⟩, he, rfl⟩
    exact h v ((hmem v).mp he)

theorem get?_newRecords (records : Dict String Value) (k : String) :
    (newRecords records).get? k = (records.get? k).bind (fun value => value.ips.head?) := by
  have hfold : newRecords records = (records.entries.filterMap (fun e => e.2.ips.head?.map (fun ip => (e.1, ip)))).foldl
      (fun d e => d.set e.1 e.2) .empty := by
    rw [newRecords, List.foldl_filterMap]
    apply congrFun (congrFun (congrArg List.foldl ?_) _)
    funext d e
    cases e.2.ips <;> rfl
  have hkeys : ((records.entries.filterMap (fun e => e.2.ips.head?.map (fun ip => (e.1, ip)))).map
      Prod.fst).Sublist records.keys := by
    rw [Dict.keys]
    induction records.entries with
    | nil => exact List.Sublist.slnil
    | cons e es ih =>
        cases hips : e.2.ips.head? with
        | none => rw [List.filterMap_cons_none (by rw [hips]; rfl)]; exact ih.cons e.1
        | some ip => rw [List.filterMap_cons_some (by rw [hips]; rfl)]; exact ih.cons_cons e.1
  apply Option.ext
  intro ip
  rw [hfold, Dict.get?_foldl_entries (records.nodup.sublist hkeys), Dict.get?_empty, Option.bind_eq_some_iff,
    List.mem_filterMap]
  simp only [Option.map_eq_some_iff, Prod.mk.injEq, reduceCtorEq, and_false, or_false]
  constructor
  · rintro ⟨⟨_, value⟩, he, _, hip, rfl, rfl⟩
    exact ⟨value, (Dict.get?_eq_some_iff _ _ _).mpr he, hip⟩
  · rintro ⟨value, hvalue, hip⟩
    exact ⟨(k, value), (Dict.get?_eq_some_iff _ _ _).mp hvalue, ip, hip, rfl, rfl⟩

/-- The records that a hosts file can hold. -/
def Storable (records : Dict String Value) : Prop :=
  ∀ domain value, records.get? domain = some value → ∀ ip ∈ value.ips.head?, Pin domain ip

theorem pinned_mergePins {current updates : Dict String String} (hcurrent : Pinned current) (hupdates : Pinned updates) :
    Pinned (mergePins current updates) := by
  intro k ip h
  rw [get?_mergePins, Option.or_eq_some_iff] at h
  rcases h with h | ⟨_, h⟩
  · exact hupdates k ip (Option.filter_eq_some_iff.mp h).1
  · exact hcurrent k ip h

theorem pinned_newRecords {records : Dict String Value} (h : Storable records) : Pinned (newRecords records) := by
  intro k ip hk
  rw [get?_newRecords, Option.bind_eq_some_iff] at hk
  obtain ⟨value, hvalue, hip⟩ := hk
  exact h k value hvalue ip hip

end merging

section files

theorem headers_comments : (headers.map String.toList).all (fun line =>
    line.all (fun c => !isLineBreak c) && decide (pinOf line = none)) = true := by
  decide

theorem header_spec {line : List Char} (h : line ∈ headers.map String.toList) :
    (∀ c ∈ line, isLineBreak c = false) ∧ pinOf line = none := by
  have hline := List.all_eq_true.mp headers_comments line h
  rw [Bool.and_eq_true, List.all_eq_true, decide_eq_true_iff] at hline
  exact ⟨fun c hc => (Bool.not_eq_true' _).mp (hline.1 c hc), hline.2⟩

theorem mem_sorted {keys : List String} {k : String} : k ∈ MatrixFingerprint.sorted keys ↔ k ∈ keys :=
  (List.perm_insertionSort _ keys).mem_iff

variable {pins : Dict String String}

theorem pinLine_spec (h : Pinned pins) {k : String} (hk : k ∈ MatrixFingerprint.sorted pins.keys) :
    (∀ c ∈ pinLine pins k, isLineBreak c = false) ∧ pinOf (pinLine pins k) = some (k, (pins.get? k).getD "") := by
  obtain ⟨ip, hip⟩ := (Dict.mem_keys_iff pins k).mp (mem_sorted.mp hk)
  have hpin := h k ip hip
  rw [pinLine, hip, Option.getD_some]
  refine ⟨?_, pinOf_line hpin⟩
  intro c hc
  rcases List.mem_append.mp hc with hc | hc
  · exact unbroken_of_unspaced (hpin.ip_unspaced c hc)
  · rcases List.mem_cons.mp hc with rfl | hc
    · decide
    · exact unbroken_of_unspaced (hpin.domain_unspaced c hc)

/-- A dumped file gives back its pins. -/
theorem readPins_hostsText (h : Pinned pins) (k : String) :
    (readPins (some (hostsText pins))).get? k = pins.get? k := by
  have hlines : splitlines (universalNewlines (hostsText pins)) =
      headers.map String.toList ++ (MatrixFingerprint.sorted pins.keys).map (pinLine pins) := by
    apply splitlines_read_joinLines
    · exact List.append_ne_nil_of_left_ne_nil (by decide) _
    · intro line hline
      rcases List.mem_append.mp hline with hline | hline
      · exact (header_spec hline).1
      · obtain ⟨k, hk, rfl⟩ := List.mem_map.mp hline
        exact (pinLine_spec h hk).1
  have hheaders : (headers.map String.toList).filterMap pinOf = [] :=
    List.filterMap_eq_nil_iff.mpr fun line hline => (header_spec hline).2
  have hpins : ((MatrixFingerprint.sorted pins.keys).map (pinLine pins)).filterMap pinOf =
      (MatrixFingerprint.sorted pins.keys).map (fun k => (k, (pins.get? k).getD "")) := by
    rw [List.filterMap_map, ← List.filterMap_eq_map]
    exact List.filterMap_congr fun k hk => (pinLine_spec h hk).2
  rw [readPins, parsePins, hlines, List.filterMap_append, hheaders, hpins, List.nil_append, List.foldl_map,
    Dict.get?_foldl_set (fun k => (pins.get? k).getD ""), Dict.get?_empty]
  by_cases hk : k ∈ MatrixFingerprint.sorted pins.keys
  · obtain ⟨ip, hip⟩ := (Dict.mem_keys_iff pins k).mp (mem_sorted.mp hk)
    rw [if_pos hk, hip, Option.getD_some]
  · rw [if_neg hk, eq_comm, Dict.get?_eq_none_iff]
    exact fun hin => hk (mem_sorted.mpr hin)

/-- The text of a file depends on nothing but the address of each domain. -/
theorem hostsText_congr {pins' : Dict String String} (h : ∀ k, pins.get? k = pins'.get? k) :
    hostsText pins = hostsText pins' := by
  have hkeys : pins.keys.Perm pins'.keys := by
    apply (List.perm_ext_iff_of_nodup pins.nodup pins'.nodup).mpr
    intro k
    change k ∈ pins.keys ↔ k ∈ pins'.keys
    rw [Dict.mem_keys_iff, Dict.mem_keys_iff, h k]
  have hlines : pinLine pins = pinLine pins' := by
    funext k
    rw [pinLine, pinLine, h k]
  rw [hostsText, hostsText, MatrixFingerprint.sorted_eq_iff.mpr hkeys, hlines]

theorem readPins_writeHosts {records : Dict String Value} (h : Storable records) (file : Option (List Char))
    (k : String) : (readPins (some (writeHosts file records))).get? k =
      (mergePins (readPins file) (newRecords records)).get? k :=
  readPins_hostsText (pinned_mergePins (pinned_readPins file) (pinned_newRecords h)) k

theorem newRecords_congr {records records' : Dict String Value} (h : records'.entries.Perm records.entries) (k : String) :
    (newRecords records').get? k = (newRecords records).get? k := by
  have hget : records'.get? k = records.get? k := by
    apply Option.ext
    intro value
    rw [Dict.get?_eq_some_iff, Dict.get?_eq_some_iff, h.mem_iff]
  rw [get?_newRecords, get?_newRecords, hget]

/-- A refresh of the hosts file is a merge of its pins. -/
theorem hosts_pins_survive (file : Option (List Char)) (records : Dict String Value) (h : Storable records) :
    (∀ k, (readPins (some (writeHosts file records))).get? k =
      (mergePins (readPins file) (newRecords records)).get? k) ∧
    (∀ k ∉ records.keys, (readPins (some (writeHosts file records))).get? k = (readPins file).get? k) ∧
    (∀ records' : Dict String Value, records'.entries.Perm records.entries →
      writeHosts file records' = writeHosts file records) ∧
    writeHosts (some (writeHosts file records)) records = writeHosts file records := by
  refine ⟨readPins_writeHosts h file, ?_, ?_, ?_⟩
  · intro k hk
    rw [readPins_writeHosts h, get?_mergePins, get?_newRecords, (Dict.get?_eq_none_iff records k).mpr hk]
    rfl
  · intro records' hperm
    apply hostsText_congr
    intro k
    rw [get?_mergePins, get?_mergePins, newRecords_congr hperm]
  · apply hostsText_congr
    intro k
    rw [get?_mergePins, readPins_writeHosts h, get?_mergePins, ← Option.or_assoc]
    cases ((newRecords records).get? k).filter (· ≠ "") <;> rfl

/-- An old pin stays and a record goes in. -/
theorem hosts_pins_survive_example :
    (readPins (some (writeHosts (some "b.com 2.2.2.2\r\n".toList)
      ⟨[("a.com", .addresses ["1.1.1.1"])], by decide⟩))).get? "b.com" = some "2.2.2.2" := by
  have h : Storable ⟨[("a.com", .addresses ["1.1.1.1"])], by decide⟩ := by
    intro domain value hvalue ip hip
    rw [Dict.get?_eq_some_iff, List.mem_singleton, Prod.mk.injEq] at hvalue
    obtain ⟨rfl, rfl⟩ := hvalue
    rw [Option.mem_some_iff.mp hip.symm]
    exact ⟨by decide, forall_mem_of_all (by decide), by decide, forall_mem_of_all (by decide)⟩
  rw [(hosts_pins_survive _ _ h).2.1 "b.com" (by decide)]
  decide

/-- Records of valid addresses and of names without white space, with a further condition. -/
def ValidRecords (allowed : String → String → Prop) (records : Dict String Value) : Prop :=
  ∀ domain value, records.get? domain = some value → isIp domain.toList = false ∧
    (∀ c ∈ domain.toList, isSpace c = false) ∧ ∀ ip ∈ value.ips, isIp ip.toList = true ∧ allowed domain ip

theorem validRecords_single {allowed : String → String → Prop} (domain ip : String)
    (hname : isIp domain.toList = false) (hspace : domain.toList.all (fun c => !isSpace c) = true)
    (hip : isIp ip.toList = true) (hallowed : allowed domain ip) :
    ValidRecords allowed ⟨[(domain, .addresses [ip])], List.nodup_singleton _⟩ := by
  intro k value hvalue
  rw [Dict.get?_eq_some_iff, List.mem_singleton, Prod.mk.injEq] at hvalue
  obtain ⟨rfl, rfl⟩ := hvalue
  refine ⟨hname, fun c hc => (Bool.not_eq_true' _).mp (List.all_eq_true.mp hspace c hc), ?_⟩
  intro ip' hip'
  rw [List.mem_singleton.mp hip']
  exact ⟨hip, hallowed⟩

/-- A scope with a blank in it is split, and a line without a name is no pin. -/
theorem spaced_scope_and_empty_name_lost :
    (¬ ∀ file records, ValidRecords (fun domain _ => domain ≠ "") records → ∀ k,
      (readPins (some (writeHosts file records))).get? k = (mergePins (readPins file) (newRecords records)).get? k) ∧
    ¬ ∀ file records, ValidRecords (fun _ ip => ∀ c ∈ ip.toList, isSpace c = false) records → ∀ k,
      (readPins (some (writeHosts file records))).get? k =
        (mergePins (readPins file) (newRecords records)).get? k := by
  constructor
  · intro h
    have hk := h none _ (validRecords_single "a.com" "fe80::1%a b" (by decide) (by decide) (by decide) (by decide)) "a.com"
    exact absurd hk (by decide)
  · intro h
    have hk := h none _ (validRecords_single "" "1.1.1.1" (by decide) (by decide) (by decide)
      (forall_mem_of_all (by decide))) ""
    exact absurd hk (by decide)

end files

end Blockchecks.HostsTrip
