import Blockchecks.StoreDirect

namespace Blockchecks.StoreEffect

open RunStore ProbeLogger StoreDirect

variable {α : Type} {runId : Nat} {t t' t'' : Tables} {key : String × String}

/-- Where keys are distinct, a search by key finds the record of that key. -/
theorem find?_key_eq_some_iff {β κ : Type} [DecidableEq κ] {f : β → κ} {l : List β}
    (hn : (l.map f).Nodup) {k : κ} {x : β} :
    l.find? (fun y => f y = k) = some x ↔ x ∈ l ∧ f x = k := by
  constructor
  · intro h
    exact ⟨List.mem_of_find?_eq_some h, by simpa using List.find?_some h⟩
  · rintro ⟨hx, rfl⟩
    cases hfind : l.find? (fun y => f y = f x) with
    | none => exact absurd (List.find?_eq_none.mp hfind x hx) (by simp)
    | some y =>
        have hf : f y = f x := by simpa using List.find?_some hfind
        rw [List.inj_on_of_nodup_map hn (List.mem_of_find?_eq_some hfind) hx hf]

theorem keyOf_eq_some_iff (h : t.Sound) {id : Nat} :
    t.keyOf id = some key ↔ ∃ s ∈ t.strategies, s.id = id ∧ s.key = key := by
  simp only [Tables.keyOf, Option.map_eq_some_iff, find?_key_eq_some_iff h.ids, and_assoc]

theorem configOf_eq_some_iff (h : t.Sound) {text : String} :
    t.configOf key = some text ↔ ∃ s ∈ t.strategies, s.key = key ∧ s.configPath = text := by
  simp only [Tables.configOf, Option.map_eq_some_iff, find?_key_eq_some_iff h.keys, and_assoc]

theorem strategySet_eq_iff (h : t.Sound) (h' : t'.Sound) :
    t.strategySet = t'.strategySet ↔ ∀ key, t.configOf key = t'.configOf key := by
  have hmem {t : Tables} (h : t.Sound) (name proto text : String) :
      (name, proto, text) ∈ t.strategySet ↔ t.configOf (name, proto) = some text := by
    rw [Tables.strategySet, List.mem_toFinset, List.mem_map, configOf_eq_some_iff h]
    simp only [Strategy.key, Prod.mk.injEq, and_assoc]
  constructor
  · intro heq key
    refine Option.ext fun text => ?_
    rw [← hmem h, ← hmem h', heq]
  · intro heq
    refine Finset.ext fun p => ?_
    rw [hmem h, hmem h', heq]

/-- What an upsert leaves as the text of its strategy. -/
def upsertText (old : Option String) (text : String) : Option String :=
  match old with
  | none => some text
  | some old => some (if text = "" then old else text)

theorem configOf_upsert (name proto text : String) :
    ({ t with strategies := upsertStrategy t.strategies name proto text } : Tables).configOf key =
      if key = (name, proto) then upsertText (t.configOf key) text else t.configOf key := by
  have hset : ∀ s : Strategy, (setConfigPath (name, proto) text s).configPath =
      if s.key = (name, proto) ∧ text ≠ "" then text else s.configPath := by
    intro s
    rw [setConfigPath]
    split <;> rfl
  have hmap : (t.strategies.map (setConfigPath (name, proto) text)).find? (fun s => s.key = key) =
      (t.strategies.find? (fun s => s.key = key)).map (setConfigPath (name, proto) text) := by
    rw [List.find?_map]
    simp only [Function.comp_def, setConfigPath_key]
  simp only [Tables.configOf, upsertStrategy]
  split
  next hany =>
    rw [hmap, Option.map_map]
    cases hfind : t.strategies.find? (fun s => s.key = key) with
    | none =>
        have hne : key ≠ (name, proto) := by
          rintro rfl
          obtain ⟨s, hs, hkey⟩ := List.any_eq_true.mp hany
          exact List.find?_eq_none.mp hfind s hs hkey
        rw [if_neg hne]
        rfl
    | some s =>
        have hkey : s.key = key := by simpa using List.find?_some hfind
        simp only [Option.map_some, Function.comp_apply, hset, hkey, upsertText]
        by_cases h : key = (name, proto) <;> by_cases htext : text = "" <;> simp [h, htext]
  next hany =>
    have hno : t.strategies.find? (fun s => s.key = (name, proto)) = none :=
      List.find?_eq_none.mpr (fun s hs hkey => hany (List.any_eq_true.mpr ⟨s, hs, hkey⟩))
    rw [List.find?_append]
    by_cases h : key = (name, proto)
    · subst h
      rw [hno, if_pos rfl]
      simp [Strategy.key, upsertText]
    · have hother : decide (Strategy.key ⟨nextId (t.strategies.map Strategy.id), name, proto, text⟩ =
          key) = false := decide_eq_false (Ne.symm h)
      rw [if_neg h, List.find?_singleton, hother]
      simp

def addSeen (runId : Nat) (rows : List (Seen α)) (row : (String × String) × α) : List (Seen α) :=
  rows ++ [⟨nextId (rows.map Seen.id), some runId, some row.1, row.2⟩]

/-- What a piece of a run does to the tables: the rows that it adds, and the
texts that it says for each strategy. -/
structure Effect (runId : Nat) (t t' : Tables) (tcp : List ((String × String) × TcpCells))
    (udp : List ((String × String) × UdpCells)) (said : String × String → List String) :
    Prop where
  sound : t'.Sound
  keeps : ∀ id key, t.keyOf id = some key → t'.keyOf id = some key
  tcpRows : t'.tcpRows = tcp.foldl (addSeen runId) t.tcpRows
  udpRows : t'.udpRows = udp.foldl (addSeen runId) t.udpRows
  config : ∀ key, t'.configOf key = (said key).foldl upsertText (t.configOf key)

def silent : String × String → List String := fun _ => []

def saying (key : String × String) (text : String) : String × String → List String :=
  fun key' => if key' = key then [text] else []

theorem Effect.refl (h : t.Sound) : Effect runId t t [] [] silent where
  sound := h
  keeps := fun _ _ => id
  tcpRows := rfl
  udpRows := rfl
  config := fun _ => rfl

theorem Effect.trans {tcp₁ tcp₂ : List ((String × String) × TcpCells)}
    {udp₁ udp₂ : List ((String × String) × UdpCells)} {said₁ said₂ : String × String → List String}
    (h₁ : Effect runId t t' tcp₁ udp₁ said₁) (h₂ : Effect runId t' t'' tcp₂ udp₂ said₂) :
    Effect runId t t'' (tcp₁ ++ tcp₂) (udp₁ ++ udp₂) (fun key => said₁ key ++ said₂ key) where
  sound := h₂.sound
  keeps := fun id key h => h₂.keeps id key (h₁.keeps id key h)
  tcpRows := by rw [h₂.tcpRows, h₁.tcpRows, List.foldl_append]
  udpRows := by rw [h₂.udpRows, h₁.udpRows, List.foldl_append]
  config := fun key => by rw [h₂.config, h₁.config, List.foldl_append]

theorem see_eq {r : Row α}
    (hkeeps : ∀ id key, t.keyOf id = some key → t'.keyOf id = some key)
    (href : ∀ i, r.strategyId = some i → ∃ key, t.keyOf i = some key) : t'.see r = t.see r := by
  rw [Tables.see, Tables.see]
  cases hid : r.strategyId with
  | none => rfl
  | some i =>
      obtain ⟨key, hkey⟩ := href i hid
      rw [Option.bind_some, Option.bind_some, hkey, hkeeps i key hkey]

/-- An upsert keeps every row and says one text. -/
theorem ensureStrategy_effect (runId : Nat) (h : t.Sound) (name proto text : String) :
    ∃ t' sid, t.ensureStrategy name proto text = some (t', sid) ∧
      t'.keyOf sid = some (name, proto) ∧
      Effect runId t t' [] [] (saying (name, proto) text) := by
  obtain ⟨s, hs, hkey, hselect⟩ := selectStrategy_upsert t.strategies name proto text
  have href : ∀ i, (∃ s ∈ t.strategies, s.id = i) →
      ∃ s ∈ upsertStrategy t.strategies name proto text, s.id = i := by
    rintro i ⟨s, hs, rfl⟩
    obtain ⟨s', hs', hid, _⟩ := upsertStrategy_keeps hs name proto text
    exact ⟨s', hs', hid⟩
  have hsound : ({ t with strategies := upsertStrategy t.strategies name proto text } :
      Tables).Sound :=
    ⟨upsertStrategy_ids h.ids name proto text, upsertStrategy_keys h.keys name proto text,
      fun r hr i hi => href i (h.tcpRefs r hr i hi), fun r hr i hi => href i (h.udpRefs r hr i hi)⟩
  have hkeeps : ∀ id key, t.keyOf id = some key →
      ({ t with strategies := upsertStrategy t.strategies name proto text } : Tables).keyOf id =
        some key := by
    intro id key hid
    obtain ⟨s, hs, rfl, rfl⟩ := (keyOf_eq_some_iff h).mp hid
    obtain ⟨s', hs', hid', hkey'⟩ := upsertStrategy_keeps hs name proto text
    exact (keyOf_eq_some_iff hsound).mpr ⟨s', hs', hid', hkey'⟩
  have hnamed : ∀ i, (∃ s ∈ t.strategies, s.id = i) → ∃ key, t.keyOf i = some key := by
    rintro i ⟨s, hs, hid⟩
    exact ⟨s.key, (keyOf_eq_some_iff h).mpr ⟨s, hs, hid, rfl⟩⟩
  refine ⟨_, s.id, by rw [Tables.ensureStrategy, hselect]; rfl,
    (keyOf_eq_some_iff hsound).mpr ⟨s, hs, rfl, hkey⟩, hsound, hkeeps, ?_, ?_, ?_⟩
  · exact List.map_congr_left (fun r hr => see_eq hkeeps (fun i hi => hnamed i (h.tcpRefs r hr i hi)))
  · exact List.map_congr_left (fun r hr => see_eq hkeeps (fun i hi => hnamed i (h.udpRefs r hr i hi)))
  · intro key
    rw [configOf_upsert, saying]
    split <;> rfl

theorem see_insertRow (rows : List (Row α)) {values : Nat × α}
    (hkey : t.keyOf values.1 = some key) :
    (insertRow runId rows values).map t.see =
      addSeen runId (rows.map t.see) (key, values.2) := by
  rw [insertRow, addSeen, List.map_append, List.map_singleton, List.map_map]
  simp only [Tables.see, Option.bind_some, hkey]
  rfl

theorem foldl_insertRow {rows : List (Row α)} {values : List (Nat × α)}
    {named : List ((String × String) × α)}
    (h : List.Forall₂ (fun v n => t.keyOf v.1 = some n.1 ∧ v.2 = n.2) values named) :
    (values.foldl (insertRow runId) rows).map t.see =
      named.foldl (addSeen runId) (rows.map t.see) := by
  induction h generalizing rows with
  | nil => rfl
  | cons hhead _ ih =>
      rw [List.foldl_cons, List.foldl_cons, ih, see_insertRow rows hhead.1, hhead.2]

theorem refs_foldl_insertRow (hsound : t.Sound) {rows : List (Row α)} {values : List (Nat × α)}
    {named : List ((String × String) × α)}
    (hrows : ∀ r ∈ rows, ∀ i, r.strategyId = some i → ∃ s ∈ t.strategies, s.id = i)
    (h : List.Forall₂ (fun v n => t.keyOf v.1 = some n.1 ∧ v.2 = n.2) values named) :
    ∀ r ∈ values.foldl (insertRow runId) rows, ∀ i, r.strategyId = some i →
      ∃ s ∈ t.strategies, s.id = i := by
  induction h generalizing rows with
  | nil => exact hrows
  | cons hhead _ ih =>
      refine ih ?_
      intro r hr i hi
      rcases List.mem_append.mp hr with hr | hr
      · exact hrows r hr i hi
      · rw [List.mem_singleton.mp hr] at hi
        obtain ⟨s, hs, hid, _⟩ := (keyOf_eq_some_iff hsound).mp hhead.1
        exact ⟨s, hs, hid.trans (Option.some.inj hi)⟩

theorem insertTcp_effect (runId : Nat) (hsound : t.Sound) {values : List (Nat × TcpCells)}
    {named : List ((String × String) × TcpCells)}
    (h : List.Forall₂ (fun v n => t.keyOf v.1 = some n.1 ∧ v.2 = n.2) values named) :
    Effect runId t (t.insertTcp runId values) named [] silent where
  sound := ⟨hsound.ids, hsound.keys, refs_foldl_insertRow hsound hsound.tcpRefs h, hsound.udpRefs⟩
  keeps := fun _ _ => id
  tcpRows := foldl_insertRow h
  udpRows := rfl
  config := fun _ => rfl

theorem insertUdp_effect (runId : Nat) (hsound : t.Sound) {values : List (Nat × UdpCells)}
    {named : List ((String × String) × UdpCells)}
    (h : List.Forall₂ (fun v n => t.keyOf v.1 = some n.1 ∧ v.2 = n.2) values named) :
    Effect runId t (t.insertUdp runId values) [] named silent where
  sound := ⟨hsound.ids, hsound.keys, hsound.tcpRefs, refs_foldl_insertRow hsound hsound.udpRefs h⟩
  keeps := fun _ _ => id
  tcpRows := rfl
  udpRows := foldl_insertRow h
  config := fun _ => rfl

/-- The texts of one strategy, in order. -/
def textsOf (key : String × String) (texts : List ((String × String) × String)) : List String :=
  (texts.filter (fun e => e.1 = key)).map Prod.snd

theorem textsOf_append (key : String × String) (a b : List ((String × String) × String)) :
    textsOf key (a ++ b) = textsOf key a ++ textsOf key b := by
  rw [textsOf, List.filter_append, List.map_append]
  rfl

theorem textsOf_cons (key : String × String) (e : (String × String) × String)
    (texts : List ((String × String) × String)) :
    textsOf key (e :: texts) =
      if e.1 = key then e.2 :: textsOf key texts else textsOf key texts := by
  rw [textsOf, List.filter_cons]
  by_cases h : e.1 = key <;> simp [h, textsOf]

def entryText (e : Entry α) : (String × String) × String := ((e.name, e.proto), e.configPath)

def entryRow (e : Entry α) : (String × String) × α := ((e.name, e.proto), e.cells)

/-- The cache of a flush holds ids of the strategies they stand for. -/
def Cached (t : Tables) (cache : Cache) : Prop :=
  ∀ key sid, cache.lookup key = some sid → t.keyOf sid = some key

theorem cached_nil (t : Tables) : Cached t [] := fun _ _ h => nomatch h

theorem Cached.cons {cache : Cache} {sid : Nat} (h : Cached t cache)
    (hkeeps : ∀ id key, t.keyOf id = some key → t'.keyOf id = some key)
    (hsid : t'.keyOf sid = some key) : Cached t' ((key, sid) :: cache) := by
  intro key' sid' hlookup
  rw [List.lookup_cons] at hlookup
  split at hlookup
  next heq =>
    obtain rfl := Option.some.inj hlookup
    rw [hsid, beq_iff_eq.mp heq]
  · exact hkeeps _ _ (h key' sid' hlookup)

theorem ensureStrategyCached_effect (runId : Nat) (h : t.Sound) {cache : Cache}
    (hcache : Cached t cache) (name proto text : String) :
    ∃ t' cache' sid, ensureStrategyCached t cache name proto text = some (t', cache', sid) ∧
      t'.keyOf sid = some (name, proto) ∧ Cached t' cache' ∧
      (∀ key, (cache'.lookup key).isSome = true ↔
        (cache.lookup key).isSome = true ∨ key = (name, proto)) ∧
      Effect runId t t' [] [] (fun key => if (cache.lookup key).isSome then [] else
        saying (name, proto) text key) := by
  rw [ensureStrategyCached]
  cases hlookup : cache.lookup (name, proto) with
  | some sid =>
      refine ⟨t, cache, sid, rfl, hcache _ _ hlookup, hcache, ?_, ?_⟩
      · intro key
        refine ⟨Or.inl, ?_⟩
        rintro (hkey | rfl)
        · exact hkey
        · rw [hlookup]
          rfl
      · have hsilent : (fun key => if (cache.lookup key).isSome then [] else
            saying (name, proto) text key) = silent := by
          funext key
          by_cases hkey : key = (name, proto)
          · rw [hkey, hlookup]
            rfl
          · rw [saying, if_neg hkey, ite_self]
            rfl
        rw [hsilent]
        exact Effect.refl h
  | none =>
      obtain ⟨t', sid, hensure, hsid, heffect⟩ :=
        ensureStrategy_effect runId h name proto text
      refine ⟨t', _, sid, by rw [hensure]; rfl, hsid, hcache.cons heffect.keeps hsid, ?_, ?_⟩
      · intro key
        rw [List.lookup_cons]
        by_cases hkey : key = (name, proto)
        · simp [hkey]
        · rw [beq_false_of_ne hkey, or_iff_left hkey]
      · have hsaid : (fun key => if (cache.lookup key).isSome then [] else
            saying (name, proto) text key) = saying (name, proto) text := by
          funext key
          by_cases hkey : key = (name, proto)
          · rw [hkey, hlookup]
            rfl
          · rw [saying, if_neg hkey, ite_self]
        rw [hsaid]
        exact heffect

/-- The loop says the first text of every strategy that is not cached. -/
theorem collectRows_effect (runId : Nat) (h : t.Sound) {cache : Cache} (hcache : Cached t cache)
    (entries : List (Entry α)) :
    ∃ t' cache' rows, collectRows t cache entries = some (t', cache', rows) ∧ Cached t' cache' ∧
      (∀ key, (cache'.lookup key).isSome = true ↔
        (cache.lookup key).isSome = true ∨ textsOf key (entries.map entryText) ≠ []) ∧
      List.Forall₂ (fun v n => t'.keyOf v.1 = some n.1 ∧ v.2 = n.2) rows (entries.map entryRow) ∧
      Effect runId t t' [] [] (fun key => if (cache.lookup key).isSome then [] else
        (textsOf key (entries.map entryText)).take 1) := by
  induction entries generalizing t cache with
  | nil =>
      refine ⟨t, cache, [], rfl, hcache, ?_, List.Forall₂.nil, ?_⟩
      · intro key
        simp [textsOf]
      · have hsilent : (fun key => if (cache.lookup key).isSome then [] else
            (textsOf key (([] : List (Entry α)).map entryText)).take 1) = silent := by
          funext key
          exact ite_self _
        rw [hsilent]
        exact Effect.refl h
  | cons e rest ih =>
      obtain ⟨t₁, cache₁, sid, hfirst, hsid, hcache₁, hlookup₁, heffect₁⟩ :=
        ensureStrategyCached_effect runId h hcache e.name e.proto e.configPath
      obtain ⟨t₂, cache₂, rows, hrest, hcache₂, hlookup₂, hrows, heffect₂⟩ :=
        ih heffect₁.sound hcache₁
      have hhead (key : String × String) : textsOf key ((e :: rest).map entryText) =
          saying (e.name, e.proto) e.configPath key ++ textsOf key (rest.map entryText) := by
        rw [List.map_cons, textsOf_cons, entryText, saying]
        by_cases hkey : key = (e.name, e.proto)
        · rw [if_pos hkey.symm, if_pos hkey, List.singleton_append]
        · rw [if_neg (Ne.symm hkey), if_neg hkey, List.nil_append]
      refine ⟨t₂, cache₂, (sid, e.cells) :: rows, ?_, hcache₂, ?_, ?_, ?_⟩
      · simp only [collectRows, hfirst, hrest, Option.bind_eq_bind, Option.bind_some]
      · intro key
        rw [hlookup₂, hlookup₁, hhead, saying]
        by_cases hkey : key = (e.name, e.proto)
        · simp [hkey]
        · simp [hkey]
      · exact List.Forall₂.cons ⟨heffect₂.keeps _ _ hsid, rfl⟩ hrows
      · have hsaid := heffect₁.trans heffect₂
        have heq : (fun key => (if (cache.lookup key).isSome then [] else
              saying (e.name, e.proto) e.configPath key) ++
            (if (cache₁.lookup key).isSome then [] else
              (textsOf key (rest.map entryText)).take 1)) =
            (fun key => if (cache.lookup key).isSome then [] else
              (textsOf key ((e :: rest).map entryText)).take 1) := by
          funext key
          have hcached := hlookup₁ key
          rw [hhead, saying]
          by_cases hold : (cache.lookup key).isSome = true
          · rw [if_pos hold, if_pos hold, if_pos (hcached.mpr (Or.inl hold))]
            rfl
          · rw [if_neg hold, if_neg hold]
            by_cases hkey : key = (e.name, e.proto)
            · rw [if_pos (hcached.mpr (Or.inr hkey)), if_pos hkey]
              rfl
            · rw [if_neg (fun hin => (hcached.mp hin).elim hold hkey), if_neg hkey]
              rfl
        rw [← heq]
        exact hsaid

/-- A flush adds the rows of its batch and says one text for each strategy in it. -/
theorem writeBatch_effect (runId : Nat) (h : t.Sound) (tcp : List (Entry TcpCells))
    (udp : List (Entry UdpCells)) :
    ∃ t', writeBatch t runId tcp udp = some t' ∧
      Effect runId t t' (tcp.map entryRow) (udp.map entryRow)
        (fun key => (textsOf key (tcp.map entryText ++ udp.map entryText)).take 1) := by
  obtain ⟨t₁, cache₁, tcpRows, hcollect₁, hcache₁, hlookup₁, hrows₁, heffect₁⟩ :=
    collectRows_effect runId h (cached_nil t) tcp
  have hinsert₁ := insertTcp_effect runId heffect₁.sound hrows₁
  obtain ⟨t₂, cache₂, udpRows, hcollect₂, _, _, hrows₂, heffect₂⟩ :=
    collectRows_effect runId hinsert₁.sound
      (fun key sid hl => hinsert₁.keeps _ _ (hcache₁ key sid hl)) udp
  have hinsert₂ := insertUdp_effect runId heffect₂.sound hrows₂
  refine ⟨t₂.insertUdp runId udpRows, ?_, ?_⟩
  · simp only [writeBatch, hcollect₁, hcollect₂, Option.bind_eq_bind, Option.bind_some]
  · have heffect := ((heffect₁.trans hinsert₁).trans heffect₂).trans hinsert₂
    have hsaid : (fun key => (((if (([] : Cache).lookup key).isSome then [] else
          (textsOf key (tcp.map entryText)).take 1) ++ silent key) ++
        (if (cache₁.lookup key).isSome then [] else
          (textsOf key (udp.map entryText)).take 1)) ++ silent key) =
        (fun key => (textsOf key (tcp.map entryText ++ udp.map entryText)).take 1) := by
      funext key
      have hcached := hlookup₁ key
      rw [textsOf_append]
      cases htcp : textsOf key (tcp.map entryText) with
      | nil =>
          have hno : ¬ (cache₁.lookup key).isSome = true :=
            fun hin => (hcached.mp hin).elim (fun hnil => nomatch hnil) (fun hne => hne htcp)
          rw [if_neg hno]
          simp [silent]
      | cons text texts =>
          have hyes : (cache₁.lookup key).isSome = true :=
            hcached.mpr (Or.inr (by rw [htcp]; exact List.cons_ne_nil _ _))
          rw [if_pos hyes]
          simp [silent]
    rw [hsaid] at heffect
    simpa using heffect

end Blockchecks.StoreEffect
