import Mathlib.Data.List.Nodup

namespace Blockchecks.OrderedDict

/-- A dictionary in insertion order, one entry for each key. -/
structure Dict (Key Value : Type) where
  entries : List (Key × Value)
  nodup : (entries.map Prod.fst).Nodup

variable {Key Value : Type}

namespace Dict

def empty : Dict Key Value := ⟨[], List.nodup_nil⟩

def keys (d : Dict Key Value) : List Key := d.entries.map Prod.fst

def values (d : Dict Key Value) : List Value := d.entries.map Prod.snd

def size (d : Dict Key Value) : Nat := d.entries.length

@[simp] theorem keys_empty : (empty : Dict Key Value).keys = [] := rfl

variable [DecidableEq Key]

def get? (d : Dict Key Value) (k : Key) : Option Value :=
  (d.entries.find? (fun e => decide (e.1 = k))).map Prod.snd

@[simp] theorem get?_empty (k : Key) : (empty : Dict Key Value).get? k = none := rfl

def erase (d : Dict Key Value) (k : Key) : Dict Key Value where
  entries := d.entries.filter (fun e => decide (e.1 ≠ k))
  nodup := d.nodup.sublist (List.filter_sublist.map Prod.fst)

theorem replace_keys (es : List (Key × Value)) (k : Key) (v : Value) :
    (es.map (fun e => if e.1 = k then (k, v) else e)).map Prod.fst = es.map Prod.fst := by
  rw [List.map_map]
  apply List.map_congr_left
  intro e _
  by_cases h : e.1 = k <;> simp [h]

/-- Assign a key. An existing key keeps its place, a new one goes last. -/
def set (d : Dict Key Value) (k : Key) (v : Value) : Dict Key Value :=
  if h : k ∈ d.keys then
    { entries := d.entries.map (fun e => if e.1 = k then (k, v) else e)
      nodup := by rw [replace_keys]; exact d.nodup }
  else
    { entries := d.entries ++ [(k, v)]
      nodup := by
        rw [List.map_append]
        exact List.nodup_append.mpr ⟨d.nodup, List.nodup_singleton _, by
          intro a ha b hb he
          rw [he, List.mem_singleton.mp hb] at ha
          exact h ha⟩ }

theorem get?_eq_some_iff (d : Dict Key Value) (k : Key) (v : Value) :
    d.get? k = some v ↔ (k, v) ∈ d.entries := by
  constructor
  · intro h
    obtain ⟨e, he, rfl⟩ := Option.map_eq_some_iff.mp h
    have hk : e.1 = k := by simpa using List.find?_some he
    exact hk ▸ List.mem_of_find?_eq_some he
  · intro hm
    cases hf : d.entries.find? (fun e => decide (e.1 = k)) with
    | none => exact absurd (List.find?_eq_none.mp hf (k, v) hm) (by simp)
    | some e =>
        have hk : e.1 = k := by simpa using List.find?_some hf
        have he : e = (k, v) :=
          List.inj_on_of_nodup_map d.nodup (List.mem_of_find?_eq_some hf) hm hk
        simp [get?, hf, he]

theorem mem_keys_iff (d : Dict Key Value) (k : Key) : k ∈ d.keys ↔ ∃ v, d.get? k = some v := by
  simp [keys, get?_eq_some_iff]

theorem get?_eq_none_iff (d : Dict Key Value) (k : Key) : d.get? k = none ↔ k ∉ d.keys := by
  rw [mem_keys_iff]
  cases d.get? k <;> simp

theorem get?_erase (d : Dict Key Value) (k j : Key) :
    (d.erase k).get? j = if j = k then none else d.get? j := by
  apply Option.ext
  intro v
  rw [get?_eq_some_iff]
  by_cases h : j = k <;> simp [erase, h, get?_eq_some_iff]

theorem get?_set (d : Dict Key Value) (k j : Key) (v : Value) :
    (d.set k v).get? j = if j = k then some v else d.get? j := by
  apply Option.ext
  intro w
  rw [get?_eq_some_iff]
  rw [set]
  split
  next hk =>
    obtain ⟨u, hu⟩ := (mem_keys_iff d k).mp hk
    have hm : (k, u) ∈ d.entries := (get?_eq_some_iff d k u).mp hu
    simp only [List.mem_map]
    by_cases h : j = k
    · subst h
      constructor
      · rintro ⟨e, _, he⟩
        by_cases hek : e.1 = j
        · simpa [hek] using he
        · rw [if_neg hek] at he
          exact absurd (congrArg Prod.fst he) hek
      · intro he
        have hv : v = w := by simpa using he
        exact ⟨(j, u), hm, by simp [hv]⟩
    · simp only [if_neg h, get?_eq_some_iff]
      constructor
      · rintro ⟨e, hme, he⟩
        by_cases hek : e.1 = k
        · rw [if_pos hek] at he
          exact absurd (congrArg Prod.fst he).symm h
        · rw [if_neg hek] at he
          exact he ▸ hme
      · intro hme
        exact ⟨(j, w), hme, by simp [h]⟩
  next hk =>
    simp only [List.mem_append, List.mem_singleton, Prod.mk.injEq]
    by_cases h : j = k
    · subst h
      have hno : (j, w) ∉ d.entries := fun hm => hk (List.mem_map.mpr ⟨_, hm, rfl⟩)
      simp [hno, eq_comm]
    · simp [h, get?_eq_some_iff]

theorem get?_foldl_set (f : Key → Value) (keys : List Key) (d : Dict Key Value) (k : Key) :
    (keys.foldl (fun d k => d.set k (f k)) d).get? k = if k ∈ keys then some (f k) else d.get? k := by
  induction keys generalizing d with
  | nil => rfl
  | cons key keys ih =>
      rw [List.foldl_cons, ih, get?_set]
      by_cases hkeys : k ∈ keys
      · rw [if_pos hkeys, if_pos (List.mem_cons_of_mem _ hkeys)]
      · by_cases hkey : k = key
        · rw [if_neg hkeys, if_pos hkey, if_pos (List.mem_cons.mpr (Or.inl hkey)), hkey]
        · rw [if_neg hkeys, if_neg hkey, if_neg (List.not_mem_cons_of_ne_of_not_mem hkey hkeys)]

theorem get?_foldl_entries {es : List (Key × Value)} (hnodup : (es.map Prod.fst).Nodup) (d : Dict Key Value)
    (k : Key) (v : Value) : (es.foldl (fun d e => d.set e.1 e.2) d).get? k = some v ↔
      (k, v) ∈ es ∨ k ∉ es.map Prod.fst ∧ d.get? k = some v := by
  induction es generalizing d with
  | nil => simp
  | cons e es ih =>
      obtain ⟨hfresh, hrest⟩ := List.nodup_cons.mp hnodup
      rw [List.foldl_cons, ih hrest, get?_set, List.mem_cons, List.map_cons, List.mem_cons]
      by_cases hk : k = e.1
      · subst hk
        have habsent : (e.1, v) ∉ es := fun hm => hfresh (List.mem_map.mpr ⟨_, hm, rfl⟩)
        rw [if_pos rfl, Option.some.injEq]
        constructor
        · rintro (hm | ⟨_, rfl⟩)
          · exact absurd hm habsent
          · exact Or.inl (Or.inl rfl)
        · rintro ((he | hm) | ⟨hne, _⟩)
          · exact Or.inr ⟨hfresh, (congrArg Prod.snd he).symm⟩
          · exact absurd hm habsent
          · exact absurd (Or.inl rfl) hne
      · have hne : (k, v) ≠ e := fun he => hk (congrArg Prod.fst he)
        rw [if_neg hk]
        simp only [hne, hk, false_or]

/-- Assigning the value that a key already has changes nothing. -/
theorem set_same {d : Dict Key Value} {k : Key} {v : Value} (h : d.get? k = some v) : d.set k v = d := by
  obtain ⟨es, hnodup⟩ := d
  have hm : (k, v) ∈ es := (get?_eq_some_iff _ _ _).mp h
  have hkey : k ∈ (⟨es, hnodup⟩ : Dict Key Value).keys := List.mem_map_of_mem hm
  have hes : es.map (fun e => if e.1 = k then (k, v) else e) = es := by
    refine (List.map_congr_left fun e he => ?_).trans (List.map_id es)
    by_cases hek : e.1 = k
    · rw [if_pos hek]
      exact List.inj_on_of_nodup_map hnodup hm he hek.symm
    · rw [if_neg hek]
      rfl
  rw [set, dif_pos hkey, mk.injEq]
  exact hes

theorem mem_keys_set (d : Dict Key Value) (k j : Key) (v : Value) :
    j ∈ (d.set k v).keys ↔ j = k ∨ j ∈ d.keys := by
  simp only [mem_keys_iff, get?_set]
  by_cases h : j = k <;> simp [h]

theorem mem_values_iff (d : Dict Key Value) (v : Value) :
    v ∈ d.values ↔ ∃ k, d.get? k = some v := by
  simp [values, get?_eq_some_iff]

end Dict

end Blockchecks.OrderedDict
