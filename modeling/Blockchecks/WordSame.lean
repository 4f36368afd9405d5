import Blockchecks.WordRefs

namespace Blockchecks.WordSame

open WordRefs

variable {Word Sep : Type}

/-- The words that may be renamed as names, and the literals, which may not. -/
structure Naming (G : Grammar Word Sep) (f : Word → Word) (may kept : Word → Prop) : Prop where
  key : ∀ v, may v ∨ kept v → G.isKey (f v) = G.isKey v
  fresh : ∀ v, may v ∨ kept v → ¬ may (f v) ∧ ¬ kept (f v)
  apart : ∀ v, kept v → ¬ may v ∧ G.isKey v = false

section defs

variable (G : Grammar Word Sep) (f : Word → Word) (may : Word → Prop)

/-- The same separators with the same words, up to renamed names behind keywords. -/
def SameWords : Word → List (Sep × Word) → List (Sep × Word) → Prop
  | _, [], [] => True
  | w, (c, v) :: ps, (d, u) :: qs => c = d ∧
      (u = v ∨ G.links c = true ∧ G.isKey w = true ∧ may v ∧ u = f v) ∧ SameWords v ps qs
  | _, _, _ => False

/-- Whether a word behind a link and a keyword is the given one. -/
def refers [DecidableEq Word] (n : Word) : Word → List (Sep × Word) → Bool
  | _, [] => false
  | w, (c, v) :: ps => G.links c && G.isKey w && decide (v = n) || refers n v ps

end defs

def occurrences [DecidableEq Word] (n : Word) (ps : List (Sep × Word)) : Nat :=
  ps.countP (fun p => decide (p.2 = n))

variable {G : Grammar Word Sep} {f : Word → Word} {may kept : Word → Prop} {n m w w' : Word}
  {ps qs : List (Sep × Word)}

theorem SameWords.refl (w : Word) (ps : List (Sep × Word)) : SameWords G f may w ps ps := by
  induction ps generalizing w with
  | nil => trivial
  | cons p ps ih => exact ⟨rfl, Or.inl rfl, ih p.2⟩

theorem Naming.ne (h : Naming G f may kept) (hn : kept n) (hm : may m ∨ kept m) : f m ≠ n :=
  fun heq => (h.fresh m hm).2 (heq ▸ hn)

variable [DecidableEq Word]

theorem occurrences_cons (n : Word) (c : Sep) (v : Word) (ps : List (Sep × Word)) :
    occurrences n ((c, v) :: ps) = occurrences n ps + if v = n then 1 else 0 := by
  rw [occurrences, List.countP_cons]
  simp only [decide_eq_true_eq]
  rfl

/-- A literal stands as often in texts that are the same. -/
theorem SameWords.occurrences_eq (h : Naming G f may kept) (hn : kept n)
    (hsame : SameWords G f may w ps qs) : occurrences n qs = occurrences n ps := by
  induction ps generalizing w qs with
  | nil =>
      cases qs with
      | nil => rfl
      | cons q qs => exact absurd hsame id
  | cons p ps ih =>
      cases qs with
      | nil => exact absurd hsame id
      | cons q qs =>
          obtain ⟨c, v⟩ := p
          obtain ⟨d, u⟩ := q
          obtain ⟨rfl, hword, htail⟩ := hsame
          rw [occurrences_cons, occurrences_cons, ih htail]
          rcases hword with rfl | ⟨-, -, hmay, rfl⟩
          · rfl
          · rw [if_neg (h.ne hn (Or.inl hmay)), if_neg (fun heq : v = n => (h.apart n hn).1 (heq ▸ hmay))]

/-- One more name is renamed. -/
theorem SameWords.renamed (h : Naming G f may kept) (hm : may m) (hsame : SameWords G f may w ps qs)
    (hkey : G.isKey w' = G.isKey w) (free : Bool) :
    SameWords G f may w ps (renamed G m (f m) free w' qs) := by
  induction ps generalizing w w' qs free with
  | nil =>
      cases qs with
      | nil => trivial
      | cons q qs => exact absurd hsame id
  | cons p ps ih =>
      cases qs with
      | nil => exact absurd hsame id
      | cons q qs =>
          obtain ⟨c, v⟩ := p
          obtain ⟨d, u⟩ := q
          obtain ⟨rfl, hword, htail⟩ := hsame
          obtain ⟨u', free', hcons, hcase⟩ := renamed_cons (G := G) m (f m) free w' c u qs
          have hu : G.isKey u = G.isKey v := by
            rcases hword with rfl | ⟨-, -, hmay, rfl⟩
            · rfl
            · exact h.key v (Or.inl hmay)
          rw [hcons]
          refine ⟨rfl, ?_, ih htail hu free'⟩
          rcases hcase with ⟨rfl, -⟩ | ⟨rfl, rfl, -, hlink⟩
          · exact hword
          · rw [Bool.and_eq_true, Bool.and_eq_true, hkey] at hlink
            rcases hword with rfl | ⟨-, -, hmay, rfl⟩
            · exact Or.inr ⟨hlink.1.1, hlink.2, hm, rfl⟩
            · exact absurd hm (h.fresh v (Or.inl hmay)).1

section other

variable (h : Naming G f may kept) (hn : kept n) (hm : may m ∨ kept m) (hne : m ≠ n)

include h hn hm hne

/-- Renaming another word leaves a literal where it is. -/
theorem refers_renamed_other (hkey : G.isKey w' = G.isKey w) (free : Bool) :
    refers G n w' (renamed G m (f m) free w ps) = refers G n w ps := by
  induction ps generalizing w w' free with
  | nil => rfl
  | cons p ps ih =>
      obtain ⟨c, v⟩ := p
      obtain ⟨v', free', hcons, hcase⟩ := renamed_cons (G := G) m (f m) free w c v ps
      rw [hcons, refers, refers, hkey]
      rcases hcase with ⟨rfl, -⟩ | ⟨rfl, rfl, -⟩
      · rw [ih rfl free']
      · rw [ih (h.key v hm) free', decide_eq_false (h.ne hn hm), decide_eq_false hne]

theorem occurrences_renamed_other (free : Bool) :
    occurrences n (renamed G m (f m) free w ps) = occurrences n ps := by
  induction ps generalizing w free with
  | nil => rfl
  | cons p ps ih =>
      obtain ⟨c, v⟩ := p
      obtain ⟨v', free', hcons, hcase⟩ := renamed_cons (G := G) m (f m) free w c v ps
      rw [hcons, occurrences_cons, occurrences_cons, ih free']
      rcases hcase with ⟨rfl, -⟩ | ⟨rfl, rfl, -⟩
      · rfl
      · rw [if_neg (h.ne hn hm), if_neg hne]

end other

theorem renamed_eq_self (new : Word) (hno : refers G n w ps = false) (free : Bool) :
    renamed G n new free w ps = ps := by
  induction ps generalizing w free with
  | nil => rfl
  | cons p ps ih =>
      obtain ⟨c, v⟩ := p
      rw [refers, Bool.or_eq_false_iff] at hno
      obtain ⟨v', free', hcons, hcase⟩ := renamed_cons (G := G) n new free w c v ps
      rw [hcons, ih hno.2 free']
      rcases hcase with ⟨rfl, -⟩ | ⟨rfl, -, -, hlink⟩
      · rfl
      · rw [Bool.and_eq_true, Bool.and_eq_true] at hlink
        rw [hlink.1.1, hlink.2, decide_eq_true rfl] at hno
        exact absurd hno.1 (by decide)

/-- Renaming a literal takes one of its occurrences away, if a keyword stands before
one. The scan is free there, since a literal is no keyword. -/
theorem occurrences_renamed_self (h : Naming G f may kept) (hn : kept n) (free : Bool) :
    occurrences n (renamed G n (f n) free w ps) ≤ occurrences n ps ∧
      (refers G n w ps = true → free = true ∨ G.isKey w = false →
        occurrences n (renamed G n (f n) free w ps) < occurrences n ps) := by
  induction ps generalizing w free with
  | nil => exact ⟨Nat.le_refl _, fun hrefers => Bool.noConfusion hrefers⟩
  | cons p ps ih =>
      obtain ⟨c, v⟩ := p
      obtain ⟨v', free', hcons, hcase⟩ := renamed_cons (G := G) n (f n) free w c v ps
      rw [hcons, occurrences_cons, occurrences_cons]
      rcases hcase with ⟨rfl, rfl, hno⟩ | ⟨rfl, rfl, rfl, hlink⟩
      · obtain ⟨hle, hlt⟩ := @ih v' true
        refine ⟨Nat.add_le_add_right hle _, fun hrefers hfree => ?_⟩
        rw [refers, Bool.or_eq_true] at hrefers
        rcases hrefers with hhead | htail
        · rw [Bool.and_eq_true, Bool.and_eq_true] at hhead
          obtain ⟨⟨hlink, hkey⟩, hword⟩ := hhead
          rw [hlink, hkey, hword, Bool.and_true, Bool.true_and, Bool.and_true] at hno
          rcases hfree with hfree | hnokey
          · rw [hfree] at hno
            cases hno
          · rw [hkey] at hnokey
            cases hnokey
        · exact Nat.add_lt_add_right (hlt htail (Or.inl rfl)) _
      · obtain ⟨hle, -⟩ := @ih v false
        rw [if_pos rfl, if_neg (h.ne hn (Or.inr hn))]
        exact ⟨Nat.le_succ_of_le hle, fun _ _ => Nat.lt_succ_of_le hle⟩

section all

variable {entries : List (Word × Word)} (h : Naming G f may kept)
  (hentries : ∀ e ∈ entries, (may e.1 ∨ kept e.1) ∧ e.2 = f e.1)

include h hentries

theorem occurrences_renamedAll (hn : kept n) (w : Word) (ps : List (Sep × Word)) :
    occurrences n (renamedAll G entries w ps) ≤ occurrences n ps ∧
      (n ∈ entries.map Prod.fst → refers G n w ps = true →
        occurrences n (renamedAll G entries w ps) < occurrences n ps) := by
  induction entries generalizing ps with
  | nil => exact ⟨Nat.le_refl _, fun hmem => absurd hmem List.not_mem_nil⟩
  | cons e entries ih =>
      obtain ⟨m, new⟩ := e
      obtain ⟨⟨hm, hnew⟩, htail⟩ := List.forall_mem_cons.mp hentries
      obtain rfl : new = f m := hnew
      obtain ⟨hle, hlt⟩ := ih htail (renamed G m (f m) true w ps)
      by_cases hne : m = n
      · subst hne
        obtain ⟨hle', hlt'⟩ := @occurrences_renamed_self _ _ _ _ _ _ m w ps _ h hn true
        exact ⟨Nat.le_trans hle hle', fun _ hrefers => Nat.lt_of_le_of_lt hle (hlt' hrefers (Or.inl rfl))⟩
      · have hsame : occurrences n (renamed G m (f m) true w ps) = occurrences n ps :=
          occurrences_renamed_other h hn hm hne true
        have hrefers : refers G n w (renamed G m (f m) true w ps) = refers G n w ps :=
          refers_renamed_other h hn hm hne rfl true
        rw [hsame] at hle hlt
        rw [hrefers] at hlt
        refine ⟨hle, fun hmem => hlt ?_⟩
        exact (List.mem_cons.mp hmem).resolve_left (fun heq => hne heq.symm)

theorem sameWords_renamedAll (hsame : SameWords G f may w ps qs)
    (hqs : ∀ n, kept n → refers G n w qs = refers G n w ps)
    (hno : ∀ e ∈ entries, kept e.1 → refers G e.1 w ps = false) :
    SameWords G f may w ps (renamedAll G entries w qs) := by
  induction entries generalizing qs with
  | nil => exact hsame
  | cons e entries ih =>
      obtain ⟨m, new⟩ := e
      obtain ⟨⟨hm, hnew⟩, htail⟩ := List.forall_mem_cons.mp hentries
      obtain rfl : new = f m := hnew
      obtain ⟨hnom, hnotail⟩ := List.forall_mem_cons.mp hno
      rcases hm with hmay | hkept
      · refine ih htail (hsame.renamed h hmay rfl true) (fun n hn => ?_) hnotail
        have hne : m ≠ n := fun heq => (h.apart n hn).1 (heq ▸ hmay)
        rw [refers_renamed_other h hn (Or.inl hmay) hne rfl true, hqs n hn]
      · have hself := renamed_eq_self (f m) ((hqs m hkept).trans (hnom hkept)) true
        rw [renamedAll, List.foldl_cons, hself]
        exact ih htail hsame hqs hnotail

/-- The text is the same after all renamings exactly if they reach no literal. -/
theorem renamedAll_same_iff (w : Word) (ps : List (Sep × Word)) :
    SameWords G f may w ps (renamedAll G entries w ps) ↔
      ∀ e ∈ entries, kept e.1 → refers G e.1 w ps = false := by
  constructor
  · intro hsame e he hkept
    by_contra hrefers
    rw [Bool.not_eq_false] at hrefers
    have hlt := (occurrences_renamedAll h hentries hkept w ps).2 (List.mem_map_of_mem he) hrefers
    rw [hsame.occurrences_eq h hkept] at hlt
    exact Nat.lt_irrefl _ hlt
  · exact sameWords_renamedAll h hentries (SameWords.refl w ps) (fun _ _ => rfl)

end all

end Blockchecks.WordSame
