import Mathlib.Data.List.Forall2
import Mathlib.Data.List.Nodup

namespace Blockchecks.WordRefs

/-- A text is its first word and then separators, each with the word behind it. A
word refers to the word behind a link when it ends in a keyword and is not itself
referred to; it cannot be empty. -/
structure Grammar (Word Sep : Type) where
  isKey : Word → Bool
  links : Sep → Bool
  empty : Word

variable {Word Sep : Type}

section lists

theorem mem_zip_iff {α β : Type} {l : List α} {l' : List β} {a : α} {b : β} :
    (a, b) ∈ l.zip l' ↔ ∃ i : Nat, l[i]? = some a ∧ l'[i]? = some b := by
  simp only [List.mem_iff_getElem?, List.getElem?_zip_eq_some]

/-- What stands between two lists of the same length. -/
theorem mem_zip_trans {α β γ : Type} {R : α → β → Prop} {l : List α} {m : List β} {n : List γ}
    (h : List.Forall₂ R l m) {a : α} {c : γ} (hac : (a, c) ∈ l.zip n) :
    ∃ b, (a, b) ∈ l.zip m ∧ (b, c) ∈ m.zip n := by
  obtain ⟨i, ha, hc⟩ := mem_zip_iff.mp hac
  obtain ⟨hi, -⟩ := List.getElem?_eq_some_iff.mp ha
  have hb := List.getElem?_eq_getElem (h.length_eq ▸ hi)
  exact ⟨_, mem_zip_iff.mpr ⟨i, ha, hb⟩, mem_zip_iff.mpr ⟨i, hb, hc⟩⟩

end lists

section entries

variable {G : Grammar Word Sep}

/-- A replacement that a reference cannot be mistaken by. -/
structure Fair (G : Grammar Word Sep) (orig new : Word) : Prop where
  key : G.isKey new = G.isKey orig
  orig_ne : orig ≠ G.empty
  new_ne : new ≠ G.empty

/-- Replacements of different words, none of which gives one of the words. -/
structure Entries (G : Grammar Word Sep) (entries : List (Word × Word)) : Prop where
  nodup : (entries.map Prod.fst).Nodup
  fair : ∀ e ∈ entries, Fair G e.1 e.2
  apart : ∀ e ∈ entries, ∀ e' ∈ entries, e.1 ≠ e'.2

theorem Entries.tail {e : Word × Word} {entries : List (Word × Word)} (h : Entries G (e :: entries)) :
    Entries G entries where
  nodup := (List.nodup_cons.mp h.nodup).2
  fair := fun e he => h.fair e (List.mem_cons_of_mem _ he)
  apart := fun e he e' he' => h.apart e (List.mem_cons_of_mem _ he) e' (List.mem_cons_of_mem _ he')

theorem Entries.ne_head {e : Word × Word} {w v : Word} {entries : List (Word × Word)}
    (h : Entries G (e :: entries)) (hmem : (w, v) ∈ entries) : w ≠ e.1 := fun heq =>
  (List.nodup_cons.mp h.nodup).1 (heq ▸ List.mem_map_of_mem (f := Prod.fst) hmem)

end entries

variable [DecidableEq Word] (G : Grammar Word Sep)

/-- The words that are referred to. The flag says that the first word is not. -/
def reads : Bool → Word → List (Sep × Word) → List Word
  | _, _, [] => []
  | free, w, (sep, v) :: ps =>
      if (G.links sep && free && G.isKey w && decide (v ≠ G.empty)) = true then v :: reads false v ps
      else reads true v ps

/-- Replace a word behind a link and a keyword, from left to right. The flag says that
the first word is not a replaced one. -/
def renamed (orig new : Word) : Bool → Word → List (Sep × Word) → List (Sep × Word)
  | _, _, [] => []
  | free, w, (sep, v) :: ps =>
      if (G.links sep && free && G.isKey w && decide (v = orig)) = true then
        (sep, new) :: renamed orig new false v ps
      else (sep, v) :: renamed orig new true v ps

/-- Some reference to a word is replaced, or not replaced since what refers to it is
itself replaced. The flags of the recursion are those of the two scans. -/
def meets (orig : Word) (replaced : Bool) : Bool → Bool → Word → List (Sep × Word) → Bool
  | _, _, _, [] => false
  | read, sub, w, (sep, v) :: ps =>
      (G.links sep && read && G.isKey w && decide (v = orig) && (sub == replaced)) ||
        meets orig replaced (!(G.links sep && read && G.isKey w && decide (v ≠ G.empty)))
          (!(G.links sep && sub && G.isKey w && decide (v = orig))) v ps

variable {G} {orig new : Word}

theorem renamed_cons (orig new : Word) (free : Bool) (w : Word) (sep : Sep) (v : Word) (ps : List (Sep × Word)) :
    ∃ v' free', renamed G orig new free w ((sep, v) :: ps) = (sep, v') :: renamed G orig new free' v ps ∧
      (v' = v ∧ free' = true ∧ (G.links sep && free && G.isKey w && decide (v = orig)) = false ∨
        v = orig ∧ v' = new ∧ free' = false ∧ (G.links sep && free && G.isKey w) = true) := by
  by_cases hsub : (G.links sep && free && G.isKey w && decide (v = orig)) = true
  · rw [Bool.and_eq_true, decide_eq_true_iff] at hsub
    refine ⟨new, false, ?_, Or.inr ⟨hsub.2, rfl, rfl, hsub.1⟩⟩
    rw [renamed, if_pos (by rw [Bool.and_eq_true, decide_eq_true_iff]; exact hsub)]
  · refine ⟨v, true, ?_, Or.inl ⟨rfl, rfl, Bool.eq_false_iff.mpr hsub⟩⟩
    rw [renamed, if_neg hsub]

theorem mem_reads {v : Word} {ps : List (Sep × Word)} : ∀ {free : Bool} {w : Word}, v ∈ reads G free w ps →
    v ≠ G.empty ∧ ∃ sep, (sep, v) ∈ ps := by
  induction ps with
  | nil => exact fun h => (List.not_mem_nil h).elim
  | cons p ps ih =>
      obtain ⟨sep, u⟩ := p
      intro free w h
      have htail {free : Bool} (h : v ∈ reads G free u ps) : v ≠ G.empty ∧ ∃ s, (s, v) ∈ (sep, u) :: ps := by
        obtain ⟨hne, s, hs⟩ := ih h
        exact ⟨hne, s, List.mem_cons_of_mem _ hs⟩
      rw [reads] at h
      split at h
      next hread =>
        rcases List.mem_cons.mp h with rfl | h
        · rw [Bool.and_eq_true] at hread
          exact ⟨of_decide_eq_true hread.2, sep, List.mem_cons_self⟩
        · exact htail h
      next => exact htail h

/-- The references stay where they are. -/
theorem reads_renamed (hfair : Fair G orig new) (ps : List (Sep × Word)) : ∀ (read sub : Bool) (w w' : Word),
    G.isKey w' = G.isKey w →
    List.Forall₂ (fun n n' => n' = n ∨ n = orig ∧ n' = new) (reads G read w ps)
      (reads G read w' (renamed G orig new sub w ps)) := by
  induction ps with
  | nil => exact fun _ _ _ _ _ => .nil
  | cons p ps ih =>
      obtain ⟨sep, v⟩ := p
      intro read sub w w' hkey
      obtain ⟨v', sub', hcons, hcase⟩ := renamed_cons (G := G) orig new sub w sep v ps
      have hv : (v' = v ∨ v = orig ∧ v' = new) ∧ G.isKey v' = G.isKey v ∧ (v' ≠ G.empty ↔ v ≠ G.empty) := by
        rcases hcase with ⟨rfl, -⟩ | ⟨rfl, rfl, -⟩
        · exact ⟨Or.inl rfl, rfl, Iff.rfl⟩
        · exact ⟨Or.inr ⟨rfl, rfl⟩, hfair.key, iff_of_true hfair.new_ne hfair.orig_ne⟩
      rw [hcons, reads, reads, hkey]
      simp only [hv.2.2]
      split
      · exact .cons hv.1 (ih false sub' v v' hv.2.1)
      · exact ih true sub' v v' hv.2.1

/-- A reference stands for a reference to the replaced word, or to the word itself,
exactly when it meets the replacement so. -/
theorem met_iff (hfair : Fair G orig new) (hne : orig ≠ new) (replaced : Bool) (ps : List (Sep × Word)) :
    ∀ (read sub : Bool) (w w' : Word), G.isKey w' = G.isKey w →
      ((orig, if replaced then new else orig) ∈
          (reads G read w ps).zip (reads G read w' (renamed G orig new sub w ps)) ↔
        meets G orig replaced read sub w ps = true) := by
  induction ps with
  | nil => exact fun _ _ _ _ _ => iff_of_false List.not_mem_nil Bool.false_ne_true
  | cons p ps ih =>
      obtain ⟨sep, v⟩ := p
      intro read sub w w' hkey
      obtain ⟨v', sub', hcons, hcase⟩ := renamed_cons (G := G) orig new sub w sep v ps
      have hv : G.isKey v' = G.isKey v ∧ (v' ≠ G.empty ↔ v ≠ G.empty) := by
        rcases hcase with ⟨rfl, -⟩ | ⟨rfl, rfl, -⟩
        · exact ⟨rfl, Iff.rfl⟩
        · exact ⟨hfair.key, iff_of_true hfair.new_ne hfair.orig_ne⟩
      have hsub : sub' = !(G.links sep && sub && G.isKey w && decide (v = orig)) := by
        rcases hcase with ⟨-, rfl, hno⟩ | ⟨rfl, -, rfl, hyes⟩
        · rw [hno]
          rfl
        · rw [hyes, decide_eq_true rfl]
          rfl
      rw [hcons, reads, reads, meets, ← hsub, hkey, Bool.or_eq_true]
      simp only [hv.2]
      split
      next hread =>
        rw [hread, List.zip_cons_cons, List.mem_cons, ih false sub' v v' hv.1]
        refine or_congr ?_ Iff.rfl
        simp only [Bool.and_eq_true, decide_eq_true_iff] at hread
        obtain ⟨⟨⟨hlink, hfree⟩, hk⟩, -⟩ := hread
        -- this reference is replaced exactly when the second scan is free here
        have hword : v = orig → v' = if sub then new else orig := by
          rintro rfl
          rcases hcase with ⟨rfl, -, hno⟩ | ⟨-, rfl, -, hyes⟩
          · simp only [hlink, hk, Bool.true_and, Bool.and_true, decide_true] at hno
            rw [hno]
            rfl
          · simp only [hlink, hk, Bool.true_and, Bool.and_true] at hyes
            rw [hyes]
            rfl
        simp only [hlink, hfree, hk, Bool.true_and, Bool.and_true, Bool.and_eq_true, decide_eq_true_iff, beq_iff_eq,
          Prod.mk.injEq]
        constructor
        · rintro ⟨rfl, heq⟩
          rw [hword rfl] at heq
          refine ⟨rfl, ?_⟩
          cases sub <;> cases replaced <;> simp_all
        · rintro ⟨rfl, rfl⟩
          exact ⟨rfl, (hword rfl).symm⟩
      next hread =>
        rw [Bool.not_eq_true] at hread
        rw [hread, ih true sub' v v' hv.1]
        refine (or_iff_right (fun hmiss => ?_)).symm
        simp only [Bool.and_eq_true, decide_eq_true_iff] at hmiss
        obtain ⟨⟨⟨⟨hlink, hfree⟩, hk⟩, rfl⟩, -⟩ := hmiss
        simp [hlink, hfree, hk, hfair.orig_ne] at hread

/-- Replacing another word changes nothing for the references to this one. -/
theorem meets_renamed {other : Word} (hfair : Fair G orig new) (horig : other ≠ orig) (hnew : other ≠ new)
    (replaced : Bool) (ps : List (Sep × Word)) : ∀ (read sub free : Bool) (w w' : Word), G.isKey w' = G.isKey w →
      meets G other replaced read sub w' (renamed G orig new free w ps) =
        meets G other replaced read sub w ps := by
  induction ps with
  | nil => exact fun _ _ _ _ _ _ => rfl
  | cons p ps ih =>
      obtain ⟨sep, v⟩ := p
      intro read sub free w w' hkey
      obtain ⟨v', free', hcons, hcase⟩ := renamed_cons (G := G) orig new free w sep v ps
      have hv : G.isKey v' = G.isKey v ∧ (v' ≠ G.empty ↔ v ≠ G.empty) ∧ (v' = other ↔ v = other) := by
        rcases hcase with ⟨rfl, -⟩ | ⟨rfl, rfl, -⟩
        · exact ⟨rfl, Iff.rfl, Iff.rfl⟩
        · exact ⟨hfair.key, iff_of_true hfair.new_ne hfair.orig_ne, iff_of_false hnew.symm horig.symm⟩
      rw [hcons, meets, meets, hkey]
      simp only [hv.2.1, hv.2.2]
      rw [ih _ _ free' v v' hv.1]

variable (G)

/-- One replacement after the other. -/
def renamedAll (entries : List (Word × Word)) (w : Word) (ps : List (Sep × Word)) : List (Sep × Word) :=
  entries.foldl (fun ps e => renamed G e.1 e.2 true w ps) ps

variable {G}

theorem reads_renamedAll {entries : List (Word × Word)} (h : Entries G entries) (w : Word)
    (ps : List (Sep × Word)) :
    List.Forall₂ (fun n n' => n' = n ∨ (n, n') ∈ entries) (reads G true w ps)
      (reads G true w (renamedAll G entries w ps)) := by
  induction entries generalizing ps with
  | nil => exact List.forall₂_same.mpr (fun n _ => Or.inl rfl)
  | cons e entries ih =>
      have hhead := reads_renamed (h.fair e List.mem_cons_self) ps true true w w rfl
      have htail := ih h.tail (renamed G e.1 e.2 true w ps)
      refine List.forall₂_iff_zip.mpr ⟨hhead.length_eq.trans htail.length_eq, fun {a c} hac => ?_⟩
      obtain ⟨b, hab, hbc⟩ := mem_zip_trans hhead hac
      rcases List.forall₂_zip hhead hab with rfl | ⟨rfl, rfl⟩
      · exact (List.forall₂_zip htail hbc).imp_right (List.mem_cons_of_mem _)
      · refine Or.inr ?_
        rcases List.forall₂_zip htail hbc with rfl | hmem
        · exact List.mem_cons_self
        · exact absurd rfl (h.apart _ (List.mem_cons_of_mem _ hmem) e List.mem_cons_self)

theorem metAll_iff {entries : List (Word × Word)} (h : Entries G entries) {e : Word × Word} (he : e ∈ entries)
    (replaced : Bool) (w : Word) (ps : List (Sep × Word)) :
    (e.1, if replaced then e.2 else e.1) ∈
        (reads G true w ps).zip (reads G true w (renamedAll G entries w ps)) ↔
      meets G e.1 replaced true true w ps = true := by
  induction entries generalizing ps with
  | nil => cases he
  | cons e' entries ih =>
      have hfair := h.fair e' List.mem_cons_self
      have hhead := reads_renamed hfair ps true true w w rfl
      have htail := reads_renamedAll h.tail w (renamed G e'.1 e'.2 true w ps)
      have hself : ∀ e ∈ e' :: entries, e.1 ≠ e'.2 := fun e he => h.apart e he e' List.mem_cons_self
      -- the later entries leave what the first one gives, and its word
      have hlast (word : Word) (hword : word = e'.1 ∨ word = e'.2) (c : Word) : (word, c) ∉ entries := by
        intro hmem
        rcases hword with rfl | rfl
        · exact h.ne_head hmem rfl
        · exact hself _ (List.mem_cons_of_mem _ hmem) rfl
      rcases List.mem_cons.mp he with rfl | hmem
      · rw [← met_iff hfair (hself e he) replaced ps true true w w rfl]
        constructor
        · intro hac
          obtain ⟨b, hab, hbc⟩ := mem_zip_trans hhead hac
          have hb : b = e.1 ∨ b = e.2 := (List.forall₂_zip hhead hab).imp_right And.right
          rcases List.forall₂_zip htail hbc with heq | hback
          · rwa [← heq] at hab
          · exact absurd hback (hlast b hb _)
        · intro hab
          obtain ⟨i, ha, hb⟩ := mem_zip_iff.mp hab
          obtain ⟨hi, -⟩ := List.getElem?_eq_some_iff.mp hb
          have hc := List.getElem?_eq_getElem (htail.length_eq ▸ hi)
          have hbc := mem_zip_iff.mpr ⟨i, hb, hc⟩
          rcases List.forall₂_zip htail hbc with heq | hback
          · rw [heq] at hc
            exact mem_zip_iff.mpr ⟨i, ha, hc⟩
          · refine absurd hback (hlast _ ?_ _)
            cases replaced
            · exact Or.inl rfl
            · exact Or.inr rfl
      · rw [← meets_renamed hfair (h.ne_head hmem) (hself e he) replaced ps true true true w w rfl, ← ih h.tail hmem]
        constructor
        · intro hac
          obtain ⟨b, hab, hbc⟩ := mem_zip_trans hhead hac
          rcases List.forall₂_zip hhead hab with rfl | ⟨heq, -⟩
          · exact hbc
          · exact absurd heq (h.ne_head hmem)
        · intro hbc
          obtain ⟨i, hb, hc⟩ := mem_zip_iff.mp hbc
          obtain ⟨hi, -⟩ := List.getElem?_eq_some_iff.mp hb
          have ha := List.getElem?_eq_getElem (hhead.length_eq.symm ▸ hi)
          have hab := mem_zip_iff.mpr ⟨i, ha, hb⟩
          rcases List.forall₂_zip hhead hab with heq | ⟨-, heq⟩
          · rw [← heq] at ha
            exact mem_zip_iff.mpr ⟨i, ha, hc⟩
          · exact absurd heq (hself e he)

end Blockchecks.WordRefs
