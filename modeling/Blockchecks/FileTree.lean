import Mathlib.Data.List.Infix
import Mathlib.Data.List.Nodup
import Mathlib.Data.Rat.Defs

namespace Blockchecks.FileTree

/-- The names on the way from the root of the file system. -/
abbrev Path := List String

inductive Node (δ : Type) where
  | dir (mtime : ℚ)
  | file (mtime : ℚ) (size : Nat) (data : δ)

def Node.mtime {δ : Type} : Node δ → ℚ
  | .dir mtime => mtime
  | .file mtime _ _ => mtime

def Node.isDir {δ : Type} : Node δ → Bool
  | .dir _ => true
  | .file .. => false

def Node.size {δ : Type} : Node δ → Nat
  | .dir _ => 0
  | .file _ size _ => size

/-- The files and directories of a file system without links, in the order in
which a directory lists them. -/
structure FileSystem (δ : Type) where
  entries : List (Path × Node δ)
  distinct : (entries.map Prod.fst).Nodup

/-- Shell patterns with stars only. -/
def globMatch : List Char → List Char → Bool
  | [], name => name.isEmpty
  | '*' :: pattern, name => name.tails.any (globMatch pattern)
  | c :: pattern, name => name.head? == some c && globMatch pattern name.tail

theorem globMatch_star (pattern name : List Char) :
    globMatch ('*' :: pattern) name = true ↔ ∃ rest, rest <:+ name ∧ globMatch pattern rest = true := by
  simp only [globMatch, List.any_eq_true, List.mem_tails]

theorem globMatch_literal {pattern : List Char} (h : '*' ∉ pattern) (name : List Char) :
    globMatch pattern name = true ↔ name = pattern := by
  induction pattern generalizing name with
  | nil => rw [globMatch, List.isEmpty_iff]
  | cons c pattern ih =>
      have hc : c ≠ '*' := fun heq => h (heq ▸ List.mem_cons_self)
      rw [globMatch.eq_3 _ _ _ hc, Bool.and_eq_true, ih (fun hin => h (List.mem_cons_of_mem _ hin))]
      cases name with
      | nil => simp
      | cons d name => simp

namespace FileSystem

variable {δ : Type} (fs : FileSystem δ)

def node (p : Path) : Option (Node δ) := (fs.entries.find? (fun e => e.1 = p)).map Prod.snd

def isDir (p : Path) : Bool := (fs.node p).any Node.isDir

def isFile (p : Path) : Bool := (fs.node p).any (fun n => !n.isDir)

/-- The children of a directory whose name matches. -/
def glob (root : Path) (pattern : String) : List Path :=
  (fs.entries.map Prod.fst).filter (fun p => p ≠ [] && p.dropLast = root &&
    p.getLast?.any (fun name => globMatch pattern.toList name.toList))

/-- The descendants of a directory whose name matches. -/
def rglob (root : Path) (pattern : String) : List Path :=
  (fs.entries.map Prod.fst).filter (fun p => root.isPrefixOf p && p ≠ root &&
    p.getLast?.any (fun name => globMatch pattern.toList name.toList))

def filterPaths (keep : Path → Bool) : FileSystem δ where
  entries := fs.entries.filter (fun e => keep e.1)
  distinct := fs.distinct.sublist ((List.filter_sublist).map Prod.fst)

/-- Delete a file, or a directory with all that it holds. -/
def remove (p : Path) : FileSystem δ :=
  if fs.isDir p then fs.filterPaths (fun q => !p.isPrefixOf q) else fs.filterPaths (fun q => q ≠ p)

variable {fs} {p q : Path} {keep : Path → Bool}

theorem isSome_of_isFile (h : fs.isFile p = true) : (fs.node p).isSome = true := by
  rw [isFile, Option.any_eq_true] at h
  obtain ⟨n, hn, _⟩ := h
  rw [hn]
  rfl

theorem mem_glob_iff {root : Path} {pattern : String} : p ∈ fs.glob root pattern ↔
    (fs.node p).isSome = true ∧ p ≠ [] ∧ p.dropLast = root ∧
      ∃ name ∈ p.getLast?, globMatch pattern.toList name.toList = true := by
  have hnode : (fs.node p).isSome = true ↔ p ∈ fs.entries.map Prod.fst := by
    rw [node, Option.isSome_map, List.find?_isSome, List.mem_map]
    simp only [decide_eq_true_eq]
  rw [glob, List.mem_filter, hnode]
  simp only [Bool.and_eq_true, decide_eq_true_eq, Option.any_eq_true, Option.mem_def, and_assoc]

theorem node_filterPaths (keep : Path → Bool) (p : Path) :
    (fs.filterPaths keep).node p = if keep p then fs.node p else none := by
  rw [node, node]
  change ((fs.entries.filter (fun e => keep e.1)).find? (fun e => e.1 = p)).map Prod.snd = _
  induction fs.entries with
  | nil => simp
  | cons e entries ih =>
      rw [List.filter_cons, List.find?_cons]
      by_cases hp : e.1 = p
      · rw [hp, decide_eq_true rfl]
        by_cases hkeep : keep p = true
        · rw [if_pos hkeep, if_pos hkeep, List.find?_cons, decide_eq_true hp]
        · rw [if_neg hkeep, if_neg hkeep]
          rw [ih, if_neg hkeep]
      · rw [decide_eq_false hp]
        by_cases hkeep : keep e.1 = true
        · rw [if_pos hkeep, List.find?_cons, decide_eq_false hp]
          exact ih
        · rw [if_neg hkeep]
          exact ih

/-- What the removal of a path takes away. -/
def Takes (fs : FileSystem δ) (d p : Path) : Prop := d = p ∨ fs.isDir d = true ∧ d <+: p

theorem node_remove_of_takes (h : fs.Takes p q) : (fs.remove p).node q = none := by
  rw [remove]
  split
  next hdir =>
    have hpre : p <+: q := h.elim (fun heq => heq ▸ List.prefix_rfl) And.right
    rw [node_filterPaths, if_neg (by simpa using hpre)]
  next hdir =>
    have heq : p = q := h.resolve_right (fun hand => hdir hand.1)
    rw [node_filterPaths, if_neg (by simp [heq])]

theorem node_remove_of_not_takes (h : ¬ fs.Takes p q) : (fs.remove p).node q = fs.node q := by
  rw [Takes, not_or] at h
  rw [remove]
  split
  next hdir =>
    have hpre : p.isPrefixOf q = false :=
      Bool.eq_false_iff.mpr (fun hpre => h.2 ⟨hdir, List.isPrefixOf_iff_prefix.mp hpre⟩)
    rw [node_filterPaths, hpre]
    rfl
  next hdir => rw [node_filterPaths, if_pos (by simpa using Ne.symm h.1)]

theorem node_remove (fs : FileSystem δ) (p q : Path) :
    (fs.remove p).node q = none ∨ (fs.remove p).node q = fs.node q := by
  by_cases h : fs.Takes p q
  · exact Or.inl (node_remove_of_takes h)
  · exact Or.inr (node_remove_of_not_takes h)

theorem Takes.trans {d : Path} (h : fs.Takes d p) (hp : fs.Takes p q) : fs.Takes d q := by
  rcases h with rfl | ⟨hdir, hpre⟩
  · exact hp
  · rcases hp with rfl | ⟨_, hpre'⟩
    · exact Or.inr ⟨hdir, hpre⟩
    · exact Or.inr ⟨hdir, hpre.trans hpre'⟩

/-- A removal takes a path back only along with what it takes itself. -/
theorem Takes.of_remove {d : Path} (h : (fs.remove d).Takes p q) : fs.Takes p q := by
  refine h.imp_right (fun hand => ⟨?_, hand.2⟩)
  rcases node_remove fs d p with hnode | hnode
  · have hdir := hand.1
    rw [isDir, hnode] at hdir
    cases hdir
  · have hdir := hand.1
    rw [isDir, hnode] at hdir
    exact hdir

theorem node_removeAll_none {ds : List Path} (h : fs.node q = none) : (ds.foldl remove fs).node q = none := by
  induction ds generalizing fs with
  | nil => exact h
  | cons d ds ih =>
      refine ih ?_
      rcases node_remove fs d q with hnode | hnode
      · exact hnode
      · exact hnode.trans h

theorem node_removeAll_of_takes {ds : List Path} (h : ∃ d ∈ ds, fs.Takes d q) :
    (ds.foldl remove fs).node q = none := by
  induction ds generalizing fs with
  | nil =>
      obtain ⟨d, hd, _⟩ := h
      exact absurd hd List.not_mem_nil
  | cons d ds ih =>
      by_cases hfirst : fs.Takes d q
      · rw [List.foldl_cons]
        exact node_removeAll_none (node_remove_of_takes hfirst)
      · obtain ⟨d', hd', htakes⟩ := h
        rcases List.mem_cons.mp hd' with rfl | hd'
        · exact absurd htakes hfirst
        · refine ih ⟨d', hd', ?_⟩
          -- had d taken the directory d', it would have taken q
          have hstays : ¬ fs.Takes d d' := fun hd => hfirst (hd.trans htakes)
          refine htakes.imp_right (fun hand => ⟨?_, hand.2⟩)
          rw [isDir, node_remove_of_not_takes hstays]
          exact hand.1

theorem node_removeAll_of_not_takes {ds : List Path} (h : ∀ d ∈ ds, ¬ fs.Takes d q) :
    (ds.foldl remove fs).node q = fs.node q := by
  induction ds generalizing fs with
  | nil => rfl
  | cons d ds ih =>
      rw [List.foldl_cons, ih (fun d' hd' htakes => h d' (List.mem_cons_of_mem _ hd') htakes.of_remove),
        node_remove_of_not_takes (h d List.mem_cons_self)]

end FileSystem

end Blockchecks.FileTree
