import Blockchecks.GcCollect
import Blockchecks.WalFile

namespace Blockchecks.GcSafety

open StrategyText FileTree GcCollect WalFile

variable {β : Type}

/-- What a file holds: the pages of a database, the frames of a log, or anything else. -/
inductive FileData (β : Type) where
  | database (image : Image Nat β)
  | log (frames : List (Frame Nat β))
  | other

def walPath (main : Path) : Path :=
  match main.getLast? with
  | some name => main.dropLast ++ [name ++ "-wal"]
  | none => []

def imageAt (fs : FileSystem (FileData β)) (main : Path) : Option (Image Nat β) :=
  match fs.node main with
  | some (.file _ _ (.database image)) => some image
  | _ => none

def framesAt (fs : FileSystem (FileData β)) (p : Path) : List (Frame Nat β) :=
  match fs.node p with
  | some (.file _ _ (.log frames)) => frames
  | _ => []

/-- The committed contents of a database, with the log next to its file. -/
def contentsOf (fs : FileSystem (FileData β)) (main : Path) : Option (Image Nat β) :=
  (imageAt fs main).map (fun image => contents image (framesAt fs (walPath main)))

section scan

variable {δ : Type} (s : Scan δ)

/-- A file next to a database, old enough, in one of the roots. -/
def Journal (p : Path) : Prop :=
  p.dropLast ∈ s.walRoots ∧ s.fs.isDir p.dropLast = true ∧ s.fs.isFile p = true ∧ s.ageOk p = true ∧
    p ≠ [] ∧ ∃ name ∈ p.getLast?, "-wal".toList <:+ name.toList ∨ "-shm".toList <:+ name.toList

/-- What the other rules list. -/
def Listed (p : Path) : Prop :=
  p ∈ (s.search.flatMap s.scanLogRoot ++ s.scanCaches ++ s.scanTmpNfqws2Artifacts ++
    s.scanShmStaging ++ s.scanJsonlOld).map Prod.fst

/-- A path goes with a listed file or directory that no rule protects. -/
def Doomed (p : Path) : Prop :=
  ∃ d, (Listed s d ∨ Journal s d) ∧ isProtected d = false ∧ s.fs.Takes d p

variable {s} {p : Path}

theorem journalGlobs_match (name : String) :
    (∃ pattern ∈ journalGlobs, globMatch pattern.toList name.toList = true) ↔
      "-wal".toList <:+ name.toList ∨ "-shm".toList <:+ name.toList := by
  have hsuffix {text : List Char} (htext : '*' ∉ text) :
      globMatch ('*' :: text) name.toList = true ↔ text <:+ name.toList := by
    rw [globMatch_star]
    simp only [globMatch_literal htext, exists_eq_right]
  have hwal : ".db-wal".toList <:+ name.toList → "-wal".toList <:+ name.toList :=
    fun h => (by decide : "-wal".toList <:+ ".db-wal".toList).trans h
  have hshm : ".db-shm".toList <:+ name.toList → "-shm".toList <:+ name.toList :=
    fun h => (by decide : "-shm".toList <:+ ".db-shm".toList).trans h
  have h₁ := hsuffix (by decide : '*' ∉ ".db-wal".toList)
  have h₂ := hsuffix (by decide : '*' ∉ ".db-shm".toList)
  have h₃ := hsuffix (by decide : '*' ∉ "-wal".toList)
  have h₄ := hsuffix (by decide : '*' ∉ "-shm".toList)
  constructor
  · rintro ⟨pattern, hpattern, hmatch⟩
    simp only [journalGlobs, List.mem_cons, List.not_mem_nil, or_false] at hpattern
    rcases hpattern with rfl | rfl | rfl | rfl
    · exact Or.inl (hwal (h₁.mp hmatch))
    · exact Or.inr (hshm (h₂.mp hmatch))
    · exact Or.inl (h₃.mp hmatch)
    · exact Or.inr (h₄.mp hmatch)
  · rintro (h | h)
    · exact ⟨"*-wal", by decide, h₃.mpr h⟩
    · exact ⟨"*-shm", by decide, h₄.mpr h⟩

theorem mem_scanSqliteWalShm : p ∈ s.scanSqliteWalShm.map Prod.fst ↔ Journal s p := by
  rw [Scan.scanSqliteWalShm, List.mem_map]
  constructor
  · rintro ⟨⟨q, reason⟩, hq, rfl⟩
    obtain ⟨root, hroot, hq⟩ := List.mem_flatMap.mp hq
    split at hq
    next hdir =>
      obtain ⟨pattern, hpattern, hq⟩ := List.mem_flatMap.mp hq
      obtain ⟨q', hq', heq⟩ := List.mem_map.mp hq
      obtain ⟨rfl, _⟩ := Prod.mk.inj heq
      obtain ⟨hglob, hold⟩ := List.mem_filter.mp hq'
      obtain ⟨_, hne, rfl, name, hname, hmatch⟩ := FileSystem.mem_glob_iff.mp hglob
      rw [Bool.and_eq_true] at hold
      exact ⟨hroot, hdir, hold.1, hold.2, hne, name, hname,
        (journalGlobs_match name).mp ⟨pattern, hpattern, hmatch⟩⟩
    · exact absurd hq List.not_mem_nil
  · rintro ⟨hroot, hdir, hisFile, hage, hne, name, hname, hend⟩
    obtain ⟨pattern, hpattern, hmatch⟩ := (journalGlobs_match name).mpr hend
    refine ⟨(p, Scan.journalReason p), List.mem_flatMap.mpr ⟨p.dropLast, hroot, ?_⟩, rfl⟩
    rw [if_pos hdir]
    refine List.mem_flatMap.mpr ⟨pattern, hpattern, List.mem_map.mpr ⟨p, ?_, rfl⟩⟩
    have hglob := FileSystem.mem_glob_iff.mpr
      ⟨FileSystem.isSome_of_isFile hisFile, hne, rfl, name, hname, hmatch⟩
    refine List.mem_filter.mpr ⟨hglob, ?_⟩
    rw [hisFile, hage]
    rfl

theorem mem_found : p ∈ s.found.map Prod.fst ↔ Listed s p ∨ Journal s p := by
  rw [Scan.found, List.map_append, List.mem_append, mem_scanSqliteWalShm]
  rfl

theorem mem_seen_add (f : Path × String) (acc : List Path × GcPlan) :
    p ∈ (s.add acc f).1 ↔ p ∈ acc.1 ∨ p = f.1 := by
  have hadded : p ∈ acc.1 ++ [f.1] ↔ p ∈ acc.1 ∨ p = f.1 := by
    rw [List.mem_append, List.mem_singleton]
  rw [Scan.add]
  split
  next hseen => exact (or_iff_left_of_imp (fun heq => heq ▸ hseen)).symm
  · split
    · exact hadded
    · split
      · exact hadded
      · exact hadded

theorem mem_deletes_add (f : Path × String) (acc : List Path × GcPlan) :
    p ∈ (s.add acc f).2.deletes.map GcItem.path ↔
      p ∈ acc.2.deletes.map GcItem.path ∨
        p = f.1 ∧ f.1 ∉ acc.1 ∧ (s.fs.node f.1).isSome = true ∧ isProtected f.1 = false := by
  rw [Scan.add]
  split
  next hseen => exact (or_iff_left (fun h => h.2.1 hseen)).symm
  next hseen =>
    rw [and_iff_right hseen, ← Option.not_isNone, Bool.not_eq_true']
    split
    next hnone => exact (or_iff_left (fun h => Bool.noConfusion (hnone.symm.trans h.2.1))).symm
    next hnone =>
      rw [and_iff_right (Bool.eq_false_iff.mpr hnone)]
      split
      next hkept => exact (or_iff_left (fun h => Bool.noConfusion (hkept.symm.trans h.2))).symm
      next hfree =>
        rw [and_iff_left (Bool.eq_false_iff.mpr hfree), List.map_append, List.mem_append]
        exact or_congr_right List.mem_singleton

/-- Each path is planned once, whatever the order in which it is found. -/
theorem mem_foldl_add (found : List (Path × String)) (acc : List Path × GcPlan) :
    p ∈ (found.foldl s.add acc).2.deletes.map GcItem.path ↔
      p ∈ acc.2.deletes.map GcItem.path ∨ p ∉ acc.1 ∧ p ∈ found.map Prod.fst ∧
        (s.fs.node p).isSome = true ∧ isProtected p = false := by
  induction found generalizing acc with
  | nil => exact (or_iff_left (fun h => absurd h.2.1 List.not_mem_nil)).symm
  | cons f found ih =>
      rw [List.foldl_cons, ih, mem_deletes_add, mem_seen_add, List.map_cons, List.mem_cons, or_assoc]
      refine or_congr_right ?_
      by_cases heq : p = f.1
      · subst heq
        rw [and_iff_right rfl, or_iff_left (fun h => h.1 (Or.inr rfl))]
        exact and_congr_right (fun _ => (and_iff_right (Or.inl rfl)).symm)
      · rw [or_iff_right (fun h => heq h.1), or_iff_left heq, or_iff_right heq]

theorem mem_collectGc : p ∈ s.collectGc.deletes.map GcItem.path ↔
    (Listed s p ∨ Journal s p) ∧ (s.fs.node p).isSome = true ∧ isProtected p = false := by
  rw [Scan.collectGc, mem_foldl_add, mem_found]
  simp

end scan

variable {s : Scan (FileData β)} {p : Path}

theorem apply_removeAll (fs : FileSystem (FileData β)) (plan : GcPlan) :
    applyGc fs plan false = (plan.deletes.map GcItem.path).foldl FileSystem.remove fs := by
  rw [applyGc, List.foldl_map]
  rfl

/-- What is left of a path after a run. -/
theorem node_after (s : Scan (FileData β)) (p : Path) :
    (Doomed s p → (applyGc s.fs s.collectGc false).node p = none) ∧
      (¬ Doomed s p → (applyGc s.fs s.collectGc false).node p = s.fs.node p) := by
  rw [apply_removeAll]
  constructor
  · rintro ⟨d, hlisted, hfree, htakes⟩
    by_cases hnode : (s.fs.node d).isSome = true
    · exact FileSystem.node_removeAll_of_takes ⟨d, mem_collectGc.mpr ⟨hlisted, hnode, hfree⟩, htakes⟩
    · have hnone : s.fs.node d = none := Option.not_isSome_iff_eq_none.mp hnode
      have heq : d = p := by
        refine htakes.resolve_right (fun hand => ?_)
        have hdir := hand.1
        rw [FileSystem.isDir, hnone] at hdir
        cases hdir
      exact FileSystem.node_removeAll_none (heq ▸ hnone)
  · intro hno
    refine FileSystem.node_removeAll_of_not_takes (fun d hd htakes => ?_)
    obtain ⟨hlisted, _, hfree⟩ := mem_collectGc.mp hd
    exact hno ⟨d, hlisted, hfree, htakes⟩

/-- A database that a run spares: neither its file goes nor a log that holds
pages its file does not have. -/
def Spared (s : Scan (FileData β)) (main : Path) : Prop :=
  ∀ image, imageAt s.fs main = some image →
    ¬ Doomed s main ∧ (Doomed s (walPath main) → Checkpointed image (framesAt s.fs (walPath main)))

/-- A run keeps the committed contents of exactly the databases that it spares. -/
theorem contents_kept_iff (s : Scan (FileData β)) (main : Path) :
    contentsOf (applyGc s.fs s.collectGc false) main = contentsOf s.fs main ↔ Spared s main := by
  obtain ⟨hgone, hstays⟩ := node_after s main
  obtain ⟨hgoneWal, hstaysWal⟩ := node_after s (walPath main)
  rw [Spared]
  cases himage : imageAt s.fs main with
  | none =>
      refine iff_of_true ?_ (fun _ h => nomatch h)
      have hafter : imageAt (applyGc s.fs s.collectGc false) main = none := by
        by_cases hdoomed : Doomed s main
        · rw [imageAt, hgone hdoomed]
        · rw [imageAt, hstays hdoomed]
          exact himage
      rw [contentsOf, contentsOf, hafter, himage, Option.map_none, Option.map_none]
  | some image =>
      simp only [Option.some.injEq, forall_eq']
      by_cases hdoomed : Doomed s main
      · refine iff_of_false ?_ (fun h => h.1 hdoomed)
        rw [contentsOf, contentsOf, imageAt, hgone hdoomed, himage]
        exact fun h => nomatch h
      · have hafter : imageAt (applyGc s.fs s.collectGc false) main = some image := by
          rw [imageAt, hstays hdoomed]
          exact himage
        rw [and_iff_right hdoomed, contentsOf, contentsOf, hafter, himage, Option.map_some,
          Option.map_some, Option.some.injEq]
        by_cases hwal : Doomed s (walPath main)
        · have hframes : framesAt (applyGc s.fs s.collectGc false) (walPath main) = [] := by
            rw [framesAt, hgoneWal hwal]
          rw [hframes, contents_nil, eq_comm, contents_eq_iff]
          exact ⟨fun h _ => h, fun h => h hwal⟩
        · have hframes : framesAt (applyGc s.fs s.collectGc false) (walPath main) =
              framesAt s.fs (walPath main) := by
            rw [framesAt, hstaysWal hwal]
            rfl
          rw [hframes]
          exact iff_of_true rfl (fun h => absurd h hwal)

/-- A state directory whose database has a committed page in its log, during a
run that holds the lock. -/
def heldState : FileSystem (FileData Nat) where
  entries := [(["state"], .dir 0),
    (["state", "run.lock"], .file 0 4 .other),
    (["state", "state.db"], .file 0 4096 (.database (fun page => if page = 1 then some 0 else none))),
    (["state", "state.db-wal"], .file 0 4152 (.log [⟨1, 7, true⟩]))]
  distinct := by decide

def fortnight : Scan (FileData Nat) where
  fs := heldState
  now := 1209600
  maxAgeDays := 14
  nfqws2Keep := 50
  dirs :=
    { runtimeLogs := ["logs"], defaultOut := ["out"], cache := ["cache"], data := ["data"]
      state := ["state"], projectLogs := ["project", "logs"], tmp := ["tmp"]
      shm := ["dev", "shm", "blockchecks"], runLock := ["state", "run.lock"], roots := none }

end Blockchecks.GcSafety
