import Blockchecks.FileTree
import Blockchecks.StrategyText
import Mathlib.Algebra.Order.Ring.Rat

namespace Blockchecks.GcCollect

open StrategyText FileTree

/-- The directories of an installation; the roots are those of the caller, if it has any. -/
structure Dirs where
  runtimeLogs : Path
  defaultOut : Path
  cache : Path
  data : Path
  state : Path
  projectLogs : Path
  tmp : Path
  shm : Path
  runLock : Path
  roots : Option (List Path)

structure GcItem where
  path : Path
  bytes : Nat
  reason : String

structure GcPlan where
  deletes : List GcItem := []
  skipped : List GcItem := []

def GcPlan.totalBytes (plan : GcPlan) : Nat := (plan.deletes.map GcItem.bytes).foldl (· + ·) 0

def tmpNfqws2Globs : List String :=
  ["bs_nfq_*.conf", "bs_hostlist_*", "bs_nfqws2_*.conf", "bs_discover_udp_*"]

def journalGlobs : List String := ["*.db-wal", "*.db-shm", "*-wal", "*-shm"]

def pathText (p : Path) : List Char := p.flatMap (fun name => '/' :: name.toList)

def isProtected (p : Path) : Bool := contains (pathText p) "week_cov"

/-- What collect_gc reads: the clock, the limits and the file system. -/
structure Scan (δ : Type) where
  fs : FileSystem δ
  now : ℚ
  maxAgeDays : ℚ
  nfqws2Keep : Int
  dirs : Dirs

namespace Scan

variable {δ : Type} (s : Scan δ)

def sz (p : Path) : Nat :=
  if s.fs.isFile p then ((s.fs.node p).map Node.size).getD 0
  else ((s.fs.entries.filter (fun e => p.isPrefixOf e.1)).map (fun e => e.2.size)).foldl (· + ·) 0

def mtime (p : Path) : ℚ := ((s.fs.node p).map Node.mtime).getD 0

def ageOk (p : Path) : Bool :=
  decide (s.maxAgeDays ≤ 0) ||
    (s.fs.node p).any (fun n => decide (s.maxAgeDays * 86400 ≤ s.now - n.mtime))

def oldFiles (root : Path) (pattern : String) : List Path :=
  (s.fs.glob root pattern).filter (fun p => s.fs.isFile p && s.ageOk p)

def oldDirs (root : Path) (pattern : String) : List Path :=
  (s.fs.glob root pattern).filter (fun p => s.fs.isDir p && s.ageOk p)

/-- The files of a pattern, the newest first. -/
def newestFirst (root : Path) (pattern : String) : List Path :=
  ((s.fs.glob root pattern).filter s.fs.isFile).mergeSort (fun p q => decide (s.mtime q ≤ s.mtime p))

def hasLiveRunLock : Bool := s.fs.isFile s.dirs.runLock

/-- The roots that are searched for logs. -/
def search : List Path :=
  s.dirs.roots.getD [s.dirs.runtimeLogs, s.dirs.defaultOut, s.dirs.cache, s.dirs.data, s.dirs.projectLogs]

def walRoots : List Path := (s.dirs.state :: s.dirs.data :: s.search).eraseDups

def harvestRoot (root : Path) : Path :=
  if root.getLast? = some "harvest" then root else root ++ ["harvest"]

def scanLogRoot (root : Path) : List (Path × String) :=
  if s.fs.isDir root then
    ((s.newestFirst root "nfqws2_*.log").drop s.nfqws2Keep.toNat).map (·, "nfqws2_log_over_keep") ++
      (s.oldFiles root "run_summary_*.json").map (·, "run_summary_age") ++
      (if s.fs.isDir (harvestRoot root) then
        (s.oldDirs (harvestRoot root) "harvest_*").map (·, "harvest_dir_age") else []) ++
      (s.oldFiles root "nfqws2_*_*.conf").map (·, "export_conf_age")
  else []

def scanCaches : List (Path × String) :=
  let dl := s.dirs.cache ++ ["zapret2-dl"]
  (if s.fs.isDir dl then
    (((s.newestFirst dl "*.tar.gz").drop 1).filter s.ageOk).map (·, "zapret2_dl_old") else []) ++
    (s.oldFiles s.dirs.cache "bs_voice_cache_old_*").map (·, "voice_cache_old")

def scanTmpNfqws2Artifacts : List (Path × String) :=
  if s.fs.isDir s.dirs.tmp then
    tmpNfqws2Globs.flatMap (fun pattern => (s.oldFiles s.dirs.tmp pattern).map (·, "tmp_nfqws2_artifact"))
  else []

def scanShmStaging : List (Path × String) :=
  if s.hasLiveRunLock || !s.fs.isDir s.dirs.shm then []
  else ((s.fs.rglob s.dirs.shm ".staging.*").filter (fun p => s.fs.isDir p && s.ageOk p)).map
    (·, "shm_staging_age")

def scanJsonlOld : List (Path × String) :=
  if s.fs.isDir s.dirs.runtimeLogs then
    ((s.fs.glob s.dirs.runtimeLogs "*.jsonl.old").filter s.fs.isFile).map (·, "events_live_old")
  else []

def journalReason (p : Path) : String :=
  if p.getLast?.any (fun name => "-wal".toList.isSuffixOf name.toList) then "sqlite_wal" else "sqlite_shm"

def scanSqliteWalShm : List (Path × String) :=
  s.walRoots.flatMap (fun root =>
    if s.fs.isDir root then
      journalGlobs.flatMap (fun pattern => (s.oldFiles root pattern).map (fun p => (p, journalReason p)))
    else [])

/-- All that collect_gc passes to its _add, in order. -/
def found : List (Path × String) :=
  s.search.flatMap s.scanLogRoot ++ s.scanCaches ++ s.scanTmpNfqws2Artifacts ++ s.scanShmStaging ++
    s.scanJsonlOld ++ s.scanSqliteWalShm

/-- _add: every path once, and a protected one only as skipped. -/
def add (acc : List Path × GcPlan) (p : Path × String) : List Path × GcPlan :=
  if p.1 ∈ acc.1 then acc
  else if (s.fs.node p.1).isNone then (acc.1 ++ [p.1], acc.2)
  else
    let item : GcItem := ⟨p.1, s.sz p.1, p.2⟩
    if isProtected p.1 then (acc.1 ++ [p.1], { acc.2 with skipped := acc.2.skipped ++ [item] })
    else (acc.1 ++ [p.1], { acc.2 with deletes := acc.2.deletes ++ [item] })

def collectGc : GcPlan := (s.found.foldl s.add ([], {})).2

end Scan

/-- Delete what is planned; an item that is gone already is passed over. -/
def applyGc {δ : Type} (fs : FileSystem δ) (plan : GcPlan) (dryRun : Bool) : FileSystem δ :=
  if dryRun then fs else plan.deletes.foldl (fun fs item => fs.remove item.path) fs

end Blockchecks.GcCollect
