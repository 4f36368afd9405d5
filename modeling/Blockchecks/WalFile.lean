import Mathlib.Data.List.Induction
import Mathlib.Logic.Function.Basic

namespace Blockchecks.WalFile

variable {π β : Type} [DecidableEq π]

/-- A frame of a write-ahead log; commit marks the last one of a transaction. -/
structure Frame (π β : Type) where
  page : π
  block : β
  commit : Bool

abbrev Image (π β : Type) := π → Option β

def write (image : Image π β) (frame : Frame π β) : Image π β :=
  Function.update image frame.page (some frame.block)

def replay (image : Image π β) (frames : List (Frame π β)) : Image π β := frames.foldl write image

/-- The frames up to the last commit; what follows was never committed. -/
def committed (frames : List (Frame π β)) : List (Frame π β) :=
  (frames.reverse.dropWhile (fun f => !f.commit)).reverse

/-- What a reader finds in a database file with a log next to it. -/
def contents (image : Image π β) (frames : List (Frame π β)) : Image π β :=
  replay image (committed frames)

def lastBlock (frames : List (Frame π β)) (page : π) : Option β :=
  (frames.reverse.find? (fun f => f.page = page)).map Frame.block

/-- Every committed page already is in the database file. -/
def Checkpointed (image : Image π β) (frames : List (Frame π β)) : Prop :=
  ∀ page block, lastBlock (committed frames) page = some block → image page = some block

theorem replay_apply (image : Image π β) (frames : List (Frame π β)) (page : π) :
    replay image frames page = (lastBlock frames page).or (image page) := by
  induction frames using List.reverseRecOn with
  | nil => rfl
  | append_singleton frames frame ih =>
      rw [replay, List.foldl_append, List.foldl_cons, List.foldl_nil, write, lastBlock,
        List.reverse_append, List.reverse_singleton, List.singleton_append, List.find?_cons]
      by_cases h : frame.page = page
      · rw [← h, Function.update_self, decide_eq_true rfl]
        rfl
      · rw [Function.update_of_ne (Ne.symm h), decide_eq_false h]
        exact ih

theorem contents_nil (image : Image π β) : contents image [] = image := rfl

/-- A log may be dropped if and only if it is checkpointed. -/
theorem contents_eq_iff (image : Image π β) (frames : List (Frame π β)) :
    contents image frames = image ↔ Checkpointed image frames := by
  constructor
  · intro h page block hblock
    rw [← h, contents, replay_apply, hblock]
    rfl
  · intro h
    funext page
    rw [contents, replay_apply]
    cases hblock : lastBlock (committed frames) page with
    | none => rfl
    | some block => exact (h page block hblock).symm

end Blockchecks.WalFile
