import Mathlib.Logic.Function.Basic
import Mathlib.Data.List.Basic

namespace Blockchecks.StickyOptions

variable {Kind Value Core Other : Type}

/-- A line of a configuration in which an option stays in force until it is
set again. -/
inductive Directive (Kind Value Core : Type) where
  | set (kind : Kind) (value : Value)
  | use (core : Core)
  | other

/-- What is used, with the options in force at its position. -/
structure Instance (Kind Value Core : Type) where
  core : Core
  options : Kind → Option Value

def Directive.mapCore (f : Core → Other) : Directive Kind Value Core → Directive Kind Value Other
  | .set kind value => .set kind value
  | .use core => .use (f core)
  | .other => .other

def Instance.mapCore (f : Core → Other) (i : Instance Kind Value Core) : Instance Kind Value Other :=
  ⟨f i.core, i.options⟩

section options

variable [DecidableEq Kind]

def after (options : Kind → Option Value) : List (Directive Kind Value Core) → Kind → Option Value
  | [] => options
  | .set kind value :: ds => after (Function.update options kind (some value)) ds
  | .use _ :: ds | .other :: ds => after options ds

def instances (options : Kind → Option Value) :
    List (Directive Kind Value Core) → List (Instance Kind Value Core)
  | [] => []
  | .set kind value :: ds => instances (Function.update options kind (some value)) ds
  | .use core :: ds => ⟨core, options⟩ :: instances options ds
  | .other :: ds => instances options ds

theorem after_append (options : Kind → Option Value) (ds es : List (Directive Kind Value Core)) :
    after options (ds ++ es) = after (after options ds) es := by
  induction ds generalizing options with
  | nil => rfl
  | cons d ds ih =>
      cases d with
      | set kind value => exact ih _
      | use core => exact ih _
      | other => exact ih _

theorem instances_append (options : Kind → Option Value) (ds es : List (Directive Kind Value Core)) :
    instances options (ds ++ es) = instances options ds ++ instances (after options ds) es := by
  induction ds generalizing options with
  | nil => rfl
  | cons d ds ih =>
      cases d with
      | set kind value => exact ih _
      | use core => exact congrArg (List.cons _) (ih _)
      | other => exact ih _

/-- Lines that neither set nor use anything. -/
def Idle (ds : List (Directive Kind Value Core)) : Prop := ∀ d ∈ ds, d = .other

theorem Idle.run {ds : List (Directive Kind Value Core)} (h : Idle ds) (options : Kind → Option Value) :
    instances options ds = [] ∧ after options ds = options := by
  induction ds with
  | nil => exact ⟨rfl, rfl⟩
  | cons d ds ih =>
      obtain rfl := h d List.mem_cons_self
      exact ih (fun e he => h e (List.mem_cons_of_mem _ he))

theorem after_mapCore (f : Core → Other) (options : Kind → Option Value)
    (ds : List (Directive Kind Value Core)) :
    after options (ds.map (Directive.mapCore f)) = after options ds := by
  induction ds generalizing options with
  | nil => rfl
  | cons d ds ih =>
      cases d with
      | set kind value => exact ih _
      | use core => exact ih _
      | other => exact ih _

theorem instances_mapCore (f : Core → Other) (options : Kind → Option Value)
    (ds : List (Directive Kind Value Core)) :
    instances options (ds.map (Directive.mapCore f)) =
      (instances options ds).map (Instance.mapCore f) := by
  induction ds generalizing options with
  | nil => rfl
  | cons d ds ih =>
      cases d with
      | set kind value => exact ih _
      | use core => exact congrArg (List.cons _) (ih _)
      | other => exact ih _

theorem cores_instances (options options' : Kind → Option Value)
    (ds : List (Directive Kind Value Core)) :
    (instances options ds).map Instance.core = (instances options' ds).map Instance.core := by
  induction ds generalizing options options' with
  | nil => rfl
  | cons d ds ih =>
      cases d with
      | set kind value => exact ih _ _
      | use core => exact congrArg (List.cons core) (ih _ _)
      | other => exact ih _ _

/-- The lines set the option before they use anything, or use nothing. -/
def SetsFirst (kind : Kind) : List (Directive Kind Value Core) → Prop
  | [] => True
  | .set k _ :: ds => k = kind ∨ SetsFirst kind ds
  | .use _ :: _ => False
  | .other :: ds => SetsFirst kind ds

instance decidableSetsFirst (kind : Kind) :
    (ds : List (Directive Kind Value Core)) → Decidable (SetsFirst kind ds)
  | [] => isTrue trivial
  | .set k _ :: ds =>
      have := decidableSetsFirst kind ds
      inferInstanceAs (Decidable (k = kind ∨ SetsFirst kind ds))
  | .use _ :: _ => isFalse id
  | .other :: ds => decidableSetsFirst kind ds

/-- Two starts give the same options everywhere exactly when they agree on
every option that the lines do not set first. -/
theorem options_instances_eq_iff (s t : Kind → Option Value) (ds : List (Directive Kind Value Core)) :
    (instances s ds).map Instance.options = (instances t ds).map Instance.options ↔
      ∀ kind, s kind = t kind ∨ SetsFirst kind ds := by
  induction ds generalizing s t with
  | nil => exact iff_of_true rfl (fun _ => Or.inr trivial)
  | cons d ds ih =>
      cases d with
      | set k value =>
          refine (ih _ _).trans (forall_congr' (fun kind => ?_))
          by_cases hk : k = kind
          · rw [← hk, Function.update_self, Function.update_self]
            exact iff_of_true (Or.inl rfl) (Or.inr (Or.inl rfl))
          · rw [Function.update_of_ne (Ne.symm hk), Function.update_of_ne (Ne.symm hk)]
            exact or_congr_right (iff_of_eq (by rw [SetsFirst, or_iff_right hk]))
      | use core =>
          constructor
          · intro h kind
            have hst : s = t := (List.cons.inj h).1
            exact Or.inl (congrFun hst kind)
          · intro h
            have hst : s = t := funext (fun kind => (h kind).resolve_right id)
            rw [hst]
      | other => exact ih _ _

end options

end Blockchecks.StickyOptions
