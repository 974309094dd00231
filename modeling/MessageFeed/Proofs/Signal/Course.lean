import MessageFeed.Proofs.Signal.Reaction

/-!
# The course of a run

Whether an installation is accepted, and what signals it finds queued, depends on the switchboard
that it is made on. Along a list of steps this is said in two ways: every step meets a condition on
the switchboard that it is made on (`Throughout`), or one step did and those after it met another
(`Since`). The slot of a hook is the one it was last installed for (`target_after`), and a hook
without a slot is as good as new (`hook_after_of_target_eq_none`).
-/

set_option autoImplicit false

namespace MessageFeed.Signal

/-- What a hook still has to do for the completions in its queue. -/
def Hook.owed (hook : Hook) : List Event :=
  hook.source.ready.flatMap (Completion.events hook.target)

namespace Switchboard

/-- The slots that the hook is installed for in some steps, in order. Refused installations do not
count. -/
def installs (switchboard : Switchboard) : List Step → List Slot
  | [] => []
  | s :: steps =>
    (switchboard.hook.installedBy s).toList ++ (switchboard.step s).1.installs steps

/-- What the hook does in some steps, in order. -/
def events (switchboard : Switchboard) (steps : List Step) : List Event :=
  (switchboard.history steps).flatMap fun replied => replied.1.events

/-- Each of some steps meets a condition on the switchboard that it is made on. -/
def Throughout (P : Switchboard → Step → Prop) (switchboard : Switchboard) : List Step → Prop
  | [] => True
  | s :: steps => P switchboard s ∧ Throughout P (switchboard.step s).1 steps

/-- One of some steps met the first condition, and each step after it met the second. -/
def Since (P Q : Switchboard → Step → Prop) (steps : List Step) : Prop :=
  ∃ before s between, steps = before ++ s :: between ∧ P (fresh.after before) s ∧
    (fresh.after (before ++ [s])).Throughout Q between

end Switchboard

namespace Switchboard

variable {P Q : Switchboard → Step → Prop} {steps : List Step} {s : Step}

/-- Handling the queue drains it, in one step. -/
theorem step_run (switchboard : Switchboard) :
    switchboard.step .run = switchboard.settle switchboard.hook.drained := by
  simp only [step, Hook.drain_eq_drained]

/-- Handling the queue does what the hook owes. -/
theorem events_step_run (switchboard : Switchboard) :
    (switchboard.step .run).2.events = switchboard.hook.owed := by
  rw [events_step]
  rfl

/-- The last step is one of the hook that those before it left. -/
theorem hook_after_snoc (switchboard : Switchboard) (steps : List Step) (s : Step) :
    (switchboard.after (steps ++ [s])).hook = ((switchboard.after steps).hook.react s).1 := by
  rw [after_append, after_cons, after_nil, hook_step]

/-- The installations of some steps, and then those of more. -/
theorem installs_append (switchboard : Switchboard) (steps more : List Step) :
    switchboard.installs (steps ++ more) =
      switchboard.installs steps ++ (switchboard.after steps).installs more := by
  induction steps generalizing switchboard with
  | nil => rfl
  | cons s steps ih =>
    simp only [List.cons_append, installs, after_cons, ih, List.append_assoc]

/-- What the hook does in some steps, and then in more. -/
theorem events_append (switchboard : Switchboard) (steps more : List Step) :
    switchboard.events (steps ++ more) =
      switchboard.events steps ++ (switchboard.after steps).events more := by
  induction steps generalizing switchboard with
  | nil => rfl
  | cons s steps ih =>
    have hcons : ∀ list, switchboard.events (s :: list) =
        (switchboard.step s).2.events ++ (switchboard.step s).1.events list := fun _ => rfl
    rw [List.cons_append, hcons, hcons, ih, after_cons, List.append_assoc]

/-- A condition is met by some steps and then by more. -/
theorem throughout_append (switchboard : Switchboard) (steps more : List Step) :
    switchboard.Throughout P (steps ++ more) ↔
      switchboard.Throughout P steps ∧ (switchboard.after steps).Throughout P more := by
  induction steps generalizing switchboard with
  | nil => simp [Throughout]
  | cons s steps ih =>
    simp only [List.cons_append, Throughout, after_cons, ih, and_assoc]

/-- A condition is met by some steps and then by the last one. -/
theorem throughout_snoc (switchboard : Switchboard) (steps : List Step) (s : Step) :
    switchboard.Throughout P (steps ++ [s]) ↔
      switchboard.Throughout P steps ∧ P (switchboard.after steps) s := by
  simp [throughout_append, Throughout]

/-- Before the first step nothing has been so since any step. -/
theorem not_since_nil : ¬ Since P Q [] := by
  rintro ⟨before, s, between, h, -⟩
  simp at h

/-- The last step settles it, or it was so before and the last step does not end it. -/
theorem since_snoc (steps : List Step) (s : Step) :
    Since P Q (steps ++ [s]) ↔
      P (fresh.after steps) s ∨ Since P Q steps ∧ Q (fresh.after steps) s := by
  constructor
  · rintro ⟨before, t, between, heq, ht, hbetween⟩
    rcases List.eq_nil_or_concat between with rfl | ⟨between, last, rfl⟩
    · obtain ⟨rfl, hs⟩ := List.append_inj' heq rfl
      obtain rfl : s = t := by simpa using hs
      exact .inl ht
    · have hsplit : steps = before ++ t :: between ∧ [s] = [last] :=
        List.append_inj' (by simpa using heq) rfl
      obtain ⟨rfl, hs⟩ := hsplit
      obtain rfl : s = last := by simpa using hs
      rw [List.concat_eq_append, throughout_snoc, ← after_append] at hbetween
      rw [List.append_assoc, List.singleton_append] at hbetween
      exact .inr ⟨⟨before, t, between, rfl, ht, hbetween.1⟩, hbetween.2⟩
  · rintro (hs | ⟨⟨before, t, between, rfl, ht, hbetween⟩, hs⟩)
    · exact ⟨steps, s, [], rfl, hs, trivial⟩
    · refine ⟨before, t, between ++ [s], by simp, ht, ?_⟩
      rw [throughout_snoc, ← after_append, List.append_assoc, List.singleton_append]
      exact ⟨hbetween, hs⟩

/-- The slot of a hook is the one that it was last installed for. -/
theorem target_after (switchboard : Switchboard) (steps : List Step) :
    (switchboard.after steps).hook.target =
      (switchboard.installs steps).getLast?.or switchboard.hook.target := by
  induction steps generalizing switchboard with
  | nil => rfl
  | cons s steps ih =>
    have hlast : ∀ slot : Option Slot, slot.toList.getLast? = slot := by
      intro slot
      cases slot <;> rfl
    rw [after_cons, ih, hook_step, Hook.target_react, installs, List.getLast?_append, hlast,
      Option.or_assoc]

/-- A hook without a slot has not changed since it was made. -/
theorem hook_after_of_target_eq_none (steps : List Step)
    (h : (fresh.after steps).hook.target = none) : (fresh.after steps).hook = .fresh := by
  induction steps using List.reverseRecOn with
  | nil => rfl
  | append_singleton steps s ih =>
    rw [hook_after_snoc] at h ⊢
    rw [Hook.target_react, Option.or_eq_none_iff] at h
    obtain ⟨hs, htarget⟩ := h
    rw [ih htarget] at hs ⊢
    cases s with
    | install slot =>
      cases slot with
      | none => rfl
      | some slot => simp [Hook.installedBy, Hook.fresh] at hs
    | _ => rfl

/-- An installed hook has a slot. -/
theorem exists_mode_of_installed (steps : List Step)
    (h : (fresh.after steps).hook.installed = true) :
    ∃ slot, (fresh.after steps).hook.mode = .active slot := by
  cases htarget : (fresh.after steps).hook.target with
  | none =>
    rw [hook_after_of_target_eq_none steps htarget] at h
    cases h
  | some slot => exact ⟨slot, (Hook.mode_eq_active_iff _ _).mpr ⟨h, htarget⟩⟩

end Switchboard

end MessageFeed.Signal
