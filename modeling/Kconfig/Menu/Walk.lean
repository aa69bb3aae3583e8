import Kconfig.Menu.Basic

/-!
# Walking the menu tree

A walk goes depth first through the descendants of a menu and says where it enters and leaves a
list of children. It keeps the lists it is in on a stack of its own, so the depth of a tree costs
no recursion: `MenuWalk.next` takes one step, and `MenuWalk.events` is all the steps.

A list that is empty is not entered. The list that the walk starts in is never entered but is left
at the end, by the last event.
-/

namespace Kconfig

/-- A step of a walk. -/
inductive WalkEvent where
  /-- A menu, before its children. -/
  | visit (menu : Menu)
  /-- Into the children of the menu just visited. -/
  | descend
  /-- Out of a list of children. -/
  | ascend

/-- Where a walk stands. -/
structure MenuWalk where
  /-- What is left of each list that the walk is in, the innermost first. -/
  levels : List (List Menu)
  /-- The menu just visited, if its children come next. -/
  pending : Option Menu := none

namespace MenuWalk

/-- One step: the event and where the walk stands after it, or nothing when it is over. -/
def next : MenuWalk → Option (WalkEvent × MenuWalk)
  | ⟨levels, some menu⟩ => some (.descend, ⟨menu.children :: levels, none⟩)
  | ⟨[], none⟩ => none
  | ⟨[] :: levels, none⟩ => some (.ascend, ⟨levels, none⟩)
  | ⟨(menu :: rest) :: levels, none⟩ =>
    some (.visit menu,
      ⟨rest :: levels, if menu.children.isEmpty then none else some menu⟩)

/-- A bound on the steps still to come: each menu that is left counts for its whole subtree. -/
noncomputable def bound (w : MenuWalk) : Nat :=
  w.levels.foldr (fun level total => 2 * sizeOf level + 1 + total) 0 +
    match w.pending with
    | some menu => 2 * sizeOf menu.children + 2
    | none => 0

/-- Every step lowers the bound, so a walk ends. -/
theorem bound_lt_of_next {w w' : MenuWalk} {e : WalkEvent} (h : w.next = some (e, w')) :
    w'.bound < w.bound := by
  obtain ⟨levels, pending⟩ := w
  cases pending with
  | some menu =>
    simp only [next, Option.some.injEq, Prod.mk.injEq] at h
    obtain ⟨-, rfl⟩ := h
    simp only [bound, List.foldr_cons]
    omega
  | none =>
    match levels with
    | [] => simp [next] at h
    | [] :: levels =>
      simp only [next, Option.some.injEq, Prod.mk.injEq] at h
      obtain ⟨-, rfl⟩ := h
      simp only [bound, List.foldr_cons]
      omega
    | (menu :: rest) :: levels =>
      simp only [next, Option.some.injEq, Prod.mk.injEq] at h
      obtain ⟨-, rfl⟩ := h
      have hm : sizeOf menu.children < sizeOf menu := by
        cases menu
        simp only [Menu.mk.sizeOf_spec]
        omega
      simp only [bound, List.foldr_cons, List.cons.sizeOf_spec]
      cases menu.children.isEmpty <;> simp only [Bool.false_eq_true, if_true, if_false] <;> omega

/-- The events of a walk to its end, after those of `done`, the latest of which stands first. -/
def eventsAfter (done : List WalkEvent) (w : MenuWalk) : List WalkEvent :=
  match _h : w.next with
  | none => done.reverse
  | some (e, w') => eventsAfter (e :: done) w'
termination_by w.bound
decreasing_by exact bound_lt_of_next _h

/-- All the events still to come, in order. -/
def events (w : MenuWalk) : List WalkEvent :=
  w.eventsAfter []

/-- Counting out a walk after some events appends its own, and the collected ones come out in their
order. -/
theorem eventsAfter_eq (done : List WalkEvent) (w : MenuWalk) :
    w.eventsAfter done = done.reverse ++ w.events := by
  induction hn : w.bound using Nat.strongRecOn generalizing done w with
  | ind n ih =>
    subst hn
    rw [events, eventsAfter, eventsAfter]
    cases h : w.next with
    | none => simp
    | some p =>
      obtain ⟨e, w'⟩ := p
      have hlt := bound_lt_of_next h
      simp only []
      rw [ih _ hlt (e :: done) w' rfl, ih _ hlt [e] w' rfl]
      simp

/-- A walk that is over has no events. -/
theorem events_of_next_eq_none {w : MenuWalk} (h : w.next = none) : w.events = [] := by
  rw [events, eventsAfter]
  split
  · rfl
  · simp_all

/-- The events of a walk are the next one and those of the walk after it. -/
theorem events_of_next_eq_some {w w' : MenuWalk} {e : WalkEvent} (h : w.next = some (e, w')) :
    w.events = e :: w'.events := by
  rw [events, eventsAfter]
  split
  · simp_all
  · next e₁ w₁ h₁ =>
    rw [h] at h₁
    simp only [Option.some.injEq, Prod.mk.injEq] at h₁
    obtain ⟨rfl, rfl⟩ := h₁
    rw [eventsAfter_eq]
    rfl

end MenuWalk

namespace Menu

/-- The walk through a menu's descendants. -/
def walk (m : Menu) : MenuWalk :=
  ⟨[m.children], none⟩

/-- The descendants of a menu in pre-order, the menu itself left out. -/
def descendants (m : Menu) : List Menu :=
  m.walk.events.filterMap fun
    | .visit menu => some menu
    | .descend | .ascend => none

end Menu

end Kconfig
