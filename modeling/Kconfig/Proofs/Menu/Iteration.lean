import Kconfig.Proofs.Menu.Preorder

/-!
# The walk, one call at a time

Whoever walks through a menu tree asks the walk for its next event, again and again. What the calls
answer is a list: the events of the children of the menu (`WalkEvent.ofLevel`), one for each call,
and nothing at any call after the last (`Menu.walk_answers`). The same holds of whoever asks for the
next menu only, and passes over the entries and exits in between.

That the list is the pre-order of the tree is also said without a traversal. A node of the tree is
found by its path, the numbers of the children that lead to it (`Menu.at?`), and the menus that are
visited are those at the paths of all nodes but the first, in the order in which a dictionary would
have the paths. So every node is visited once, also where menus are alike.

The proof is by the bound that makes the walk end: what is left of a walk is a list
(`MenuWalk.events`), of which a call takes the first item (`Drains`).
-/

namespace Kconfig

/-! ## Iterators -/

section Iterators

variable {σ α : Type} (next : σ → Option α × σ)

/-- The answer to a call after `n` others. A call gives an answer, if there is one left, and the
state that the next call starts in. -/
def answer : Nat → σ → Option α
  | 0, s => (next s).1
  | n + 1, s => answer n (next s).2

/-- Whether the answers from a state on are the items of a list. Once there is none, there is none
at the next call either, and the state stays as it is. -/
inductive Drains : σ → List α → Prop where
  | done {s rest : σ} : next s = (none, rest) → next rest = (none, rest) → Drains s []
  | item {s rest : σ} {a : α} {as : List α} :
    next s = (some a, rest) → Drains rest as → Drains s (a :: as)

variable {next}

/-- A state whose call is that of another has the same answers. -/
theorem Drains.of_next_eq {s rest : σ} {as : List α} (h : next s = next rest)
    (hrest : Drains next rest as) : Drains next s as := by
  rcases hrest with ⟨hnone, hover⟩ | ⟨hitem, hothers⟩
  · exact .done (h.trans hnone) hover
  · exact .item (h.trans hitem) hothers

/-- After the last item there is no answer, at any call. -/
theorem Drains.answer_eq {s : σ} {as : List α} (h : Drains next s as) (n : Nat) :
    answer next n s = as[n]? := by
  induction n generalizing s as with
  | zero =>
    rcases h with ⟨hnone, -⟩ | ⟨hitem, -⟩
    · simp [answer, hnone]
    · simp [answer, hitem]
  | succ n ih =>
    rcases h with ⟨hnone, hover⟩ | ⟨hitem, hrest⟩
    · rw [answer, hnone]
      exact ih (.done hover hover)
    · rw [answer, hitem, List.getElem?_cons_succ]
      exact ih hrest

end Iterators

/-! ## Events between entry and exit -/

/-- The events of a list of menus that was entered: each menu, and where it has children the entry
to them and their events; after the last menu the exit. -/
def WalkEvent.ofLevel : List Menu → List WalkEvent
  | [] => [ascend]
  | menu :: rest =>
    visit menu ::
      ((if menu.children.isEmpty then [] else descend :: ofLevel menu.children) ++ ofLevel rest)
termination_by menus => sizeOf menus
decreasing_by
  all_goals simp only [List.cons.sizeOf_spec]
  · rcases menu
    simp only [Menu.mk.sizeOf_spec]
    omega
  · omega

/-- The exit is the last event of a list. -/
theorem WalkEvent.ofLevel_eq (menus : List Menu) : ofLevel menus = ofMenus menus ++ [ascend] := by
  fun_induction ofLevel menus with
  | case1 => rfl
  | case2 menu rest ihchildren ihrest =>
    rw [ihrest, ofMenus, ofMenu_eq, enter]
    by_cases hchildren : menu.children.isEmpty
    · simp [hchildren]
    · simp [hchildren, ihchildren]

/-! ## Calls -/

namespace MenuWalk

/-- A call for the next event. A walk that is over stays where it is. -/
def call (w : MenuWalk) : Option WalkEvent × MenuWalk :=
  match w.next with
  | none => (none, w)
  | some (event, rest) => (some event, rest)

/-- A call for the next menu: events are taken until one is a visit or there is none. -/
def callMenu (w : MenuWalk) : Option Menu × MenuWalk :=
  match _h : w.next with
  | none => (none, w)
  | some (.visit menu, rest) => (some menu, rest)
  | some (.descend, rest) => callMenu rest
  | some (.ascend, rest) => callMenu rest
termination_by w.bound
decreasing_by all_goals exact bound_lt_of_next _h

/-- Calls for events answer with what is left of the walk. -/
theorem drains_call (w : MenuWalk) : Drains call w w.events := by
  induction hn : w.bound using Nat.strongRecOn generalizing w with
  | ind n ih =>
    subst hn
    rcases h : w.next with _ | ⟨event, rest⟩
    · have hover : w.call = (none, w) := by simp only [call, h]
      rw [events_of_next_eq_none h]
      exact .done hover hover
    · have hcall : w.call = (some event, rest) := by simp only [call, h]
      rw [events_of_next_eq_some h]
      exact .item hcall (ih rest.bound (bound_lt_of_next h) rest rfl)

/-- Calls for menus answer with those that are still visited. -/
theorem drains_callMenu (w : MenuWalk) : Drains callMenu w (w.events.filterMap WalkEvent.menu?) := by
  induction hn : w.bound using Nat.strongRecOn generalizing w with
  | ind n ih =>
    subst hn
    rcases h : w.next with _ | ⟨event, rest⟩
    · have hover : w.callMenu = (none, w) := by
        rw [callMenu]
        split <;> simp_all
      rw [events_of_next_eq_none h]
      exact .done hover hover
    · have hrest := ih rest.bound (bound_lt_of_next h) rest rfl
      rw [events_of_next_eq_some h]
      rcases event with menu | _ | _
      · have hcall : w.callMenu = (some menu, rest) := by
          rw [callMenu]
          split <;> simp_all
        exact .item hcall hrest
      · have hcall : w.callMenu = rest.callMenu := by
          rw [callMenu]
          split <;> simp_all
        exact .of_next_eq hcall hrest
      · have hcall : w.callMenu = rest.callMenu := by
          rw [callMenu]
          split <;> simp_all
        exact .of_next_eq hcall hrest

end MenuWalk

/-! ## Nodes and their paths -/

namespace Menu

/-- The node at a path: the number of a child, and from there on the rest of the path. -/
def at? : Menu → List Nat → Option Menu
  | m, [] => some m
  | m, i :: path => m.children[i]?.bind fun child => child.at? path

mutual

/-- The paths of all nodes of a menu, its own included. -/
def paths : Menu → List (List Nat)
  | ⟨_, _, _, _, children⟩ => [] :: pathsFrom 0 children

/-- The paths of menus and of all nodes below, where the first menu is the child of number `i`. -/
def pathsFrom (i : Nat) : List Menu → List (List Nat)
  | [] => []
  | menu :: rest => (paths menu).map (i :: ·) ++ pathsFrom (i + 1) rest

end

mutual

/-- The nodes at the paths are the menu and all that is below it. -/
theorem map_at?_paths : ∀ m : Menu, m.paths.map m.at? = m.withDescendants.map some
  | ⟨flags, symbol, dep, choiceMembers, children⟩ => by
    rw [paths, withDescendants, List.map_cons, List.map_cons,
      map_at?_pathsFrom children 0 ⟨flags, symbol, dep, choiceMembers, children⟩]
    · rfl
    · intro j
      rw [Nat.zero_add]

/-- The nodes at the paths of some of the children, from the one of number `i` on. -/
theorem map_at?_pathsFrom : ∀ (menus : List Menu) (i : Nat) (m : Menu),
    (∀ j, m.children[i + j]? = menus[j]?) →
      (pathsFrom i menus).map m.at? = (preorder menus).map some
  | [], i, m, h => rfl
  | menu :: rest, i, m, h => by
    have hfirst : m.children[i]? = some menu := h 0
    have hrest : ∀ j, m.children[i + 1 + j]? = rest[j]? := by
      intro j
      rw [Nat.add_right_comm i 1 j]
      exact h (j + 1)
    have hbelow : ∀ path, m.at? (i :: path) = menu.at? path := by
      intro path
      rw [at?, hfirst]
      rfl
    rw [pathsFrom, preorder, List.map_append, List.map_append, map_at?_pathsFrom rest (i + 1) m hrest,
      ← map_at?_paths menu, List.map_map]
    simp only [Function.comp_def, hbelow]

end

/-- A path with a first part leads to a node through the child that the part is the number of. -/
theorem exists_at?_cons_iff {m : Menu} {i : Nat} {path : List Nat} :
    (∃ node, m.at? (i :: path) = some node) ↔
      ∃ j child rest node, m.children[j]? = some child ∧ child.at? rest = some node ∧
        i :: path = (0 + j) :: rest := by
  constructor
  · rintro ⟨node, hnode⟩
    obtain ⟨child, hchild, hbelow⟩ := Option.bind_eq_some_iff.mp hnode
    exact ⟨i, child, path, node, hchild, hbelow, by rw [Nat.zero_add]⟩
  · rintro ⟨j, child, rest, node, hchild, hnode, heq⟩
    obtain ⟨rfl, rfl⟩ := List.cons.inj heq
    rw [Nat.zero_add]
    exact ⟨node, Option.bind_eq_some_iff.mpr ⟨child, hchild, hnode⟩⟩

mutual

/-- The paths of a menu are those that lead to a node of it. -/
theorem mem_paths_iff : ∀ (m : Menu) (path : List Nat),
    path ∈ m.paths ↔ ∃ node, m.at? path = some node
  | ⟨flags, symbol, dep, choiceMembers, children⟩, [] => by
    simp [paths, at?]
  | ⟨flags, symbol, dep, choiceMembers, children⟩, i :: path => by
    rw [paths, List.mem_cons, mem_pathsFrom_iff children 0, exists_at?_cons_iff]
    exact or_iff_right (List.cons_ne_nil i path)

/-- A path leads to a node exactly if it is listed. -/
theorem mem_pathsFrom_iff : ∀ (menus : List Menu) (i : Nat) (path : List Nat),
    path ∈ pathsFrom i menus ↔
      ∃ j child rest node, menus[j]? = some child ∧ child.at? rest = some node ∧
        path = (i + j) :: rest
  | [], i, path => by simp [pathsFrom]
  | menu :: others, i, path => by
    rw [pathsFrom, List.mem_append, List.mem_map, mem_pathsFrom_iff others (i + 1)]
    constructor
    · rintro (⟨rest, hrest, rfl⟩ | ⟨j, child, rest, node, hchild, hnode, rfl⟩)
      · obtain ⟨node, hnode⟩ := (mem_paths_iff menu rest).mp hrest
        exact ⟨0, menu, rest, node, rfl, hnode, rfl⟩
      · exact ⟨j + 1, child, rest, node, hchild, hnode, by rw [Nat.add_right_comm i 1 j]; rfl⟩
    · rintro ⟨_ | j, child, rest, node, hchild, hnode, rfl⟩
      · obtain rfl : menu = child := Option.some.inj hchild
        exact .inl ⟨rest, (mem_paths_iff menu rest).mpr ⟨node, hnode⟩, rfl⟩
      · exact .inr ⟨j, child, rest, node, hchild, hnode, by rw [Nat.add_right_comm i 1 j]; rfl⟩

end

mutual

/-- The paths of a menu are in ascending order, so none is there twice. -/
theorem pairwise_paths : ∀ m : Menu, m.paths.Pairwise (· < ·)
  | ⟨flags, symbol, dep, choiceMembers, children⟩ => by
    rw [paths, List.pairwise_cons]
    refine ⟨?_, pairwise_pathsFrom children 0⟩
    intro path hpath
    obtain ⟨j, child, rest, node, -, -, rfl⟩ := (mem_pathsFrom_iff children 0 path).mp hpath
    exact List.nil_lt_cons _ _

/-- Paths are listed in the order of a dictionary, and none is listed twice. -/
theorem pairwise_pathsFrom : ∀ (menus : List Menu) (i : Nat),
    (pathsFrom i menus).Pairwise (· < ·)
  | [], i => .nil
  | menu :: others, i => by
    rw [pathsFrom, List.pairwise_append]
    refine ⟨?_, pairwise_pathsFrom others (i + 1), ?_⟩
    · rw [List.pairwise_map]
      apply (pairwise_paths menu).imp
      intro a b hab
      exact List.cons_lt_cons_self.mpr hab
    · -- a path through the first menu is before one through a later menu
      intro a ha b hb
      obtain ⟨rest, -, rfl⟩ := List.mem_map.mp ha
      obtain ⟨j, child, rest', node, -, -, rfl⟩ := (mem_pathsFrom_iff others (i + 1) b).mp hb
      have hlt : i < i + 1 + j := by omega
      exact List.cons_lt_cons_iff.mpr (.inl hlt)

end

/-- Calls to the walk below a menu answer, one event at a time, with the events of its children and
then with nothing. Calls for menus answer with the menus visited by these events, and these are
every node of the tree but the first, each once, in the order of the paths. -/
theorem walk_answers (m : Menu) :
    (∀ n, answer MenuWalk.call n m.walk = (WalkEvent.ofLevel m.children)[n]?) ∧
      (∀ n, answer MenuWalk.callMenu n m.walk = m.descendants[n]?) ∧
      m.descendants = (WalkEvent.ofLevel m.children).filterMap WalkEvent.menu? ∧
      ∃ nodes : List (List Nat), nodes.Pairwise (· < ·) ∧
        (∀ path, path ∈ nodes ↔ path ≠ [] ∧ ∃ node, m.at? path = some node) ∧
        m.descendants.map some = nodes.map m.at? := by
  have hevents : m.walk.events = WalkEvent.ofLevel m.children := by
    rw [walk_events, WalkEvent.ofLevel_eq]
  have hvisited : m.descendants = m.walk.events.filterMap WalkEvent.menu? := rfl
  refine ⟨?_, ?_, ?_, pathsFrom 0 m.children, pairwise_pathsFrom m.children 0, ?_, ?_⟩
  · intro n
    rw [(MenuWalk.drains_call m.walk).answer_eq, hevents]
  · intro n
    rw [(MenuWalk.drains_callMenu m.walk).answer_eq, hvisited]
  · rw [hvisited, hevents]
  · intro path
    rw [mem_pathsFrom_iff]
    rcases path with _ | ⟨i, path⟩
    · simp
    · rw [exists_at?_cons_iff]
      exact (and_iff_right (List.cons_ne_nil i path)).symm
  · rw [descendants_eq_preorder, map_at?_pathsFrom m.children 0 m]
    intro j
    rw [Nat.zero_add]

end Menu

end Kconfig
