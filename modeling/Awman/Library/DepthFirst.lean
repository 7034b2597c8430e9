import Mathlib.Data.Finset.Card
import Mathlib.Data.Finset.Insert
import Mathlib.Order.WellFounded

/-!
# Depth-first search over a successor function

A cycle search keeps the nodes it has opened and the nodes on its current path.  A successor that
is on the path closes a cycle.  A search that ends without one leaves every opened node accessible
along the successor relation, so the relation is well founded on what was searched.  The
post-order walk lists each known node it reaches once, after its successors.  Both walks take a
fuel bound that stands for the depth of the recursion.
-/

namespace Awman.DepthFirst

variable {α : Type*}

/-- The nodes a search has opened and the nodes on its current path. -/
structure Marks (α : Type*) where
  /-- Every node the search has entered. -/
  visited : Finset α
  /-- The nodes whose visit has not ended. -/
  inStack : Finset α

/-- The marks before the first node. -/
def Marks.start : Marks α :=
  ⟨∅, ∅⟩

/-- `dep` is a successor of `node`. -/
def Steps (succ : α → List α) (dep node : α) : Prop :=
  dep ∈ succ node

/-- A node whose visit has ended is accessible, and the path lies inside the visited nodes. -/
structure Settled (succ : α → List α) (marks : Marks α) : Prop where
  /-- A finished node has no infinite descent. -/
  accessible : ∀ node ∈ marks.visited, node ∉ marks.inStack → Acc (Steps succ) node
  path : marks.inStack ⊆ marks.visited

/-- What a search below some nodes leaves behind: settled marks, with the path restored. -/
structure Searched (succ : α → List α) (before after : Marks α) : Prop where
  settled : Settled succ after
  grows : before.visited ⊆ after.visited
  /-- The path is the one the search started on. -/
  restored : after.inStack = before.inStack

theorem Searched.trans {succ : α → List α} {first second third : Marks α}
    (h₁ : Searched succ first second) (h₂ : Searched succ second third) :
    Searched succ first third :=
  ⟨h₂.settled, h₁.grows.trans h₂.grows, h₂.restored.trans h₁.restored⟩

theorem Settled.start (succ : α → List α) : Settled succ Marks.start :=
  ⟨by simp [Marks.start], by simp [Marks.start]⟩

variable [DecidableEq α]

/-- Enter a node. -/
def Marks.enter (marks : Marks α) (node : α) : Marks α :=
  ⟨insert node marks.visited, insert node marks.inStack⟩

/-- Leave a node. -/
def Marks.leave (marks : Marks α) (node : α) : Marks α :=
  { marks with inStack := marks.inStack.erase node }

/-- Visit the successors that were not seen, and stop at one on the current path. -/
def visitAll (visit : α → Marks α → Except α (Marks α)) :
    List α → Marks α → Except α (Marks α)
  | [], marks => .ok marks
  | dep :: rest, marks =>
    if dep ∈ marks.inStack then
      .error dep
    else if dep ∈ marks.visited then
      visitAll visit rest marks
    else
      match visit dep marks with
      | .error found => .error found
      | .ok explored => visitAll visit rest explored

/-- Search below one node for a path that returns to itself. -/
def cycleSearch (succ : α → List α) : Nat → α → Marks α → Except α (Marks α)
  | 0, node, _ => .error node
  | fuel + 1, node, marks =>
    match visitAll (cycleSearch succ fuel) (succ node) (marks.enter node) with
    | .error found => .error found
    | .ok explored => .ok (explored.leave node)

/-- Search below every listed node that no earlier search reached. -/
def searchFrom (search : α → Marks α → Except α (Marks α)) :
    List α → Marks α → Except α (Marks α)
  | [], marks => .ok marks
  | node :: rest, marks =>
    if node ∈ marks.visited then
      searchFrom search rest marks
    else
      match search node marks with
      | .error found => .error found
      | .ok explored => searchFrom search rest explored

section

variable {succ : α → List α}

variable {marks explored : Marks α}

theorem Settled.enter (h : Settled succ marks) (node : α) : Settled succ (marks.enter node) := by
  constructor
  · intro other hvisited hpath
    simp only [Marks.enter, Finset.mem_insert, not_or] at hvisited hpath
    exact h.accessible other (hvisited.resolve_left hpath.1) hpath.2
  · exact Finset.insert_subset_insert node h.path

/-- A successful pass over the successors leaves each of them visited and off the path. -/
theorem visitAll_ok {visit : α → Marks α → Except α (Marks α)}
    (hvisit : ∀ {node marks explored}, Settled succ marks → node ∉ marks.visited →
      visit node marks = .ok explored →
        Searched succ marks explored ∧ node ∈ explored.visited)
    {deps : List α} (hsettled : Settled succ marks)
    (hok : visitAll visit deps marks = .ok explored) :
    Searched succ marks explored ∧
      ∀ dep ∈ deps, dep ∈ explored.visited ∧ dep ∉ explored.inStack := by
  induction deps generalizing marks with
  | nil =>
    cases hok
    exact ⟨⟨hsettled, Finset.Subset.refl _, rfl⟩, by simp⟩
  | cons dep rest ih =>
    rw [visitAll] at hok
    split at hok
    · cases hok
    · rename_i hpath
      split at hok
      · rename_i hseen
        obtain ⟨hsearched, hrest⟩ := ih hsettled hok
        refine ⟨hsearched, ?_⟩
        intro other hother
        rcases List.mem_cons.mp hother with rfl | hmem
        · exact ⟨hsearched.grows hseen, by rw [hsearched.restored]; exact hpath⟩
        · exact hrest other hmem
      · rename_i hnew
        cases hfirst : visit dep marks with
        | error found => simp [hfirst] at hok
        | ok middle =>
          simp only [hfirst] at hok
          obtain ⟨hmiddle, hdep⟩ := hvisit hsettled hnew hfirst
          obtain ⟨hlast, hrest⟩ := ih hmiddle.settled hok
          refine ⟨hmiddle.trans hlast, ?_⟩
          intro other hother
          rcases List.mem_cons.mp hother with rfl | hmem
          · refine ⟨hlast.grows hdep, ?_⟩
            rw [hlast.restored, hmiddle.restored]
            exact hpath
          · exact hrest other hmem

/-- A search that finds no cycle settles the node it started from. -/
theorem cycleSearch_ok {fuel : Nat} {node : α} (hsettled : Settled succ marks)
    (hnew : node ∉ marks.visited) (hok : cycleSearch succ fuel node marks = .ok explored) :
    Searched succ marks explored ∧ node ∈ explored.visited := by
  induction fuel generalizing node marks explored with
  | zero => cases hok
  | succ fuel ih =>
    rw [cycleSearch] at hok
    cases hdeps : visitAll (cycleSearch succ fuel) (succ node) (marks.enter node) with
    | error found => simp [hdeps] at hok
    | ok below =>
      simp only [hdeps, Except.ok.injEq] at hok
      subst hok
      obtain ⟨hbelow, hdone⟩ := visitAll_ok ih (hsettled.enter node) hdeps
      have hentered : node ∈ below.visited :=
        hbelow.grows (Finset.mem_insert_self node marks.visited)
      have haccessible : Acc (Steps succ) node :=
        Acc.intro node fun dep hdep =>
          hbelow.settled.accessible dep (hdone dep hdep).1 (hdone dep hdep).2
      have hoffPath : node ∉ marks.inStack := fun hpath => hnew (hsettled.path hpath)
      refine ⟨⟨⟨?_, ?_⟩, ?_, ?_⟩, hentered⟩
      · intro other hvisited hpath
        by_cases heq : other = node
        · subst heq
          exact haccessible
        · exact hbelow.settled.accessible other hvisited
            (fun hmem => hpath (Finset.mem_erase.mpr ⟨heq, hmem⟩))
      · exact (Finset.erase_subset node below.inStack).trans hbelow.settled.path
      · exact (Finset.subset_insert node marks.visited).trans hbelow.grows
      · simp only [Marks.leave, hbelow.restored, Marks.enter, Finset.erase_insert hoffPath]

theorem searchFrom_ok {fuel : Nat} {nodes : List α} (hsettled : Settled succ marks)
    (hok : searchFrom (cycleSearch succ fuel) nodes marks = .ok explored) :
    Searched succ marks explored ∧ ∀ node ∈ nodes, node ∈ explored.visited := by
  induction nodes generalizing marks with
  | nil =>
    cases hok
    exact ⟨⟨hsettled, Finset.Subset.refl _, rfl⟩, by simp⟩
  | cons node rest ih =>
    rw [searchFrom] at hok
    split at hok
    · rename_i hseen
      obtain ⟨hsearched, hrest⟩ := ih hsettled hok
      refine ⟨hsearched, ?_⟩
      intro other hother
      rcases List.mem_cons.mp hother with rfl | hmem
      · exact hsearched.grows hseen
      · exact hrest other hmem
    · rename_i hnew
      cases hfirst : cycleSearch succ fuel node marks with
      | error found => simp [hfirst] at hok
      | ok middle =>
        simp only [hfirst] at hok
        obtain ⟨hmiddle, hnode⟩ := cycleSearch_ok hsettled hnew hfirst
        obtain ⟨hlast, hrest⟩ := ih hmiddle.settled hok
        refine ⟨hmiddle.trans hlast, ?_⟩
        intro other hother
        rcases List.mem_cons.mp hother with rfl | hmem
        · exact hlast.grows hnode
        · exact hrest other hmem

/-- A search from the start that finds no cycle makes every listed node accessible. -/
theorem searchFrom_acc {fuel : Nat} {nodes : List α}
    (hok : searchFrom (cycleSearch succ fuel) nodes Marks.start = .ok explored) :
    ∀ node ∈ nodes, Acc (Steps succ) node := by
  intro node hnode
  obtain ⟨hsearched, hvisited⟩ := searchFrom_ok (Settled.start succ) hok
  apply hsearched.settled.accessible node (hvisited node hnode)
  simp [hsearched.restored, Marks.start]

/-- If only listed nodes have successors, a search without a cycle makes the relation well
founded. -/
theorem searchFrom_wellFounded {fuel : Nat} {nodes : List α}
    (hok : searchFrom (cycleSearch succ fuel) nodes Marks.start = .ok explored)
    (hknown : ∀ node, node ∉ nodes → succ node = []) : WellFounded (Steps succ) := by
  refine ⟨fun node => ?_⟩
  by_cases hmem : node ∈ nodes
  · exact searchFrom_acc hok node hmem
  · refine Acc.intro node fun dep hdep => ?_
    rw [Steps, hknown node hmem] at hdep
    cases hdep

/-- Without a cycle, and with fuel for the nodes that are not yet visited, a search ends.  The node it
starts from leads to every node on the path. -/
theorem cycleSearch_complete {known : Finset α}
    (hacyclic : ∀ node, ¬Relation.TransGen (Steps succ) node node)
    (hclosed : ∀ node ∈ known, ∀ dep ∈ succ node, dep ∈ known) {fuel : Nat} {node : α}
    (hfuel : (known \ marks.visited).card ≤ fuel) (hknown : node ∈ known) (hsettled : Settled succ marks)
    (hnew : node ∉ marks.visited)
    (hbelow : ∀ other ∈ marks.inStack, Relation.TransGen (Steps succ) node other) :
    ∃ explored, cycleSearch succ fuel node marks = .ok explored := by
  induction fuel generalizing node marks with
  | zero =>
    have hnone : known \ marks.visited = ∅ := Finset.card_eq_zero.mp (Nat.le_zero.mp hfuel)
    have hopen : node ∈ known \ marks.visited := Finset.mem_sdiff.mpr ⟨hknown, hnew⟩
    simp [hnone] at hopen
  | succ fuel ih =>
    have hless : (known \ (marks.enter node).visited).card ≤ fuel := by
      have hsub : known \ (marks.enter node).visited ⊂ known \ marks.visited := by
        refine (Finset.ssubset_iff_of_subset ?_).mpr ⟨node, ?_, ?_⟩
        · exact Finset.sdiff_subset_sdiff (Finset.Subset.refl _)
            (Finset.subset_insert node marks.visited)
        · exact Finset.mem_sdiff.mpr ⟨hknown, hnew⟩
        · simp [Marks.enter]
      have hcard := Finset.card_lt_card hsub
      omega
    have hdepBelow : ∀ dep ∈ succ node, ∀ other ∈ (marks.enter node).inStack,
        Relation.TransGen (Steps succ) dep other := by
      intro dep hdep other hother
      rcases Finset.mem_insert.mp hother with rfl | hstack
      · exact .single hdep
      · exact .head hdep (hbelow other hstack)
    have hvisit : ∀ (rest : List α) (before : Marks α), (∀ dep ∈ rest, dep ∈ succ node) →
        (known \ before.visited).card ≤ fuel → Settled succ before →
        before.inStack = (marks.enter node).inStack →
        ∃ explored, visitAll (cycleSearch succ fuel) rest before = .ok explored := by
      intro rest
      induction rest with
      | nil => exact fun before _ _ _ _ => ⟨before, rfl⟩
      | cons dep rest ihrest =>
        intro before hrest hcard hbefore hpath
        have hdep := hrest dep List.mem_cons_self
        have hothers : ∀ other ∈ rest, other ∈ succ node := fun other hother =>
          hrest other (List.mem_cons_of_mem dep hother)
        have hoff : dep ∉ before.inStack := by
          rw [hpath]
          exact fun hmem => hacyclic dep (hdepBelow dep hdep dep hmem)
        rw [visitAll, if_neg hoff]
        by_cases hseen : dep ∈ before.visited
        · rw [if_pos hseen]
          exact ihrest before hothers hcard hbefore hpath
        · obtain ⟨middle, hmiddle⟩ := ih hcard (hclosed node hknown dep hdep) hbefore hseen
            (fun other hother => hdepBelow dep hdep other (hpath ▸ hother))
          obtain ⟨hsearched, -⟩ := cycleSearch_ok hbefore hseen hmiddle
          have hcard' : (known \ middle.visited).card ≤ fuel :=
            (Finset.card_le_card (Finset.sdiff_subset_sdiff (Finset.Subset.refl _)
              hsearched.grows)).trans hcard
          rw [if_neg hseen, hmiddle]
          exact ihrest middle hothers hcard' hsearched.settled (hsearched.restored.trans hpath)
    obtain ⟨below, hok⟩ := hvisit (succ node) (marks.enter node) (fun _ hdep => hdep) hless
      (hsettled.enter node) rfl
    exact ⟨below.leave node, by rw [cycleSearch, hok]⟩

/-- Without a cycle, a search from the known nodes ends. -/
theorem searchFrom_complete {known : Finset α} {fuel : Nat}
    (hacyclic : ∀ node, ¬Relation.TransGen (Steps succ) node node)
    (hclosed : ∀ node ∈ known, ∀ dep ∈ succ node, dep ∈ known) (hfuel : known.card ≤ fuel)
    {nodes : List α} (hnodes : ∀ node ∈ nodes, node ∈ known) :
    ∃ explored, searchFrom (cycleSearch succ fuel) nodes Marks.start = .ok explored := by
  have hsearch : ∀ (rest : List α) (before : Marks α), (∀ node ∈ rest, node ∈ known) →
      Settled succ before → before.inStack = ∅ →
      ∃ explored, searchFrom (cycleSearch succ fuel) rest before = .ok explored := by
    intro rest
    induction rest with
    | nil => exact fun before _ _ _ => ⟨before, rfl⟩
    | cons node rest ih =>
      intro before hrest hbefore hpath
      have hothers : ∀ other ∈ rest, other ∈ known := fun other hother =>
        hrest other (List.mem_cons_of_mem node hother)
      rw [searchFrom]
      by_cases hseen : node ∈ before.visited
      · rw [if_pos hseen]
        exact ih before hothers hbefore hpath
      · have hcard : (known \ before.visited).card ≤ fuel :=
          (Finset.card_le_card Finset.sdiff_subset).trans hfuel
        obtain ⟨middle, hmiddle⟩ := cycleSearch_complete hacyclic hclosed hcard
          (hrest node List.mem_cons_self) hbefore hseen (by simp [hpath])
        obtain ⟨hsearched, -⟩ := cycleSearch_ok hbefore hseen hmiddle
        rw [if_neg hseen, hmiddle]
        exact ih middle hothers hsearched.settled (hsearched.restored.trans hpath)
  exact hsearch nodes Marks.start hnodes (Settled.start succ) rfl

end

/-- The state of a post-order walk: the nodes opened and the nodes listed so far. -/
structure Walk (α : Type*) where
  /-- Every known node the walk has entered. -/
  visited : Finset α
  /-- The nodes left so far, in the order the walk left them. -/
  out : List α

/-- Walk below one node and list it after its successors.  A node without an entry is passed
over. -/
def postOrder (succ : α → Option (List α)) : Nat → α → Walk α → Walk α
  | 0, _, walk => walk
  | fuel + 1, node, walk =>
    if node ∈ walk.visited then
      walk
    else
      match succ node with
      | none => walk
      | some deps =>
        let below := deps.foldl (fun walk dep => postOrder succ fuel dep walk)
          { walk with visited := insert node walk.visited }
        { below with out := below.out ++ [node] }

/-- Walk below every listed node in turn. -/
def postOrderFrom (succ : α → Option (List α)) (fuel : Nat) (nodes : List α) : Walk α :=
  nodes.foldl (fun walk node => postOrder succ fuel node walk) ⟨∅, []⟩

/-- What a finished part of the walk adds: every node it opens is known, new, and listed. -/
structure Walked (succ : α → Option (List α)) (before after : Walk α) : Prop where
  /-- Nothing opened is forgotten. -/
  grows : before.visited ⊆ after.visited
  /-- The list only gets longer. -/
  kept : ∀ node ∈ before.out, node ∈ after.out
  listed : ∀ node ∈ after.visited, node ∈ before.visited ∨ node ∈ after.out
  known : ∀ node ∈ after.out, node ∈ before.out ∨ (succ node).isSome ∧ node ∈ after.visited

omit [DecidableEq α] in
theorem Walked.refl (succ : α → Option (List α)) (walk : Walk α) : Walked succ walk walk :=
  ⟨Finset.Subset.refl _, fun _ h => h, fun _ h => Or.inl h, fun _ h => Or.inl h⟩

omit [DecidableEq α] in
theorem Walked.trans {succ : α → Option (List α)} {first second third : Walk α}
    (h₁ : Walked succ first second) (h₂ : Walked succ second third) :
    Walked succ first third := by
  refine ⟨h₁.grows.trans h₂.grows, fun node h => h₂.kept node (h₁.kept node h), ?_, ?_⟩
  · intro node hnode
    rcases h₂.listed node hnode with hsecond | hthird
    · exact (h₁.listed node hsecond).imp_right (h₂.kept node)
    · exact Or.inr hthird
  · intro node hnode
    rcases h₂.known node hnode with hsecond | hnew
    · rcases h₁.known node hsecond with hfirst | ⟨hsome, hvisited⟩
      · exact Or.inl hfirst
      · exact Or.inr ⟨hsome, h₂.grows hvisited⟩
    · exact Or.inr hnew

omit [DecidableEq α] in
theorem Walked.foldl {succ : α → Option (List α)} {walkOne : α → Walk α → Walk α}
    (hone : ∀ node walk, Walked succ walk (walkOne node walk)) (nodes : List α) (walk : Walk α) :
    Walked succ walk (nodes.foldl (fun walk node => walkOne node walk) walk) := by
  induction nodes generalizing walk with
  | nil => exact Walked.refl succ walk
  | cons node rest ih => exact (hone node walk).trans (ih (walkOne node walk))

theorem postOrder_walked (succ : α → Option (List α)) (fuel : Nat) (node : α) (walk : Walk α) :
    Walked succ walk (postOrder succ fuel node walk) := by
  induction fuel generalizing node walk with
  | zero => exact Walked.refl succ walk
  | succ fuel ih =>
    rw [postOrder]
    split
    · exact Walked.refl succ walk
    · split
      · exact Walked.refl succ walk
      · rename_i deps hdeps
        have hbelow := Walked.foldl ih deps
          { walk with visited := insert node walk.visited }
        refine ⟨(Finset.subset_insert node walk.visited).trans hbelow.grows, ?_, ?_, ?_⟩
        · intro other hother
          exact List.mem_append_left _ (hbelow.kept other hother)
        · intro other hother
          rcases hbelow.listed other hother with hopened | hlisted
          · rcases Finset.mem_insert.mp hopened with rfl | hold
            · exact Or.inr (by simp)
            · exact Or.inl hold
          · exact Or.inr (List.mem_append_left _ hlisted)
        · intro other hother
          rcases List.mem_append.mp hother with hlisted | hself
          · exact hbelow.known other hlisted
          · obtain rfl := List.mem_singleton.mp hself
            exact Or.inr ⟨by simp [hdeps], hbelow.grows (Finset.mem_insert_self _ _)⟩

/-- With any fuel at all, a known node is visited after its own walk. -/
theorem mem_visited_postOrder {succ : α → Option (List α)} {node : α} (fuel : Nat) (walk : Walk α)
    (hknown : (succ node).isSome) :
    node ∈ (postOrder succ (fuel + 1) node walk).visited := by
  rw [postOrder]
  split
  · assumption
  · obtain ⟨deps, hdeps⟩ := Option.isSome_iff_exists.mp hknown
    simp only [hdeps]
    exact (Walked.foldl (postOrder_walked succ fuel) deps _).grows (Finset.mem_insert_self _ _)

/-- A walk from the known nodes lists exactly the known nodes. -/
theorem mem_postOrderFrom {succ : α → Option (List α)} {nodes : List α} (fuel : Nat)
    (hknown : ∀ node, (succ node).isSome ↔ node ∈ nodes) (node : α) :
    node ∈ (postOrderFrom succ (fuel + 1) nodes).out ↔ node ∈ nodes := by
  have hwalked := Walked.foldl (postOrder_walked succ (fuel + 1)) nodes ⟨∅, []⟩
  constructor
  · intro hnode
    rcases hwalked.known node hnode with hnone | ⟨hsome, _⟩
    · cases hnone
    · exact (hknown node).mp hsome
  · intro hnode
    have hvisited : ∀ (rest : List α) (walk : Walk α), node ∈ rest →
        node ∈ (rest.foldl (fun walk node => postOrder succ (fuel + 1) node walk) walk).visited := by
      intro rest
      induction rest with
      | nil => intro _ h; cases h
      | cons first rest ih =>
        intro walk hmem
        rcases List.mem_cons.mp hmem with rfl | hrest
        · exact (Walked.foldl (postOrder_walked succ (fuel + 1)) rest _).grows
            (mem_visited_postOrder fuel walk ((hknown node).mpr hnode))
        · exact ih _ hrest
    rcases hwalked.listed node (hvisited nodes ⟨∅, []⟩ hnode) with hnone | hlisted
    · cases hnone
    · exact hlisted

/-- The nodes the walk has left are listed once and after their successors, and the other visited
nodes are the ones it is still inside. -/
structure Arranged (succ : α → Option (List α)) (stack : Finset α) (walk : Walk α) : Prop where
  visited : ∀ node, node ∈ walk.visited ↔ node ∈ walk.out ∨ node ∈ stack
  /-- An open node was not left. -/
  fresh : ∀ node ∈ stack, node ∉ walk.out
  /-- No node is listed twice. -/
  nodup : walk.out.Nodup
  /-- Known successors are listed before the node. -/
  sorted : ∀ {earlier node later}, walk.out = earlier ++ node :: later →
    ∀ dep ∈ (succ node).getD [], (succ dep).isSome → dep ∈ earlier

section

variable {succ : α → Option (List α)}

variable {stack : Finset α} {walk : Walk α}

/-- The walk enters a node it has not visited. -/
theorem Arranged.enter {node : α} (h : Arranged succ stack walk) (hnew : node ∉ walk.visited) :
    Arranged succ (insert node stack) { walk with visited := insert node walk.visited } := by
  refine ⟨?_, ?_, h.nodup, h.sorted⟩
  · intro other
    rw [Finset.mem_insert, Finset.mem_insert, h.visited]
    tauto
  · intro other hother
    rcases Finset.mem_insert.mp hother with rfl | hstack
    · exact fun hout => hnew ((h.visited other).mpr (Or.inl hout))
    · exact h.fresh other hstack

/-- The walk leaves the node it entered last once all its known successors are listed. -/
theorem Arranged.leave {node : α} (h : Arranged succ (insert node stack) walk) (hstack : node ∉ stack)
    (hdeps : ∀ dep ∈ (succ node).getD [], (succ dep).isSome → dep ∈ walk.out) :
    Arranged succ stack { walk with out := walk.out ++ [node] } := by
  have hnode : node ∉ walk.out := h.fresh node (Finset.mem_insert_self node stack)
  refine ⟨?_, ?_, ?_, ?_⟩
  · intro other
    rw [h.visited, Finset.mem_insert, List.mem_append, List.mem_singleton]
    tauto
  · intro other hother hout
    rcases List.mem_append.mp hout with hlisted | hself
    · exact h.fresh other (Finset.mem_insert_of_mem hother) hlisted
    · exact hstack (List.mem_singleton.mp hself ▸ hother)
  · exact List.nodup_append.mpr ⟨h.nodup, List.nodup_singleton node,
      fun _ hother _ hself heq => hnode (List.mem_singleton.mp hself ▸ heq ▸ hother)⟩
  · intro earlier other later hsplit dep hdep hsome
    rcases List.eq_nil_or_concat later with rfl | ⟨front, last, rfl⟩
    · have hlast : walk.out ++ [node] = earlier ++ [other] := hsplit
      obtain ⟨rfl, hsame⟩ := List.append_inj' hlast rfl
      obtain rfl : node = other := by simpa using hsame
      exact hdeps dep hdep hsome
    · have hfront : walk.out ++ [node] = (earlier ++ other :: front) ++ [last] := by
        simpa using hsplit
      obtain ⟨hout, _⟩ := List.append_inj' hfront rfl
      exact h.sorted hout dep hdep hsome

/-- With fuel for the nodes that are not yet visited, a walk keeps the list arranged and lists the
node it starts from.  The open nodes depend on that node, so it is not one of them. -/
theorem postOrder_arranged {known : Finset α}
    (hacyclic : WellFounded (Steps fun node => (succ node).getD []))
    (hknown : ∀ node, (succ node).isSome ↔ node ∈ known) {fuel : Nat} {node : α}
    (hfuel : (known \ walk.visited).card ≤ fuel) (harranged : Arranged succ stack walk)
    (hbelow : ∀ other ∈ stack, Relation.TransGen (Steps fun node => (succ node).getD []) node other) :
    Arranged succ stack (postOrder succ fuel node walk) ∧
      (node ∈ known → node ∈ (postOrder succ fuel node walk).out) := by
  have hclosed : node ∉ stack := fun hmem => hacyclic.transGen.irrefl.irrefl node (hbelow node hmem)
  have hseen : node ∈ walk.visited → node ∈ walk.out := fun hvisited =>
    ((harranged.visited node).mp hvisited).resolve_right hclosed
  induction fuel generalizing node stack walk with
  | zero =>
    refine ⟨harranged, fun hmem => hseen ?_⟩
    have hnone : known \ walk.visited = ∅ := Finset.card_eq_zero.mp (Nat.le_zero.mp hfuel)
    by_contra hnew
    have hopen : node ∈ known \ walk.visited := Finset.mem_sdiff.mpr ⟨hmem, hnew⟩
    simp [hnone] at hopen
  | succ fuel ih =>
    rw [postOrder]
    split
    · rename_i hvisited
      exact ⟨harranged, fun _ => hseen hvisited⟩
    · rename_i hnew
      split
      · rename_i hnone
        refine ⟨harranged, fun hmem => ?_⟩
        have hsome := (hknown node).mpr hmem
        simp [hnone] at hsome
      · rename_i deps hdeps
        have hmem : node ∈ known := (hknown node).mp (by simp [hdeps])
        have hsuccs : (succ node).getD [] = deps := by simp [hdeps]
        have hless : (known \ insert node walk.visited).card ≤ fuel := by
          have hsub : known \ insert node walk.visited ⊂ known \ walk.visited := by
            refine (Finset.ssubset_iff_of_subset ?_).mpr ⟨node, ?_, ?_⟩
            · exact Finset.sdiff_subset_sdiff (Finset.Subset.refl _)
                (Finset.subset_insert node walk.visited)
            · exact Finset.mem_sdiff.mpr ⟨hmem, hnew⟩
            · simp
          have hcard := Finset.card_lt_card hsub
          omega
        have hdepBelow : ∀ dep ∈ deps, ∀ other ∈ insert node stack,
            Relation.TransGen (Steps fun node => (succ node).getD []) dep other := by
          intro dep hdep other hother
          have hstep : Steps (fun node => (succ node).getD []) dep node := by
            rw [Steps, hsuccs]
            exact hdep
          rcases Finset.mem_insert.mp hother with rfl | hstack
          · exact .single hstep
          · exact .head hstep (hbelow other hstack)
        have hfold : ∀ (rest : List α) (before : Walk α), (∀ dep ∈ rest, dep ∈ deps) →
            (known \ before.visited).card ≤ fuel → Arranged succ (insert node stack) before →
            Arranged succ (insert node stack)
              (rest.foldl (fun walk dep => postOrder succ fuel dep walk) before) ∧
            ∀ dep ∈ rest, dep ∈ known →
              dep ∈ (rest.foldl (fun walk dep => postOrder succ fuel dep walk) before).out := by
          intro rest
          induction rest with
          | nil => exact fun before _ _ hbefore => ⟨hbefore, fun _ hdep => nomatch hdep⟩
          | cons dep rest ihrest =>
            intro before hrest hcard hbefore
            have hfirst := hdepBelow dep (hrest dep List.mem_cons_self)
            have hopen : dep ∉ insert node stack := fun hmem =>
              hacyclic.transGen.irrefl.irrefl dep (hfirst dep hmem)
            obtain ⟨harranged, hlisted⟩ := ih hcard hbefore hfirst hopen fun hvisited =>
              ((hbefore.visited dep).mp hvisited).resolve_right hopen
            have hwalked := postOrder_walked succ fuel dep before
            have hcard' : (known \ (postOrder succ fuel dep before).visited).card ≤ fuel :=
              (Finset.card_le_card (Finset.sdiff_subset_sdiff (Finset.Subset.refl _)
                hwalked.grows)).trans hcard
            obtain ⟨hlast, hothers⟩ := ihrest _
              (fun other hother => hrest other (List.mem_cons_of_mem dep hother)) hcard'
              harranged
            refine ⟨hlast, ?_⟩
            intro other hother hotherKnown
            rcases List.mem_cons.mp hother with rfl | hmem
            · exact (Walked.foldl (postOrder_walked succ fuel) rest _).kept other
                (hlisted hotherKnown)
            · exact hothers other hmem hotherKnown
        obtain ⟨hbelowArranged, hlisted⟩ := hfold deps _ (fun _ hdep => hdep) hless
          (harranged.enter hnew)
        refine ⟨hbelowArranged.leave hclosed ?_, fun _ => List.mem_append_right _ (by simp)⟩
        intro dep hdep hsome
        rw [hsuccs] at hdep
        exact hlisted dep hdep ((hknown dep).mp hsome)

/-- A walk from the known nodes of an acyclic relation lists each node once, after its known
successors. -/
theorem postOrderFrom_arranged {known : Finset α} {fuel : Nat}
    (hacyclic : WellFounded (Steps fun node => (succ node).getD []))
    (hknown : ∀ node, (succ node).isSome ↔ node ∈ known) (hfuel : known.card ≤ fuel) (nodes : List α) :
    Arranged succ ∅ (postOrderFrom succ fuel nodes) := by
  have hstart : Arranged succ ∅ ⟨∅, []⟩ := by
    refine ⟨by simp, by simp, List.nodup_nil, ?_⟩
    intro earlier node later hsplit
    simp at hsplit
  have hfold : ∀ (rest : List α) (before : Walk α), Arranged succ ∅ before →
      Arranged succ ∅ (rest.foldl (fun walk node => postOrder succ fuel node walk) before) := by
    intro rest
    induction rest with
    | nil => exact fun _ hbefore => hbefore
    | cons node rest ih =>
      intro before hbefore
      have hcard : (known \ before.visited).card ≤ fuel :=
        (Finset.card_le_card Finset.sdiff_subset).trans hfuel
      exact ih _ (postOrder_arranged hacyclic hknown hcard hbefore (by simp)).1
  exact hfold nodes _ hstart

end

end Awman.DepthFirst
