import FrameFlow.Proofs.Search
import Mathlib.Data.List.Nodup

/-!
# Recursive depth first search

The search enters a node, goes through its successors in order, entering those
not entered before, and leaves the node.  What it enters makes a forest: below a
node stand the nodes entered through it.  The traversal with a stack of tasks is
this search with its calls written out, so it lists the forest in the order in
which nodes are left.

A search started on some marks enters every fresh node among its roots and every
fresh successor of a node it enters, and nothing that was marked.
-/

namespace FrameFlow

/-- The root of the first tree, the trees below it, and the trees after it. -/
inductive Forest where
  | empty
  | grow (root : Nat) (below beside : Forest)
  deriving DecidableEq, Repr

namespace Forest

def preorder : Forest → List Nat
  | empty => []
  | grow v below beside => v :: (below.preorder ++ beside.preorder)

def postorder : Forest → List Nat
  | empty => []
  | grow v below beside => below.postorder ++ v :: beside.postorder

theorem postorder_perm (f : Forest) : f.postorder.Perm f.preorder := by
  induction f with
  | empty => exact .nil
  | grow v below beside ihbelow ihbeside =>
      exact List.perm_middle.trans ((ihbelow.append ihbeside).cons v)

end Forest

namespace Digraph

structure Explored (marks : Marks) where
  forest : Forest
  after : Marks
  le : freshCount after ≤ freshCount marks

theorem freshCount_mark_lt {marks : Marks} {v : Nat} (h : isFresh marks v = true) :
    freshCount (mark marks v) < freshCount marks := by
  have hmark := freshCount_mark h
  omega

namespace Explored

def nothing (marks : Marks) : Explored marks :=
  ⟨.empty, marks, Nat.le_refl _⟩

def grow {marks : Marks} {v : Nat} (h : isFresh marks v = true)
    (inner : Explored (mark marks v)) (outer : Explored inner.after) : Explored marks where
  forest := .grow v inner.forest outer.forest
  after := outer.after
  le := Nat.le_trans outer.le (Nat.le_trans inner.le (Nat.le_of_lt (freshCount_mark_lt h)))

end Explored

/-- Enters the fresh ones among the nodes, each with its successors. -/
def explore (g : Digraph) (marks : Marks) : List Nat → Explored marks
  | [] => .nothing marks
  | v :: vs =>
      if h : isFresh marks v then
        let inner := explore g (mark marks v) (g.next v)
        .grow h inner (explore g inner.after vs)
      else explore g marks vs
termination_by vs => (freshCount marks, vs.length)
decreasing_by
  · exact Prod.Lex.left _ _ (freshCount_mark_lt h)
  · exact Prod.Lex.left _ _ (Nat.lt_of_le_of_lt (Explored.le _) (freshCount_mark_lt h))
  · exact Prod.Lex.right _ (by simp)

def depthFirst (g : Digraph) (start : Nat) : Forest :=
  (g.explore (Array.replicate g.size false) [start]).forest

variable {g : Digraph} {marks : Marks} {u v w : Nat} {vs : List Nat}

@[simp] theorem explore_nil : g.explore marks [] = .nothing marks := by
  rw [explore]

theorem explore_marked (h : ¬isFresh marks v = true) :
    g.explore marks (v :: vs) = g.explore marks vs := by
  rw [explore, dif_neg h]

theorem explore_fresh (h : isFresh marks v = true) :
    g.explore marks (v :: vs) =
      .grow h (g.explore (mark marks v) (g.next v))
        (g.explore (g.explore (mark marks v) (g.next v)).after vs) := by
  rw [explore, dif_pos h]

theorem explore_forest (h : isFresh marks v = true) :
    (g.explore marks (v :: vs)).forest =
      .grow v (g.explore (mark marks v) (g.next v)).forest
        (g.explore (g.explore (mark marks v) (g.next v)).after vs).forest := by
  rw [explore_fresh h]
  rfl

theorem explore_after (h : isFresh marks v = true) :
    (g.explore marks (v :: vs)).after =
      (g.explore (g.explore (mark marks v) (g.next v)).after vs).after := by
  rw [explore_fresh h]
  rfl

theorem mem_explore_iff (h : isFresh marks v = true) :
    w ∈ (g.explore marks (v :: vs)).forest.preorder ↔
      w = v ∨ w ∈ (g.explore (mark marks v) (g.next v)).forest.preorder ∨
        w ∈ (g.explore (g.explore (mark marks v) (g.next v)).after vs).forest.preorder := by
  rw [explore_forest h, Forest.preorder, List.mem_cons, List.mem_append]

/-! ## What is entered -/

theorem isFresh_after_iff : isFresh (g.explore marks vs).after w = true ↔
    isFresh marks w = true ∧ w ∉ (g.explore marks vs).forest.preorder := by
  induction marks, vs using explore.induct g with
  | case1 marks => simp [Explored.nothing, Forest.preorder]
  | case2 marks v vs hfresh inner ihbelow ihbeside =>
      rw [explore_after hfresh, mem_explore_iff hfresh, ihbeside, ihbelow, isFresh_mark]
      tauto
  | case3 marks v vs hmarked ih =>
      rw [explore_marked hmarked]
      exact ih

private theorem isFresh_of_mem_explore (h : w ∈ (g.explore marks vs).forest.preorder) :
    isFresh marks w = true := by
  induction marks, vs using explore.induct g with
  | case1 marks => simp [Explored.nothing, Forest.preorder] at h
  | case2 marks v vs hfresh inner ihbelow ihbeside =>
      rcases (mem_explore_iff hfresh).1 h with rfl | hbelow | hbeside
      · exact hfresh
      · exact (isFresh_mark.1 (ihbelow hbelow)).1
      · exact (isFresh_mark.1 (isFresh_after_iff.1 (ihbeside hbeside)).1).1
  | case3 marks v vs hmarked ih =>
      rw [explore_marked hmarked] at h
      exact ih h

private theorem explore_nodup (g : Digraph) (marks : Marks) (vs : List Nat) :
    (g.explore marks vs).forest.preorder.Nodup := by
  induction marks, vs using explore.induct g with
  | case1 marks => simp [Explored.nothing, Forest.preorder]
  | case2 marks v vs hfresh inner ihbelow ihbeside =>
      rw [explore_forest hfresh, Forest.preorder, List.nodup_cons, List.mem_append]
      -- Whatever is entered is fresh at that time, so it has not been entered before.
      refine ⟨?_, ihbelow.append ihbeside fun w hbelow hbeside => ?_⟩
      · rintro (hbelow | hbeside)
        · exact (isFresh_mark.1 (isFresh_of_mem_explore hbelow)).2 rfl
        · exact (isFresh_mark.1 (isFresh_after_iff.1 (isFresh_of_mem_explore hbeside)).1).2 rfl
      · exact (isFresh_after_iff.1 (isFresh_of_mem_explore hbeside)).2 hbelow
  | case3 marks v vs hmarked ih =>
      rw [explore_marked hmarked]
      exact ih

theorem mem_explore_of_mem (hv : v ∈ vs) (h : isFresh marks v = true) :
    v ∈ (g.explore marks vs).forest.preorder := by
  induction marks, vs using explore.induct g with
  | case1 marks => simp at hv
  | case2 marks u vs hfresh inner ihbelow ihbeside =>
      rw [mem_explore_iff hfresh]
      by_cases hvu : v = u
      · exact .inl hvu
      · by_cases hbelow : v ∈ inner.forest.preorder
        · exact .inr (.inl hbelow)
        · refine .inr (.inr (ihbeside ((List.mem_cons.1 hv).resolve_left hvu) ?_))
          exact isFresh_after_iff.2 ⟨isFresh_mark.2 ⟨h, hvu⟩, hbelow⟩
  | case3 marks u vs hmarked ih =>
      rw [explore_marked hmarked]
      refine ih ((List.mem_cons.1 hv).resolve_left ?_) h
      rintro rfl
      exact hmarked h

private theorem explore_closed (hu : u ∈ (g.explore marks vs).forest.preorder)
    (hnext : w ∈ g.next u)
    (h : isFresh marks w = true) : w ∈ (g.explore marks vs).forest.preorder := by
  induction marks, vs using explore.induct g with
  | case1 marks => simp [Explored.nothing, Forest.preorder] at hu
  | case2 marks v vs hfresh inner ihbelow ihbeside =>
      rw [mem_explore_iff hfresh] at hu ⊢
      by_cases hwv : w = v
      · exact .inl hwv
      · have hstill := isFresh_mark.2 ⟨h, hwv⟩
        by_cases hbelow : w ∈ inner.forest.preorder
        · exact .inr (.inl hbelow)
        · rcases hu with rfl | hu | hu
          · exact absurd (mem_explore_of_mem hnext hstill) hbelow
          · exact .inr (.inl (ihbelow hu hstill))
          · exact .inr (.inr (ihbeside hu (isFresh_after_iff.2 ⟨hstill, hbelow⟩)))
  | case3 marks v vs hmarked ih =>
      rw [explore_marked hmarked] at hu ⊢
      exact ih hu h

theorem Reaches.head (hnext : v ∈ g.next u) (hlt : v < g.size) (h : g.Reaches v w) :
    g.Reaches u w := by
  induction h with
  | refl => exact .tail (.refl u) hnext hlt
  | tail _ hnext' hlt' ih => exact .tail ih hnext' hlt'

@[simp] theorem after_size : (g.explore marks vs).after.size = marks.size := by
  induction marks, vs using explore.induct g with
  | case1 marks => simp [Explored.nothing]
  | case2 marks v vs hfresh inner ihbelow ihbeside =>
      rw [explore_after hfresh, ihbeside, ihbelow, mark_size]
  | case3 marks v vs hmarked ih =>
      rw [explore_marked hmarked]
      exact ih

theorem exists_reaches_of_mem_explore (hsize : marks.size = g.size)
    (h : w ∈ (g.explore marks vs).forest.preorder) :
    ∃ v ∈ vs, v < g.size ∧ g.Reaches v w := by
  induction marks, vs using explore.induct g with
  | case1 marks => simp [Explored.nothing, Forest.preorder] at h
  | case2 marks v vs hfresh inner ihbelow ihbeside =>
      have hlt : v < g.size := hsize ▸ lt_size_of_isFresh hfresh
      have hsize' : (mark marks v).size = g.size := by rw [mark_size, hsize]
      rcases (mem_explore_iff hfresh).1 h with rfl | hbelow | hbeside
      · exact ⟨w, List.mem_cons_self, hlt, .refl w⟩
      · obtain ⟨u, hu, hlt', hreaches⟩ := ihbelow hsize' hbelow
        exact ⟨v, List.mem_cons_self, hlt, hreaches.head hu hlt'⟩
      · obtain ⟨u, hu, hreaches⟩ := ihbeside (after_size.trans hsize') hbeside
        exact ⟨u, List.mem_cons_of_mem _ hu, hreaches⟩
  | case3 marks v vs hmarked ih =>
      rw [explore_marked hmarked] at h
      obtain ⟨u, hu, hreaches⟩ := ih hsize h
      exact ⟨u, List.mem_cons_of_mem _ hu, hreaches⟩

theorem mem_depthFirst {start : Nat} :
    v ∈ (g.depthFirst start).preorder ↔ start < g.size ∧ g.Reaches start v := by
  constructor
  · intro h
    obtain ⟨u, hu, hlt, hreaches⟩ := exists_reaches_of_mem_explore (by simp) h
    cases List.mem_singleton.1 hu
    exact ⟨hlt, hreaches⟩
  · rintro ⟨hstart, hreaches⟩
    induction hreaches with
    | refl => exact mem_explore_of_mem List.mem_cons_self (isFresh_replicate.2 hstart)
    | tail _ hnext hlt ih => exact explore_closed ih hnext (isFresh_replicate.2 hlt)

/-! ## The stack of tasks -/

theorem explore_filter {p : Nat → Bool} (hp : ∀ w, isFresh marks w = true → p w = true) :
    g.explore marks (vs.filter p) = g.explore marks vs := by
  induction marks, vs using explore.induct g with
  | case1 marks => rfl
  | case2 marks v vs hfresh inner _ ihbeside =>
      have hp' (w : Nat) (hw : isFresh inner.after w = true) : p w = true :=
        hp w (isFresh_mark.1 (isFresh_after_iff.1 hw).1).1
      rw [List.filter_cons_of_pos (hp v hfresh), explore_fresh hfresh, explore_fresh hfresh,
        ihbeside hp']
  | case3 marks v vs hmarked ih =>
      rw [explore_marked hmarked, ← ih hp, List.filter_cons]
      split
      · rw [explore_marked hmarked]
      · rfl

/-- It does not matter which of the marked nodes are put on the stack. -/
theorem postorderLoop_explore (g : Digraph) (marks : Marks) (vs : List Nat) (p : Nat → Bool)
    (tasks : List Task) (hp : ∀ w, isFresh marks w = true → p w = true) :
    postorderLoop g marks ((vs.filter p).map .enter ++ tasks) =
      (g.explore marks vs).forest.postorder ++
        postorderLoop g (g.explore marks vs).after tasks := by
  induction marks, vs using explore.induct g generalizing p tasks with
  | case1 marks => simp [Explored.nothing, Forest.postorder]
  | case2 marks v vs hfresh inner ihbelow ihbeside =>
      have hp' (w : Nat) (hw : isFresh inner.after w = true) : p w = true :=
        hp w (isFresh_mark.1 (isFresh_after_iff.1 hw).1).1
      rw [explore_forest hfresh, explore_after hfresh, List.filter_cons_of_pos (hp v hfresh),
        List.map_cons, List.cons_append, postorderLoop, if_pos hfresh, freshNext,
        ihbelow _ _ fun _ hw => hw, postorderLoop, ihbeside _ _ hp']
      simp [Forest.postorder, inner]
  | case3 marks v vs hmarked ih =>
      rw [explore_marked hmarked, ← ih p tasks hp, List.filter_cons]
      split
      · rw [List.map_cons, List.cons_append, postorderLoop, if_neg hmarked]
      · rfl

theorem postorder_eq (g : Digraph) (start : Nat) :
    g.postorder start = (g.depthFirst start).postorder := by
  have hloop := postorderLoop_explore g (Array.replicate g.size false) [start] (fun _ => true) []
    fun _ _ => rfl
  simpa [postorder, depthFirst, postorderLoop] using hloop

theorem mem_postorder {start : Nat} :
    v ∈ g.postorder start ↔ start < g.size ∧ g.Reaches start v := by
  rw [postorder_eq, (Forest.postorder_perm _).mem_iff, mem_depthFirst]

theorem postorder_of_outside {start : Nat} (h : g.size ≤ start) : g.postorder start = [] := by
  rw [List.eq_nil_iff_forall_not_mem]
  intro v hv
  rw [mem_postorder] at hv
  omega

theorem postorder_nodup (g : Digraph) (start : Nat) : (g.postorder start).Nodup := by
  rw [postorder_eq, (Forest.postorder_perm _).nodup_iff]
  exact explore_nodup g _ _

end Digraph

end FrameFlow
