import FrameFlow.Graph.Flow
import Mathlib.Tactic.Tauto

/-!
# The search finds the reachable nodes

The depth first search marks a node when it puts it on the stack, so a node that
is not fresh is on the stack or has been taken from it.  What is put there is a
successor of a node taken before, so only reachable nodes are found.  In the
other direction, the successors of a node that is found were fresh before the
search, in which case they are found too, or were marked: at the beginning this
is the starting node alone.

The states that both traversals go through keep one mark for each node of the
graph, and hold nodes of the graph only.
-/

namespace FrameFlow

namespace Digraph

/-! ## Marks -/

theorem isFresh_iff {marks : Marks} {v : Nat} :
    isFresh marks v = true ↔ marks[v]? = some false := by
  simp [isFresh]

theorem lt_size_of_isFresh {marks : Marks} {v : Nat} (h : isFresh marks v = true) :
    v < marks.size :=
  (Array.getElem?_eq_some_iff.1 (isFresh_iff.1 h)).1

@[simp] theorem mark_size (marks : Marks) (v : Nat) : (mark marks v).size = marks.size := by
  simp [mark]

theorem isFresh_mark {marks : Marks} {v w : Nat} :
    isFresh (mark marks v) w = true ↔ isFresh marks w = true ∧ w ≠ v := by
  simp only [isFresh_iff, mark, Array.getElem?_setIfInBounds]
  by_cases hv : v = w
  · subst hv
    by_cases hlt : v < marks.size <;> simp [hlt]
  · simp [hv, Ne.symm hv]

theorem isFresh_replicate {size v : Nat} :
    isFresh (Array.replicate size false) v = true ↔ v < size := by
  simp [isFresh_iff, Array.getElem?_replicate]

/-! ## Discovered successors -/

@[simp] theorem discover_size (vs : List Nat) (marks : Marks) (stack : List Nat) :
    (discover vs marks stack).1.size = marks.size := by
  induction vs with
  | nil => rfl
  | cons v vs ih =>
      simp only [discover]
      split
      · simpa using ih
      · exact ih

theorem isFresh_discover {vs : List Nat} {marks : Marks} {stack : List Nat} {w : Nat} :
    isFresh (discover vs marks stack).1 w = true ↔ isFresh marks w = true ∧ w ∉ vs := by
  induction vs with
  | nil => simp [discover]
  | cons v vs ih =>
      simp only [discover]
      split
      · simp only [isFresh_mark, ih, List.mem_cons]
        tauto
      · rename_i hv
        simp only [ih, List.mem_cons, not_or]
        constructor
        · rintro ⟨hw, hnot⟩
          refine ⟨hw, ?_, hnot⟩
          rintro rfl
          exact hv (ih.2 ⟨hw, hnot⟩)
        · rintro ⟨hw, _, hnot⟩
          exact ⟨hw, hnot⟩

theorem mem_discover {vs : List Nat} {marks : Marks} {stack : List Nat} {w : Nat} :
    w ∈ (discover vs marks stack).2 ↔ w ∈ stack ∨ (w ∈ vs ∧ isFresh marks w = true) := by
  induction vs with
  | nil => simp [discover]
  | cons v vs ih =>
      simp only [discover]
      split
      · rename_i hv
        have hfresh := (isFresh_discover.1 hv).1
        simp only [List.mem_cons, ih]
        constructor
        · rintro (rfl | hw | ⟨hw, hfresh⟩)
          · exact .inr ⟨.inl rfl, hfresh⟩
          · exact .inl hw
          · exact .inr ⟨.inr hw, hfresh⟩
        · rintro (hw | ⟨rfl | hw, hfresh⟩)
          · exact .inr (.inl hw)
          · exact .inl rfl
          · exact .inr (.inr ⟨hw, hfresh⟩)
      · rename_i hv
        rw [isFresh_discover, not_and, not_not] at hv
        simp only [ih, List.mem_cons]
        constructor
        · rintro (hw | ⟨hw, hfresh⟩)
          · exact .inl hw
          · exact .inr ⟨.inr hw, hfresh⟩
        · rintro (hw | ⟨rfl | hw, hfresh⟩)
          · exact .inl hw
          · -- A fresh node that is not put on the stack now is there already.
            exact .inr ⟨hv hfresh, hfresh⟩
          · exact .inr ⟨hw, hfresh⟩

/-! ## Preorder -/

variable (g : Digraph)

private theorem mem_preorderLoop_of_mem (marks : Marks) (stack : List Nat) {v : Nat}
    (h : v ∈ stack) :
    v ∈ preorderLoop g marks stack := by
  induction marks, stack using preorderLoop.induct g with
  | case1 marks => simp at h
  | case2 marks u stack ih =>
      rw [preorderLoop]
      rcases List.mem_cons.1 h with rfl | htail
      · exact List.mem_cons_self
      · exact List.mem_cons_of_mem _ (ih (mem_discover.2 (.inl htail)))

private theorem reaches_of_mem_preorderLoop {start : Nat} (marks : Marks) (stack : List Nat)
    (hsize : marks.size = g.size) (hstack : ∀ v ∈ stack, g.Reaches start v) {v : Nat}
    (h : v ∈ preorderLoop g marks stack) : g.Reaches start v := by
  induction marks, stack using preorderLoop.induct g with
  | case1 marks => simp [preorderLoop] at h
  | case2 marks u stack ih =>
      rw [preorderLoop] at h
      rcases List.mem_cons.1 h with rfl | htail
      · exact hstack v List.mem_cons_self
      · refine ih (by simpa using hsize) (fun w hw => ?_) htail
        rcases mem_discover.1 hw with hold | ⟨hnext, hfresh⟩
        · exact hstack w (List.mem_cons_of_mem _ hold)
        · have hlt : w < g.size := hsize ▸ lt_size_of_isFresh hfresh
          exact (hstack u List.mem_cons_self).tail hnext hlt

private theorem preorderLoop_closed (marks : Marks) (stack : List Nat) {v w : Nat}
    (hv : v ∈ preorderLoop g marks stack) (hnext : w ∈ g.next v)
    (hfresh : isFresh marks w = true) : w ∈ preorderLoop g marks stack := by
  induction marks, stack using preorderLoop.induct g with
  | case1 marks => simp [preorderLoop] at hv
  | case2 marks u stack ih =>
      rw [preorderLoop] at hv ⊢
      refine List.mem_cons_of_mem _ ?_
      -- A fresh successor of the first node is on the stack now; any other one is still fresh.
      by_cases hdiscovered : w ∈ g.next u
      · exact mem_preorderLoop_of_mem g _ _ (mem_discover.2 (.inr ⟨hdiscovered, hfresh⟩))
      · rcases List.mem_cons.1 hv with rfl | htail
        · exact absurd hnext hdiscovered
        · exact ih htail (isFresh_discover.2 ⟨hfresh, hdiscovered⟩)

theorem mem_preorder {start v : Nat} :
    v ∈ g.preorder start ↔ start < g.size ∧ g.Reaches start v := by
  unfold preorder
  split
  · rename_i hstart
    constructor
    · intro h
      refine ⟨hstart, reaches_of_mem_preorderLoop g _ _ (by simp) (fun w hw => ?_) h⟩
      rw [List.mem_singleton.1 hw]
      exact .refl start
    · rintro ⟨_, hreaches⟩
      have hentry := mem_preorderLoop_of_mem g
        (mark (Array.replicate g.size false) start) [start] List.mem_cons_self
      induction hreaches with
      | refl => exact hentry
      | @tail u w hu hnext hlt ih =>
          by_cases hw : w = start
          · rw [hw]
            exact hentry
          · exact preorderLoop_closed g _ _ ih hnext
              (isFresh_mark.2 ⟨isFresh_replicate.2 hlt, hw⟩)
  · rename_i hstart
    simp [hstart]

/-! ## States of the traversals -/

variable {g} {start : Nat} {marks : Marks}

/-- The marks and the stack between two steps of the search. -/
inductive Searching (g : Digraph) (start : Nat) : Marks → List Nat → Prop
  | start : Searching g start (mark (Array.replicate g.size false) start) [start]
  | next {marks : Marks} {v : Nat} {stack : List Nat} (h : Searching g start marks (v :: stack)) :
      Searching g start (discover (g.next v) marks stack).1 (discover (g.next v) marks stack).2

theorem Searching.inside (hstart : start < g.size) {stack : List Nat}
    (h : g.Searching start marks stack) : marks.size = g.size ∧ ∀ v ∈ stack, v < g.size := by
  induction h with
  | start => simpa using hstart
  | @next marks v stack _ ih =>
      refine ⟨by simpa using ih.1, fun w hw => ?_⟩
      rcases mem_discover.1 hw with hold | ⟨_, hfresh⟩
      · exact ih.2 w (List.mem_cons_of_mem _ hold)
      · exact ih.1 ▸ lt_size_of_isFresh hfresh

theorem Searching.exists_top {stack : List Nat} (h : g.Searching start marks stack) {v : Nat}
    (hv : v ∈ preorderLoop g marks stack) :
    ∃ marks' stack', g.Searching start marks' (v :: stack') := by
  induction marks, stack using preorderLoop.induct g with
  | case1 marks => simp [preorderLoop] at hv
  | case2 marks u stack ih =>
      rw [preorderLoop] at hv
      rcases List.mem_cons.1 hv with rfl | htail
      · exact ⟨marks, stack, h⟩
      · exact ih h.next htail

def Task.node : Task → Nat
  | enter v | leave v => v

/-- The marks and the tasks between two steps of the search for the finishing order. -/
inductive Finishing (g : Digraph) (start : Nat) : Marks → List Task → Prop
  | start : Finishing g start (Array.replicate g.size false) [.enter start]
  | leave {marks : Marks} {v : Nat} {tasks : List Task}
      (h : Finishing g start marks (.leave v :: tasks)) : Finishing g start marks tasks
  | pass {marks : Marks} {v : Nat} {tasks : List Task}
      (h : Finishing g start marks (.enter v :: tasks)) (hmarked : ¬isFresh marks v = true) :
      Finishing g start marks tasks
  | enter {marks : Marks} {v : Nat} {tasks : List Task}
      (h : Finishing g start marks (.enter v :: tasks)) (hfresh : isFresh marks v = true) :
      Finishing g start (mark marks v)
        ((g.freshNext (mark marks v) v).map .enter ++ .leave v :: tasks)

theorem mem_freshNext {v w : Nat} :
    w ∈ g.freshNext marks v ↔ w ∈ g.next v ∧ isFresh marks w = true :=
  List.mem_filter

theorem Finishing.inside (hstart : start < g.size) (hnext : ∀ v, ∀ w ∈ g.next v, w < g.size)
    {tasks : List Task} (h : g.Finishing start marks tasks) :
    marks.size = g.size ∧ ∀ task ∈ tasks, task.node < g.size := by
  induction h with
  | start => simpa [Task.node] using hstart
  | leave _ ih => exact ⟨ih.1, fun task htask => ih.2 task (List.mem_cons_of_mem _ htask)⟩
  | pass _ _ ih => exact ⟨ih.1, fun task htask => ih.2 task (List.mem_cons_of_mem _ htask)⟩
  | @enter marks v tasks _ _ ih =>
      refine ⟨by simpa using ih.1, fun task htask => ?_⟩
      rcases List.mem_append.1 htask with hnew | hold
      · obtain ⟨w, hw, rfl⟩ := List.mem_map.1 hnew
        exact hnext v w (mem_freshNext.1 hw).1
      · rcases List.mem_cons.1 hold with rfl | hrest
        · exact ih.2 (.enter v) List.mem_cons_self
        · exact ih.2 task (List.mem_cons_of_mem _ hrest)

theorem Finishing.exists_left {tasks : List Task} (h : g.Finishing start marks tasks) {v : Nat}
    (hv : v ∈ postorderLoop g marks tasks) :
    ∃ marks' tasks', g.Finishing start marks' (.leave v :: tasks') := by
  induction marks, tasks using postorderLoop.induct g with
  | case1 marks => simp [postorderLoop] at hv
  | case2 marks u tasks ih =>
      rw [postorderLoop] at hv
      rcases List.mem_cons.1 hv with rfl | htail
      · exact ⟨marks, tasks, h⟩
      · exact ih h.leave htail
  | case3 marks u tasks hfresh ih =>
      rw [postorderLoop, if_pos hfresh] at hv
      exact ih (h.enter hfresh) hv
  | case4 marks u tasks hmarked ih =>
      rw [postorderLoop, if_neg hmarked] at hv
      exact ih (h.pass hmarked) hv

end Digraph

/-! ## Reachable instructions -/

namespace FlowGraph

/-- Some edges, normal ones or to handlers, lead from the entry to the instruction. -/
def Reachable (g : FlowGraph) (i : Nat) : Prop :=
  g.digraph.Reaches entry i

variable {g : FlowGraph} {i : Nat}

theorem Reachable.edge (h : g.Reachable i) {e : Edge} (he : e ∈ g.edges i)
    (hlt : e.target < g.size) : g.Reachable e.target :=
  Digraph.Reaches.tail h (List.mem_map.2 ⟨e, he, rfl⟩) hlt

theorem Reachable.lt_size (h : g.Reachable i) (hsize : 0 < g.size) : i < g.size := by
  cases h with
  | refl => exact hsize
  | tail _ _ hlt => exact hlt

theorem isReachable_iff (hsize : 0 < g.size) : g.isReachable i = true ↔ g.Reachable i := by
  have hmem : i ∈ g.preorder ↔ entry < g.size ∧ g.Reachable i := Digraph.mem_preorder g.digraph
  rw [isReachable, List.contains_iff_mem, hmem]
  exact and_iff_right hsize

end FlowGraph

end FrameFlow
