import FrameFlow.Proofs.ForwardEdges
import Mathlib.Data.List.Dedup

/-!
# Discovery order

The search that marks nodes when it puts them on the stack lists what the
recursive search enters, each node once, but not always in the same order.  Both
keep requests to list a node.  The recursive search may hold several for one node
and answers the latest; the other one holds the first and drops those made later.
Its stack is thus what is left of the requests of the recursive search when only
the first one for each node is kept, and the two go on with the same node as long
as nothing else was first asked for after that node was.
-/

namespace FrameFlow

namespace Digraph

variable {g : Digraph} {marks : Marks} {start u v w : Nat} {vs : List Nat}

/-! ## The stack -/

/-- Of several equal successors the last one is put on the stack. -/
theorem discover_stack (vs : List Nat) (marks : Marks) (stack : List Nat) :
    (discover vs marks stack).2 = (vs.filter fun w => isFresh marks w).dedup ++ stack := by
  induction vs with
  | nil => rfl
  | cons v vs ih =>
      have hiff : isFresh (discover vs marks stack).1 v = true ↔
          isFresh marks v = true ∧ v ∉ vs := isFresh_discover
      simp only [discover]
      by_cases hfresh : isFresh marks v = true
      · rw [List.filter_cons_of_pos hfresh]
        by_cases hv : v ∈ vs
        · rw [if_neg (fun h => (hiff.1 h).2 hv), ih,
            List.dedup_cons_of_mem (List.mem_filter.2 ⟨hv, hfresh⟩)]
        · rw [if_pos (hiff.2 ⟨hfresh, hv⟩), ih,
            List.dedup_cons_of_notMem (fun h => hv (List.mem_filter.1 h).1), List.cons_append]
      · rw [List.filter_cons_of_neg hfresh, if_neg (fun h => hfresh (hiff.1 h).1), ih]

private theorem mem_preorderLoop_cases {stack : List Nat} (h : v ∈ preorderLoop g marks stack) :
    v ∈ stack ∨ isFresh marks v = true := by
  induction marks, stack using preorderLoop.induct g with
  | case1 marks => simp [preorderLoop] at h
  | case2 marks u stack ih =>
      rw [preorderLoop, List.mem_cons] at h
      rcases h with rfl | h
      · exact .inl List.mem_cons_self
      · rcases ih h with hstack | hfresh
        · rcases mem_discover.1 hstack with hold | ⟨_, hfresh⟩
          · exact .inl (List.mem_cons_of_mem _ hold)
          · exact .inr hfresh
        · exact .inr (isFresh_discover.1 hfresh).1

private theorem preorderLoop_nodup {stack : List Nat} (hstack : stack.Nodup)
    (hmarked : ∀ v ∈ stack, ¬isFresh marks v = true) : (preorderLoop g marks stack).Nodup := by
  induction marks, stack using preorderLoop.induct g with
  | case1 marks => simp [preorderLoop]
  | case2 marks u stack ih =>
      obtain ⟨hu, hrest⟩ := List.nodup_cons.1 hstack
      have hmarked' := fun v hv => hmarked v (List.mem_cons_of_mem _ hv)
      rw [preorderLoop, List.nodup_cons]
      constructor
      · intro h
        have hfresh : isFresh marks u = true := by
          rcases mem_preorderLoop_cases h with hmem | hfresh
          · exact ((mem_discover.1 hmem).resolve_left hu).2
          · exact (isFresh_discover.1 hfresh).1
        exact hmarked u List.mem_cons_self hfresh
      · apply ih
        · rw [discover_stack]
          refine (List.nodup_dedup _).append hrest fun v hnew hold => ?_
          rw [List.mem_dedup, List.mem_filter] at hnew
          exact hmarked' v hold hnew.2
        · intro v hv hfresh
          obtain ⟨hfresh, hnot⟩ := isFresh_discover.1 hfresh
          rcases mem_discover.1 hv with hold | ⟨hnext, _⟩
          · exact hmarked' v hold hfresh
          · exact hnot hnext

private theorem preorder_nodup (g : Digraph) (start : Nat) : (g.preorder start).Nodup := by
  unfold preorder
  split
  · refine preorderLoop_nodup (List.nodup_singleton start) fun v hv hfresh => ?_
    exact (isFresh_mark.1 hfresh).2 (List.mem_singleton.1 hv)
  · exact List.nodup_nil

end Digraph

/--
Both traversals list the nodes that can be reached, each of them once, and nothing
else; from outside the graph they list nothing.  So an instruction is found by the
one exactly when it has a place in the order given by the other.
-/
theorem Digraph.traversals_exact (g : Digraph) (start : Nat) :
    (g.preorder start).Nodup ∧ (g.postorder start).Nodup ∧
    (start < g.size → ∀ v, (v ∈ g.preorder start ↔ g.Reaches start v) ∧
      (v ∈ g.postorder start ↔ g.Reaches start v)) ∧
    (g.size ≤ start → g.preorder start = [] ∧ g.postorder start = []) ∧
    ∀ (graph : FlowGraph) (i : Nat),
      graph.isReachable i = true ↔ (graph.rank? i).isSome = true := by
  refine ⟨g.preorder_nodup start, g.postorder_nodup start, fun hstart v => ?_, fun hstart => ?_,
    fun graph i => ?_⟩
  · rw [mem_preorder, mem_postorder]
    exact ⟨and_iff_right hstart, and_iff_right hstart⟩
  · rw [preorder, if_neg (Nat.not_lt.2 hstart)]
    exact ⟨rfl, postorder_of_outside hstart⟩
  · rw [FlowGraph.isReachable, FlowGraph.rank?, List.isSome_idxOf?, List.contains_iff_mem,
      FlowGraph.preorder, FlowGraph.order, reversePostorder, List.mem_reverse, mem_preorder,
      mem_postorder]

theorem tangle_traversed :
    tangle.preorder 1 = [1, 2, 3, 4] ∧ tangle.postorder 1 = [2, 4, 3, 1] ∧
      (tangle.preorder 1).Nodup ∧ (tangle.postorder 1).Nodup ∧
      tangle.Reaches 1 4 ∧ ¬tangle.Reaches 1 0 ∧
      tangle.preorder 5 = [] ∧ tangle.postorder 5 = [] ∧
      drain.edgeGraph.rank? 4 = none ∧ drain.edgeGraph.isReachable 4 = false := by
  have hpre : tangle.preorder 1 = [1, 2, 3, 4] := by cbv
  have hpost : tangle.postorder 1 = [2, 4, 3, 1] := by cbv
  have hrank : drain.edgeGraph.rank? 4 = none := by cbv
  obtain ⟨honce, honce', hlisted, _, hranks⟩ := Digraph.traversals_exact tangle 1
  have hmem := hlisted (by decide)
  obtain ⟨hout, hout'⟩ := (Digraph.traversals_exact tangle 5).2.2.2.1 (by decide)
  refine ⟨hpre, hpost, honce, honce', (hmem 4).1.1 ?_, fun hreach => ?_, hout, hout', hrank, ?_⟩
  · simp [hpre]
  · have hfound := (hmem 0).2.2 hreach
    simp [hpost] at hfound
  · rw [Bool.eq_false_iff, ne_eq, hranks, hrank]
    simp

namespace Digraph

variable {g : Digraph} {marks marks' : Marks} {start u v w : Nat} {requests stack : List Nat}

/-! ## Requests -/

def Task.request? : Task → Option Nat
  | enter v => some v
  | leave _ => none

def requested (tasks : List Task) : List Nat :=
  tasks.filterMap Task.request?

@[simp] theorem requested_nil : requested [] = [] :=
  rfl

@[simp] theorem requested_enter (v : Nat) (tasks : List Task) :
    requested (.enter v :: tasks) = v :: requested tasks :=
  rfl

@[simp] theorem requested_leave (v : Nat) (tasks : List Task) :
    requested (.leave v :: tasks) = requested tasks :=
  rfl

@[simp] theorem requested_append (vs : List Nat) (tasks : List Task) :
    requested (vs.map .enter ++ tasks) = vs ++ requested tasks := by
  induction vs with
  | nil => rfl
  | cons v vs ih => simp [ih]

private theorem explore_append (g : Digraph) (marks : Marks) (us vs : List Nat) :
    (g.explore marks (us ++ vs)).forest.preorder =
      (g.explore marks us).forest.preorder ++
        (g.explore (g.explore marks us).after vs).forest.preorder := by
  induction marks, us using explore.induct g with
  | case1 marks =>
      rw [explore_nil]
      rfl
  | case2 marks v us hfresh inner _ ih =>
      rw [List.cons_append, explore_forest hfresh, explore_forest hfresh, explore_after hfresh,
        Forest.preorder, Forest.preorder, ih, List.cons_append, List.append_assoc]
  | case3 marks v us hmarked ih =>
      rw [List.cons_append, explore_marked hmarked, explore_marked hmarked, ih]

private theorem explore_freshNext (g : Digraph) (marks : Marks) (v : Nat) :
    g.explore marks (g.freshNext marks v) = g.explore marks (g.next v) :=
  explore_filter fun _ hw => hw

theorem explore_enter (h : isFresh marks v = true) :
    (g.explore marks (v :: requests)).forest.preorder =
      v :: (g.explore (mark marks v)
        (g.freshNext (mark marks v) v ++ requests)).forest.preorder := by
  rw [explore_forest h, Forest.preorder, explore_append, explore_freshNext]

/-! ## First requests -/

private theorem dedup_append_eq (us vs : List Nat) :
    (us ++ vs).dedup = (us.filter fun u => u ∉ vs).dedup ++ vs.dedup := by
  induction us with
  | nil => rfl
  | cons u us ih =>
      rw [List.cons_append]
      by_cases hvs : u ∈ vs
      · rw [List.dedup_cons_of_mem (List.mem_append_right us hvs),
          List.filter_cons_of_neg (by simpa using hvs), ih]
      · rw [List.filter_cons_of_pos (by simpa using hvs)]
        by_cases hus : u ∈ us
        · rw [List.dedup_cons_of_mem (List.mem_append_left vs hus),
            List.dedup_cons_of_mem (List.mem_filter.2 ⟨hus, by simpa using hvs⟩), ih]
        · rw [List.dedup_cons_of_notMem (by simp [hus, hvs]),
            List.dedup_cons_of_notMem (fun h => hus (List.mem_filter.1 h).1), ih,
            List.cons_append]

private theorem dedup_filter (p : Nat → Bool) (vs : List Nat) :
    (vs.filter p).dedup = vs.dedup.filter p := by
  induction vs with
  | nil => rfl
  | cons v vs ih =>
      by_cases hp : p v = true
      · rw [List.filter_cons_of_pos hp]
        by_cases hv : v ∈ vs
        · rw [List.dedup_cons_of_mem hv, List.dedup_cons_of_mem (List.mem_filter.2 ⟨hv, hp⟩), ih]
        · rw [List.dedup_cons_of_notMem hv,
            List.dedup_cons_of_notMem (fun h => hv (List.mem_filter.1 h).1), ih,
            List.filter_cons_of_pos hp]
      · rw [List.filter_cons_of_neg hp]
        by_cases hv : v ∈ vs
        · rw [List.dedup_cons_of_mem hv, ih]
        · rw [List.dedup_cons_of_notMem hv, List.filter_cons_of_neg hp, ih]

private theorem dedup_head?_iff (v : Nat) (vs : List Nat) :
    (v :: vs).dedup.head? = some v ↔
      ∀ above below, vs = above ++ v :: below → ∀ w ∈ above, w = v ∨ w ∈ below := by
  constructor
  · rintro h above below rfl w hw
    by_contra hnot
    have hmem : w ∈ ((v :: above).filter fun u => u ∉ v :: below).dedup := by
      rw [List.mem_dedup, List.mem_filter]
      exact ⟨List.mem_cons_of_mem v hw, by simpa using hnot⟩
    rw [← List.cons_append, dedup_append_eq, List.head?_append_of_ne_nil _
      (List.ne_nil_of_mem hmem)] at h
    have hv := List.mem_of_mem_head? h
    simp at hv
  · intro h
    by_cases hv : v ∈ vs
    · obtain ⟨below, above, heq, hlast⟩ := List.eq_append_cons_of_mem (List.mem_reverse.2 hv)
      have hvs : vs = above.reverse ++ v :: below.reverse := by
        rw [← List.reverse_reverse vs, heq]
        simp
      have hsub : v :: above.reverse ⊆ v :: below.reverse := by
        intro w hw
        rcases List.mem_cons.1 hw with rfl | hw
        · exact List.mem_cons_self
        · exact List.mem_cons.2 (h _ _ hvs w hw)
      rw [hvs, ← List.cons_append, List.Subset.dedup_append_right hsub,
        List.dedup_cons_of_notMem (by simpa using hlast)]
      rfl
    · rw [List.dedup_cons_of_notMem hv]
      rfl

/-! ## Side by side -/

/--
The states of both searches after they have listed the same nodes: the stack holds
the first requests for nodes that have not been entered.
-/
structure InStep (marks : Marks) (requests : List Nat) (marks' : Marks) (stack : List Nat) :
    Prop where
  first : stack = (requests.filter fun w => isFresh marks w).dedup
  fresh : ∀ w, isFresh marks' w = true ↔ isFresh marks w = true ∧ w ∉ stack

private theorem exists_inStep_start (g : Digraph) (start : Nat) :
    ∃ marks' stack, InStep (Array.replicate g.size false) [start] marks' stack ∧
      g.preorder start = preorderLoop g marks' stack := by
  by_cases hstart : start < g.size
  · refine ⟨mark (Array.replicate g.size false) start, [start], ⟨?_, fun w => ?_⟩, ?_⟩
    · rw [List.filter_cons_of_pos (isFresh_replicate.2 hstart)]
      rfl
    · rw [isFresh_mark, List.mem_singleton]
    · rw [preorder, if_pos hstart]
  · refine ⟨Array.replicate g.size false, [], ⟨?_, fun w => ?_⟩, ?_⟩
    · rw [List.filter_cons_of_neg (mt isFresh_replicate.1 hstart)]
      rfl
    · simp
    · rw [preorder, if_neg hstart, preorderLoop]

private theorem InStep.pass (h : InStep marks (v :: requests) marks' stack)
    (hmarked : ¬isFresh marks v = true) : InStep marks requests marks' stack := by
  refine ⟨?_, h.fresh⟩
  rw [h.first, List.filter_cons_of_neg hmarked]

private theorem InStep.rest (h : InStep marks (v :: requests) marks' (v :: stack))
    (hfresh : isFresh marks v = true) :
    stack = (requests.filter fun w => isFresh (mark marks v) w).dedup := by
  have hstack := h.first
  rw [List.filter_cons_of_pos hfresh] at hstack
  have hv : v ∉ stack := (List.nodup_cons.1 (hstack ▸ List.nodup_dedup _)).1
  have hothers : (requests.filter fun w => isFresh (mark marks v) w) =
      (v :: requests.filter fun w => isFresh marks w).filter fun w => w ≠ v := by
    rw [List.filter_cons_of_neg (by simp), List.filter_filter]
    apply List.filter_congr
    intro w _
    rw [Bool.eq_iff_iff, isFresh_mark, Bool.and_eq_true, decide_eq_true_iff, and_comm]
  rw [hothers, dedup_filter, ← hstack, List.filter_cons_of_neg (by simp), eq_comm,
    List.filter_eq_self]
  intro w hw
  rw [decide_eq_true_iff]
  rintro rfl
  exact hv hw

private theorem InStep.enter (h : InStep marks (v :: requests) marks' (v :: stack))
    (hfresh : isFresh marks v = true) :
    InStep (mark marks v) (g.freshNext (mark marks v) v ++ requests)
      (discover (g.next v) marks' stack).1 (discover (g.next v) marks' stack).2 := by
  have hrest := h.rest hfresh
  have hmem (w : Nat) :
      w ∈ (requests.filter fun w => isFresh (mark marks v) w) ↔ w ∈ stack := by
    rw [hrest, List.mem_dedup]
  constructor
  · -- A successor is put on the stack if it has not been asked for before.
    have hnew : ((g.next v).filter fun w => isFresh marks' w) =
        ((g.next v).filter fun w => isFresh (mark marks v) w).filter
          fun w => w ∉ requests.filter fun w => isFresh (mark marks v) w := by
      rw [List.filter_filter]
      apply List.filter_congr
      intro w _
      rw [Bool.eq_iff_iff, h.fresh, Bool.and_eq_true, decide_eq_true_iff, isFresh_mark, hmem,
        List.mem_cons]
      tauto
    have hasked : (g.freshNext (mark marks v) v).filter (fun w => isFresh (mark marks v) w) =
        (g.next v).filter fun w => isFresh (mark marks v) w := by
      simp only [freshNext, List.filter_filter, Bool.and_self]
    rw [discover_stack, List.filter_append, hasked, dedup_append_eq, ← hnew, ← hrest]
  · intro w
    rw [isFresh_discover, h.fresh, isFresh_mark, mem_discover, h.fresh, List.mem_cons]
    tauto

theorem InStep.head?_iff (h : InStep marks (v :: requests) marks' stack)
    (hfresh : isFresh marks v = true) :
    stack.head? = some v ↔ ∀ above below, requests = above ++ v :: below →
      ∀ w ∈ above, isFresh marks w = true → w = v ∨ w ∈ below := by
  rw [h.first, List.filter_cons_of_pos hfresh, dedup_head?_iff]
  constructor
  · rintro hfirst above below rfl w hw hwfresh
    refine (hfirst (above.filter fun w => isFresh marks w) (below.filter fun w => isFresh marks w)
      ?_ w (List.mem_filter.2 ⟨hw, hwfresh⟩)).imp_right fun hbelow => (List.mem_filter.1 hbelow).1
    rw [List.filter_append, List.filter_cons_of_pos hfresh]
  · intro hfirst above below heq w hw
    obtain ⟨front, back, rfl, rfl, hback⟩ := List.filter_eq_append_iff.1 heq
    obtain ⟨skipped, below, rfl, _, _, rfl⟩ := List.filter_eq_cons_iff.1 hback
    obtain ⟨hfront, hwfresh⟩ := List.mem_filter.1 hw
    refine (hfirst (front ++ skipped) below (by simp) w (List.mem_append_left _ hfront)
      hwfresh).imp_right fun hbelow => ?_
    exact List.mem_filter.2 ⟨hbelow, hwfresh⟩

/--
Whenever the recursive search enters a node that has been asked for before, all
that waits above that request has been asked for even earlier.
-/
def FirstServed (g : Digraph) (start : Nat) : Prop :=
  ∀ marks v tasks, g.Finishing start marks (.enter v :: tasks) → isFresh marks v = true →
    ∀ above below, requested tasks = above ++ v :: below →
      ∀ w ∈ above, isFresh marks w = true → w = v ∨ w ∈ below

private theorem Finishing.preorderLoop_eq {tasks : List Task} (h : g.Finishing start marks tasks)
    (hstep : InStep marks (requested tasks) marks' stack) (hfirst : g.FirstServed start) :
    preorderLoop g marks' stack = (g.explore marks (requested tasks)).forest.preorder := by
  induction marks, tasks using postorderLoop.induct g generalizing marks' stack with
  | case1 marks =>
      have hempty : stack = [] := hstep.first
      rw [hempty, preorderLoop, requested_nil, explore_nil]
      rfl
  | case2 marks v tasks ih => exact ih h.leave hstep
  | case3 marks v tasks hfresh ih =>
      rw [requested_enter] at hstep ⊢
      obtain ⟨rest, rfl⟩ := List.head?_eq_some_iff.1
        ((hstep.head?_iff hfresh).2 (hfirst marks v tasks h hfresh))
      rw [preorderLoop, explore_enter hfresh]
      congr 1
      have hnext := ih (h.enter hfresh) (by simpa using hstep.enter hfresh)
      simpa using hnext
  | case4 marks v tasks hmarked ih =>
      rw [requested_enter] at hstep ⊢
      rw [explore_marked hmarked]
      exact ih (h.pass hmarked) (hstep.pass hmarked)

private theorem exists_top_of_listed {nodes : List Nat}
    (h : preorderLoop g marks stack = v :: nodes) :
    ∃ rest, stack = v :: rest ∧
      preorderLoop g (discover (g.next v) marks rest).1 (discover (g.next v) marks rest).2 =
        nodes := by
  cases stack with
  | nil =>
      rw [preorderLoop] at h
      cases h
  | cons u rest =>
      rw [preorderLoop, List.cons.injEq] at h
      obtain ⟨rfl, hnodes⟩ := h
      exact ⟨rest, rfl, hnodes⟩

private theorem Finishing.exists_inStep {tasks : List Task} (h : g.Finishing start marks tasks)
    (heq : g.preorder start = (g.depthFirst start).preorder) :
    ∃ marks' stack, InStep marks (requested tasks) marks' stack ∧
      preorderLoop g marks' stack = (g.explore marks (requested tasks)).forest.preorder := by
  induction h with
  | start =>
      obtain ⟨marks', stack, hstep, hstart⟩ := exists_inStep_start g start
      exact ⟨marks', stack, hstep, hstart.symm.trans heq⟩
  | leave _ ih => exact ih
  | pass _ hmarked ih =>
      obtain ⟨marks', stack, hstep, hlist⟩ := ih
      rw [requested_enter] at hstep hlist
      rw [explore_marked hmarked] at hlist
      exact ⟨marks', stack, hstep.pass hmarked, hlist⟩
  | @enter marks v tasks _ hfresh ih =>
      obtain ⟨marks', stack, hstep, hlist⟩ := ih
      rw [requested_enter] at hstep hlist
      rw [explore_enter hfresh] at hlist
      obtain ⟨rest, rfl, hnodes⟩ := exists_top_of_listed hlist
      refine ⟨_, _, by simpa using hstep.enter hfresh, ?_⟩
      simpa using hnodes

private theorem preorder_eq_iff (g : Digraph) (start : Nat) :
    g.preorder start = (g.depthFirst start).preorder ↔ g.FirstServed start := by
  constructor
  · intro heq marks v tasks h hfresh
    obtain ⟨marks', stack, hstep, hlist⟩ := h.exists_inStep heq
    rw [requested_enter] at hstep hlist
    rw [explore_enter hfresh] at hlist
    obtain ⟨rest, rfl, _⟩ := exists_top_of_listed hlist
    exact (hstep.head?_iff hfresh).1 rfl
  · intro hfirst
    obtain ⟨marks', stack, hstep, hstart⟩ := exists_inStep_start g start
    rw [hstart]
    exact Finishing.start.preorderLoop_eq hstep hfirst

/-! ## Successors apart -/

/--
Tasks come from successors of nodes that have been entered: what waits below a
task is a later successor of a node one of whose earlier successors leads there.
-/
structure Nested (g : Digraph) (start : Nat) (marks : Marks) (tasks : List Task) : Prop where
  size : marks.size = g.size
  reached : ∀ task ∈ tasks, task.node < g.size → g.Reaches start task.node
  later : tasks.Pairwise fun task other => ∀ y, other = .enter y → task.node < g.size →
    ∃ a x, g.Reaches start a ∧ [x, y].Sublist (g.next a) ∧ g.Reaches x task.node

private theorem Finishing.nested {tasks : List Task} (h : g.Finishing start marks tasks) :
    g.Nested start marks tasks := by
  induction h with
  | start =>
      refine ⟨by simp, fun task htask _ => ?_, List.pairwise_singleton _ _⟩
      cases List.mem_singleton.1 htask
      exact .refl start
  | leave _ ih =>
      exact ⟨ih.size, fun task htask => ih.reached task (List.mem_cons_of_mem _ htask),
        (List.pairwise_cons.1 ih.later).2⟩
  | pass _ _ ih =>
      exact ⟨ih.size, fun task htask => ih.reached task (List.mem_cons_of_mem _ htask),
        (List.pairwise_cons.1 ih.later).2⟩
  | @enter marks v tasks _ hfresh ih =>
      have hlt : v < g.size := ih.size ▸ lt_size_of_isFresh hfresh
      have hv : g.Reaches start v := ih.reached (.enter v) List.mem_cons_self hlt
      obtain ⟨hbelow, hrest⟩ := List.pairwise_cons.1 ih.later
      refine ⟨by simpa using ih.size, fun task htask hin => ?_, ?_⟩
      · rcases List.mem_append.1 htask with hnew | hold
        · obtain ⟨w, hw, rfl⟩ := List.mem_map.1 hnew
          exact hv.tail (mem_freshNext.1 hw).1 hin
        · rcases List.mem_cons.1 hold with rfl | hold
          · exact hv
          · exact ih.reached task (List.mem_cons_of_mem _ hold) hin
      · rw [List.pairwise_append]
        refine ⟨?_, List.pairwise_cons.2 ⟨hbelow, hrest⟩, fun task hnew other hold y hy hin => ?_⟩
        · rw [List.pairwise_map, List.pairwise_iff_forall_sublist]
          intro x y hsub z hz _
          cases hz
          exact ⟨v, x, hv, hsub.trans List.filter_sublist, .refl x⟩
        · obtain ⟨w, hw, rfl⟩ := List.mem_map.1 hnew
          subst hy
          obtain ⟨a, x, ha, hsub, hx⟩ := hbelow (.enter y)
            ((List.mem_cons.1 hold).resolve_left (by simp)) y rfl hlt
          exact ⟨a, x, ha, hsub, hx.tail (mem_freshNext.1 hw).1 hin⟩

private theorem mem_requested {tasks : List Task} : v ∈ requested tasks ↔ .enter v ∈ tasks := by
  induction tasks with
  | nil => simp
  | cons task tasks ih => cases task <;> simp [ih]

private theorem firstServed_of_apart
    (h : ∀ a x y, g.Reaches start a → [x, y].Sublist (g.next a) → ¬g.Reaches x y) :
    g.FirstServed start := by
  intro marks v tasks hstate hfresh above below heq
  have hnested := hstate.nested
  have hagain : v ∈ requested tasks := by
    rw [heq]
    exact List.mem_append_right _ List.mem_cons_self
  obtain ⟨a, x, ha, hsub, hx⟩ := (List.pairwise_cons.1 hnested.later).1 _
    (mem_requested.1 hagain) v rfl (hnested.size ▸ lt_size_of_isFresh hfresh)
  exact absurd hx (h a x v ha hsub)

end Digraph

/--
The traversal that lists nodes as they are left is the recursive search.  The one
that lists them as they are found has the order in which that search enters them
exactly when the search, entering a node for which there is an earlier request,
has nothing above that request but what was asked for before it too.  This is so
where no successor of a node can be reached from one that comes before it.
-/
theorem Digraph.discovery_order (g : Digraph) (start : Nat) :
    g.postorder start = (g.depthFirst start).postorder ∧
    (g.preorder start = (g.depthFirst start).preorder ↔ g.FirstServed start) ∧
    ((∀ a x y, g.Reaches start a → [x, y].Sublist (g.next a) → ¬g.Reaches x y) →
      g.preorder start = (g.depthFirst start).preorder) :=
  ⟨g.postorder_eq start, g.preorder_eq_iff start, fun h =>
    (g.preorder_eq_iff start).2 (firstServed_of_apart h)⟩

/-- A diamond, and the same with an edge from the top to the bottom. -/
def diamond (shortcut : List Nat) : Digraph :=
  ⟨4, fun v => [[1, 2] ++ shortcut, [3], [3], []][v]?.getD []⟩

theorem diamond_discovered :
    (diamond []).preorder 0 = [0, 1, 3, 2] ∧ ((diamond []).depthFirst 0).preorder = [0, 1, 3, 2] ∧
      (diamond []).FirstServed 0 ∧ (diamond []).postorder 0 = [3, 1, 2, 0] ∧
      ((diamond []).depthFirst 0).postorder = [3, 1, 2, 0] := by
  have hpre : (diamond []).preorder 0 = [0, 1, 3, 2] := by cbv
  have hside : (diamond []).preorder 1 = [1, 3] := by cbv
  have hpost : (diamond []).postorder 0 = [3, 1, 2, 0] := by cbv
  obtain ⟨hleft, hiff, happart⟩ := Digraph.discovery_order (diamond []) 0
  have hagree : (diamond []).preorder 0 = ((diamond []).depthFirst 0).preorder := by
    apply happart
    intro a x y ha hsub hreach
    have hlisted := (Digraph.mem_preorder (diamond [])).2 ⟨by decide, ha⟩
    simp only [hpre, List.mem_cons, List.not_mem_nil, or_false] at hlisted
    rcases hlisted with rfl | rfl | rfl | rfl
    · cases (hsub.eq_of_length rfl : [x, y] = [1, 2])
      have hback := (Digraph.mem_preorder (diamond [])).2 ⟨by decide, hreach⟩
      simp [hside] at hback
    all_goals simpa [diamond] using hsub.length_le
  exact ⟨hpre, hagree.symm.trans hpre, hiff.1 hagree, hpost, hleft.symm.trans hpost⟩

theorem diamond_shortcut_overtaken :
    (∀ v < 4, ∀ w ∈ (diamond [3]).next v, w < 4) ∧
      (diamond [3]).preorder 0 = [0, 1, 2, 3] ∧
      ((diamond [3]).depthFirst 0).preorder = [0, 1, 3, 2] ∧
      (diamond [3]).preorder 0 ≠ ((diamond [3]).depthFirst 0).preorder := by
  have hfound : (diamond [3]).preorder 0 = [0, 1, 2, 3] := by cbv
  have hentered : ((diamond [3]).depthFirst 0).preorder = [0, 1, 3, 2] := by cbv
  refine ⟨by decide, hfound, hentered, ?_⟩
  rw [hfound, hentered]
  decide

end FrameFlow
