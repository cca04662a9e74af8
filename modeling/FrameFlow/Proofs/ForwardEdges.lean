import FrameFlow.Proofs.DepthFirst
import FrameFlow.Proofs.Reachable

/-!
# Forward edges

When the search leaves a node, it has left every successor that was fresh on
entering the node.  A successor that was not fresh then has either been left
before, or the search is inside it and will leave it later, and in that case the
successor leads to the node.  So the reversed finishing order keeps the direction
of every edge that no path leads back along, whatever loops there are.
-/

namespace FrameFlow

namespace Digraph

def Precedes (order : List Nat) (u v : Nat) : Prop :=
  u ∈ order ∧ v ∈ order ∧ ∀ j k : Nat, order[j]? = some u → order[k]? = some v → j < k

private theorem precedes_of_sublist {order : List Nat} {u v : Nat} (hnodup : order.Nodup)
    (h : [u, v].Sublist order) : Precedes order u v := by
  refine ⟨h.subset (by simp), h.subset (by simp), fun j k hj hk => ?_⟩
  obtain ⟨before, after, rfl, hu, hv⟩ := List.cons_sublist_iff.1 h
  have hdisjoint := (List.nodup_append.1 hnodup).2.2
  rw [List.singleton_sublist] at hv
  have hj' : j < before.length := by
    by_contra hge
    rw [List.getElem?_append_right (by omega)] at hj
    exact hdisjoint u hu u (List.mem_of_getElem? hj) rfl
  have hk' : before.length ≤ k := by
    by_contra hlt
    rw [List.getElem?_append_left (by omega)] at hk
    exact hdisjoint v (List.mem_of_getElem? hk) v hv rfl
  omega

variable {g : Digraph} {marks : Marks} {start u v w : Nat} {vs : List Nat}

/-- A fresh successor is left before the node, or leads back to it. -/
theorem explore_forward (hsize : marks.size = g.size)
    (hu : u ∈ (g.explore marks vs).forest.preorder) (hnext : w ∈ g.next u)
    (h : isFresh marks w = true) :
    [w, u].Sublist (g.explore marks vs).forest.postorder ∨ g.Reaches w u := by
  induction marks, vs using explore.induct g with
  | case1 marks => simp [Explored.nothing, Forest.preorder] at hu
  | case2 marks v vs hfresh inner ihbelow ihbeside =>
      have hsize' : (mark marks v).size = g.size := by rw [mark_size, hsize]
      rw [explore_forest hfresh, Forest.postorder]
      rcases (mem_explore_iff hfresh).1 hu with rfl | hbelow | hbeside
      · by_cases hwu : w = u
        · exact .inr (hwu ▸ .refl w)
        · have hw := mem_explore_of_mem (g := g) hnext (isFresh_mark.2 ⟨h, hwu⟩)
          left
          exact (List.singleton_sublist.2 ((Forest.postorder_perm _).mem_iff.2 hw)).append
            (List.singleton_sublist.2 List.mem_cons_self)
      · by_cases hwv : w = v
        · -- The search is inside the successor, so the node has been reached from it.
          obtain ⟨x, hx, hlt, hreaches⟩ := exists_reaches_of_mem_explore hsize' hbelow
          exact .inr (hwv ▸ hreaches.head hx hlt)
        · refine (ihbelow hsize' hbelow (isFresh_mark.2 ⟨h, hwv⟩)).imp_left fun hsub => ?_
          exact hsub.trans (List.sublist_append_left _ _)
      · by_cases hstill : isFresh inner.after w = true
        · refine (ihbeside (after_size.trans hsize') hbeside hstill).imp_left fun hsub => ?_
          exact (hsub.trans (List.sublist_cons_self _ _)).trans (List.sublist_append_right _ _)
        · left
          have hw : w ∈ inner.forest.postorder ++ [v] := by
            rw [isFresh_after_iff, isFresh_mark] at hstill
            rw [List.mem_append, List.mem_singleton, (Forest.postorder_perm _).mem_iff]
            tauto
          have hsub := (List.singleton_sublist.2 hw).append
            (List.singleton_sublist.2 ((Forest.postorder_perm _).mem_iff.2 hbeside))
          simpa using hsub
  | case3 marks v vs hmarked ih =>
      rw [explore_marked hmarked] at hu ⊢
      exact ih hsize hu h

private theorem reversePostorder_nodup (g : Digraph) (start : Nat) :
    (g.reversePostorder start).Nodup :=
  List.nodup_reverse.2 (g.postorder_nodup start)

theorem precedes_of_forward (hstart : start < g.size) (hu : g.Reaches start u)
    (hnext : v ∈ g.next u) (hlt : v < g.size) (hback : ¬g.Reaches v u) :
    Precedes (g.reversePostorder start) u v := by
  apply precedes_of_sublist (g.reversePostorder_nodup start)
  rw [reversePostorder, postorder_eq, ← List.reverse_sublist, List.reverse_reverse]
  exact (explore_forward (by simp) (mem_depthFirst.2 ⟨hstart, hu⟩) hnext
    (isFresh_replicate.2 hlt)).resolve_right hback

private theorem reversePostorder_head (hstart : start < g.size) :
    (g.reversePostorder start).head? = some start := by
  rw [reversePostorder, postorder_eq, depthFirst, explore_forest (isFresh_replicate.2 hstart)]
  simp [Forest.postorder, Explored.nothing]

end Digraph

namespace FlowGraph

theorem mem_order_iff {g : FlowGraph} {i : Nat} (hsize : 0 < g.size) :
    i ∈ g.order ↔ g.Reachable i := by
  rw [order, Digraph.reversePostorder, List.mem_reverse, Digraph.mem_postorder]
  exact and_iff_right hsize

theorem order_nodup (g : FlowGraph) : g.order.Nodup :=
  g.digraph.reversePostorder_nodup entry

private theorem rank?_eq_some_iff {g : FlowGraph} {i k : Nat} :
    g.rank? i = some k ↔ g.order[k]? = some i := by
  rw [rank?, List.idxOf?_eq_some_iff, List.getElem?_eq_some_iff]
  constructor
  · rintro ⟨hlt, hget, _⟩
    exact ⟨hlt, hget⟩
  · rintro ⟨hlt, hget⟩
    refine ⟨hlt, hget, fun j hj heq => ?_⟩
    have := (g.order_nodup.getElem_inj_iff).1 (heq.trans hget.symm)
    omega

end FlowGraph

/--
In the reversed finishing order the node started from comes first, and every edge
between nodes that can be reached leads forward unless a path leads back along it.
In the graph of a method, the rank of an instruction is its place in the order.
-/
theorem Digraph.reversePostorder_forward (g : Digraph) (start : Nat) :
    (start < g.size → (g.reversePostorder start).head? = some start ∧
      ∀ u v, g.Reaches start u → v ∈ g.next u → v < g.size → ¬g.Reaches v u →
        Precedes (g.reversePostorder start) u v) ∧
    (g.size ≤ start → g.reversePostorder start = []) ∧
    ∀ (graph : FlowGraph) (i k : Nat), graph.rank? i = some k ↔ graph.order[k]? = some i := by
  refine ⟨fun hstart => ⟨reversePostorder_head hstart, fun u v hu hnext hlt hback => ?_⟩,
    fun hstart => ?_, fun graph i k => graph.rank?_eq_some_iff⟩
  · exact precedes_of_forward hstart hu hnext hlt hback
  · rw [reversePostorder, postorder_of_outside hstart, List.reverse_nil]

/-- The loop of the nodes 1 and 2 can be entered at both. -/
def tangle : Digraph :=
  ⟨5, fun v => [[2, 1], [2, 3], [1], [4, 4], []][v]?.getD []⟩

theorem tangle_forward :
    tangle.reversePostorder 0 = [0, 2, 1, 3, 4] ∧
      (tangle.reversePostorder 0).head? = some 0 ∧
      Digraph.Precedes (tangle.reversePostorder 0) 0 1 ∧
      Digraph.Precedes (tangle.reversePostorder 0) 1 3 ∧ tangle.reversePostorder 5 = [] ∧
      drain.edgeGraph.rank? 6 = some 3 ∧ drain.edgeGraph.order[3]? = some 6 := by
  have horder : tangle.reversePostorder 0 = [0, 2, 1, 3, 4] := by cbv
  have hrank : drain.edgeGraph.rank? 6 = some 3 := by cbv
  have hreaches {u v : Nat} (h : v ∈ tangle.preorder u) : tangle.Reaches u v :=
    ((Digraph.mem_preorder tangle).1 h).2
  have hback {u v : Nat} (hu : u < 5) (h : v ∉ tangle.preorder u) : ¬tangle.Reaches u v :=
    fun hreach => h ((Digraph.mem_preorder tangle).2 ⟨hu, hreach⟩)
  have hentry : tangle.preorder 0 = [0, 2, 1, 3, 4] := by cbv
  have hone : tangle.preorder 1 = [1, 2, 3, 4] := by cbv
  have hthree : tangle.preorder 3 = [3, 4] := by cbv
  obtain ⟨hforward, _, hranks⟩ := Digraph.reversePostorder_forward tangle 0
  obtain ⟨hhead, hedges⟩ := hforward (by decide)
  refine ⟨horder, hhead, ?_, ?_, ?_, hrank, (hranks _ _ _).1 hrank⟩
  · exact hedges 0 1 (.refl 0) (by decide) (by decide) (hback (by decide) (by simp [hone]))
  · exact hedges 1 3 (hreaches (by simp [hentry])) (by decide) (by decide)
      (hback (by decide) (by simp [hthree]))
  · exact (Digraph.reversePostorder_forward tangle 5).2.1 (by decide)

end FrameFlow
