import FrameFlow.Proofs.Edges
import Mathlib.Data.List.Nodup

/-!
# Predecessors

The table of predecessors is filled edge by edge.  The lists of outgoing edges go
through the code twice, once for the normal edges and once for the exceptional ones,
so the place of a list modulo the length of the code is the source of its edges.
At any time the table holds, for each instruction, the sources of the edges into it
that have been gone through, and each of them once.
-/

namespace FrameFlow

namespace FlowGraph

variable {g : FlowGraph} {p t : Nat}

/-! ## The edges and their sources -/

private theorem mem_getD_nil {out? : Option (List Edge)} {e : Edge} :
    e ∈ out?.getD [] ↔ ∃ out, out? = some out ∧ e ∈ out := by
  cases out? <;> simp

private theorem outgoing_getElem? {i : Nat} :
    g.outgoing[i]? = if i < g.size then g.normal[i]? else g.thrown[i - g.size]? := by
  rw [outgoing, Array.getElem?_toList, Array.getElem?_append]
  rfl

private theorem mem_arrows {arrow : Nat × Edge} :
    arrow ∈ g.arrows ↔
      ∃ i out, g.outgoing[i]? = some out ∧ i % g.size = arrow.1 ∧ arrow.2 ∈ out := by
  simp only [arrows, List.mem_flatMap, List.mem_map]
  constructor
  · rintro ⟨⟨out, i⟩, hout, e, he, rfl⟩
    exact ⟨i, out, List.mk_mem_zipIdx_iff_getElem?.1 hout, rfl, he⟩
  · rintro ⟨i, out, hout, hsource, he⟩
    exact ⟨(out, i), List.mk_mem_zipIdx_iff_getElem?.2 hout, arrow.2, he, Prod.ext hsource rfl⟩

/-- With as many lists of exceptional edges as of normal ones, the sources are right. -/
theorem mem_arrows_iff (hsize : g.thrown.size = g.size) {arrow : Nat × Edge} :
    arrow ∈ g.arrows ↔ arrow.2 ∈ g.edges arrow.1 := by
  simp only [mem_arrows, edges, normalEdges, thrownEdges, List.mem_append, mem_getD_nil]
  constructor
  · rintro ⟨i, out, hout, hsource, he⟩
    rw [outgoing_getElem?] at hout
    split at hout
    · rename_i hlt
      rw [Nat.mod_eq_of_lt hlt] at hsource
      exact .inl ⟨out, hsource ▸ hout, he⟩
    · rename_i hge
      have hlt := (Array.getElem?_eq_some_iff.1 hout).1
      have hback : i % g.size = i - g.size := by
        rw [Nat.mod_eq_sub_mod (by omega), Nat.mod_eq_of_lt (by omega)]
      exact .inr ⟨out, hsource ▸ hback ▸ hout, he⟩
  · rintro (⟨out, hout, he⟩ | ⟨out, hout, he⟩)
    · have hlt : arrow.1 < g.size := (Array.getElem?_eq_some_iff.1 hout).1
      refine ⟨arrow.1, out, ?_, Nat.mod_eq_of_lt hlt, he⟩
      rw [outgoing_getElem?, if_pos hlt, hout]
    · have hlt : arrow.1 < g.size := hsize ▸ (Array.getElem?_eq_some_iff.1 hout).1
      refine ⟨g.size + arrow.1, out, ?_, ?_, he⟩
      · rw [outgoing_getElem?, if_neg (by omega), Nat.add_sub_cancel_left, hout]
      · rw [Nat.add_mod_left, Nat.mod_eq_of_lt hlt]

/-! ## Filling the table -/

private theorem noteArrow_cases {table : Array (List Nat)} {arrow : Nat × Edge} {sources : List Nat}
    (h : (noteArrow table arrow)[t]? = some sources) :
    (arrow.2.target ≠ t ∧ table[t]? = some sources) ∨
      (arrow.2.target = t ∧ arrow.1 ∈ sources ∧ table[t]? = some sources) ∨
      ∃ before, arrow.2.target = t ∧ arrow.1 ∉ before ∧ table[t]? = some before ∧
        sources = before ++ [arrow.1] := by
  rw [noteArrow, Array.getElem?_modify] at h
  split at h
  · rename_i htarget
    obtain ⟨before, hbefore, hsources⟩ := Option.map_eq_some_iff.1 h
    split at hsources
    · rename_i hmem
      subst hsources
      exact .inr (.inl ⟨htarget, List.contains_iff_mem.1 hmem, hbefore⟩)
    · rename_i hnot
      rw [List.contains_iff_mem] at hnot
      exact .inr (.inr ⟨before, htarget, hnot, hbefore, hsources.symm⟩)
  · rename_i htarget
    exact .inl ⟨htarget, h⟩

/-- The table when the arrows in `done` have been gone through. -/
structure Noted (size : Nat) (done : List (Nat × Edge)) (table : Array (List Nat)) : Prop where
  size : table.size = size
  nodup : ∀ (t : Nat) (sources : List Nat), table[t]? = some sources → sources.Nodup
  mem : ∀ (t : Nat) (sources : List Nat), table[t]? = some sources →
    ∀ (p : Nat), p ∈ sources ↔ ∃ arrow ∈ done, arrow.1 = p ∧ arrow.2.target = t

private theorem noted_replicate (size : Nat) : Noted size [] (Array.replicate size []) := by
  have hempty : ∀ (t : Nat) (sources : List Nat),
      (Array.replicate size ([] : List Nat))[t]? = some sources → sources = [] := by
    intro t sources h
    obtain ⟨_, hget⟩ := Array.getElem?_eq_some_iff.1 h
    simpa using hget.symm
  constructor
  · simp
  · intro t sources h
    rw [hempty t sources h]
    exact .nil
  · intro t sources h p
    simp [hempty t sources h]

namespace Noted

variable {size : Nat} {done : List (Nat × Edge)} {table : Array (List Nat)}

private theorem step (h : Noted size done table) (arrow : Nat × Edge) :
    Noted size (done ++ [arrow]) (noteArrow table arrow) := by
  constructor
  · simp [noteArrow, h.size]
  · intro t sources hsources
    obtain ⟨_, hsame⟩ | ⟨_, _, hsame⟩ | ⟨before, _, hnot, hbefore, rfl⟩ := noteArrow_cases hsources
    · exact h.nodup t sources hsame
    · exact h.nodup t sources hsame
    · exact List.nodup_append.2 ⟨h.nodup t before hbefore, List.nodup_singleton _, by grind⟩
  · intro t sources hsources p
    simp only [List.mem_append, List.mem_singleton, or_and_right, exists_or, exists_eq_left]
    obtain ⟨htarget, hsame⟩ | ⟨_, hmem, hsame⟩ | ⟨before, htarget, _, hbefore, rfl⟩ :=
      noteArrow_cases hsources
    · simp [h.mem t sources hsame p, htarget]
    · -- The source is on the list, so its edge is like one gone through before.
      rw [← h.mem t sources hsame p, iff_self_or]
      rintro ⟨rfl, _⟩
      exact hmem
    · simp [h.mem t before hbefore p, htarget, eq_comm]

private theorem run (h : Noted size done table) (rest : List (Nat × Edge)) :
    Noted size (done ++ rest) (rest.foldl noteArrow table) := by
  induction rest generalizing done table with
  | nil => simpa using h
  | cons arrow rest ih => simpa using ih (h.step arrow)

end Noted

theorem predecessorTable_noted (g : FlowGraph) : Noted g.size g.arrows g.predecessorTable := by
  have hrun := (noted_replicate g.size).run g.arrows
  rwa [List.nil_append] at hrun

private theorem predecessors_nodup (g : FlowGraph) (t : Nat) : (g.predecessors t).Nodup := by
  unfold predecessors
  cases hsources : g.predecessorTable[t]? with
  | none => exact .nil
  | some sources => exact g.predecessorTable_noted.nodup t sources hsources

private theorem mem_predecessors (ht : t < g.size) :
    p ∈ g.predecessors t ↔ ∃ arrow ∈ g.arrows, arrow.1 = p ∧ arrow.2.target = t := by
  have hnoted := g.predecessorTable_noted
  obtain ⟨sources, hsources⟩ : ∃ sources, g.predecessorTable[t]? = some sources :=
    ⟨_, Array.getElem?_eq_getElem (hnoted.size ▸ ht)⟩
  rw [predecessors, hsources]
  exact hnoted.mem t sources hsources p

private theorem predecessors_outside (ht : g.size ≤ t) : g.predecessors t = [] := by
  rw [predecessors, Array.getElem?_eq_none (g.predecessorTable_noted.size ▸ ht)]
  rfl

end FlowGraph

namespace Method

variable {m : Method} {g : FlowGraph}

private theorem thrown_size (hgraph : m.graph = .ok g) : g.thrown.size = g.size := by
  obtain ⟨rfl, _⟩ := graph_ok hgraph
  simp [FlowGraph.size, edgeGraph]

/--
An instruction is a predecessor of another if some edge, normal or exceptional, leads
from it there, and it is listed once, however many edges do.
-/
theorem predecessors_mirror_edges (hgraph : m.graph = .ok g) (p t : Nat) :
    (p ∈ g.predecessors t ↔
        ∃ e : Edge, (e ∈ g.normalEdges p ∨ e ∈ g.thrownEdges p) ∧ e.target = t) ∧
      (p ∈ g.predecessors t → (g.predecessors t).count p = 1) := by
  refine ⟨?_, List.count_eq_one_of_mem (g.predecessors_nodup t)⟩
  have hedges : (∃ e : Edge, (e ∈ g.normalEdges p ∨ e ∈ g.thrownEdges p) ∧ e.target = t) ↔
      ∃ e ∈ g.edges p, e.target = t := by
    simp [FlowGraph.edges]
  rw [hedges]
  by_cases ht : t < g.size
  · rw [FlowGraph.mem_predecessors ht]
    constructor
    · rintro ⟨arrow, harrow, rfl, htarget⟩
      exact ⟨arrow.2, (FlowGraph.mem_arrows_iff (thrown_size hgraph)).1 harrow, htarget⟩
    · rintro ⟨e, he, htarget⟩
      exact ⟨(p, e), (FlowGraph.mem_arrows_iff (thrown_size hgraph)).2 he, rfl, htarget⟩
  · rw [FlowGraph.predecessors_outside (Nat.le_of_not_lt ht)]
    constructor
    · simp
    · rintro ⟨e, he, rfl⟩
      exact absurd (edge_target_lt_size hgraph he) ht

end Method

def reroute : Method where
  owner := "Router"
  name := "reroute"
  type := ⟨[.base .int], none⟩
  access := .publicStatic
  maxLocals := 1
  maxStack := none
  code := #[.load .int 0, .switch 2 [(0, 2), (1, 2), (7, 4)], .load .int 0, .branch .eq 4,
    .ret none, .stack .pop, .jump 2]
  handlers := [⟨1, 4, 5, none⟩, ⟨0, 3, 5, some "Lost"⟩, ⟨6, 7, 2, none⟩]

theorem reroute_predecessors :
    ∃ g, reroute.graph = .ok g ∧
      (g.normalEdges 1).map Edge.target = [2, 2, 2, 4] ∧ (g.predecessors 2).count 1 = 1 ∧
      (g.edges 6).map Edge.target = [2, 2] ∧ (g.predecessors 2).count 6 = 1 ∧
      (g.thrownEdges 2).map Edge.target = [5, 5] ∧ (g.predecessors 5).count 2 = 1 ∧
      3 ∉ g.predecessors 2 := by
  have hgraph : reroute.graph = .ok reroute.edgeGraph := rfl
  have hswitch : reroute.edgeGraph.normalEdges 1 =
      [⟨2, .case none⟩, ⟨2, .case (some 0)⟩, ⟨2, .case (some 1)⟩, ⟨4, .case (some 7)⟩] := rfl
  have hjump : reroute.edgeGraph.normalEdges 6 = [⟨2, .always⟩] := rfl
  have hagain : reroute.edgeGraph.thrownEdges 6 = [⟨2, .thrown none⟩] := rfl
  have hthrown : reroute.edgeGraph.thrownEdges 2 =
      [⟨5, .thrown none⟩, ⟨5, .thrown (some "Lost")⟩] := rfl
  have hbranch : reroute.edgeGraph.normalEdges 3 = [⟨4, .taken⟩, ⟨4, .notTaken⟩] := rfl
  have hcaught : reroute.edgeGraph.thrownEdges 3 = [⟨5, .thrown none⟩] := rfl
  have hmirror := Method.predecessors_mirror_edges hgraph
  refine ⟨_, hgraph, ?_, ?_, ?_, ?_, ?_, ?_, ?_⟩
  · rw [hswitch]
    rfl
  · exact (hmirror 1 2).2 ((hmirror 1 2).1.2 ⟨_, .inl (hswitch ▸ List.mem_cons_self), rfl⟩)
  · rw [FlowGraph.edges, hjump, hagain]
    rfl
  · exact (hmirror 6 2).2 ((hmirror 6 2).1.2 ⟨_, .inr (hagain ▸ List.mem_cons_self), rfl⟩)
  · rw [hthrown]
    rfl
  · exact (hmirror 2 5).2 ((hmirror 2 5).1.2 ⟨_, .inr (hthrown ▸ List.mem_cons_self), rfl⟩)
  · rw [(hmirror 3 2).1, hbranch, hcaught]
    simp

end FrameFlow
