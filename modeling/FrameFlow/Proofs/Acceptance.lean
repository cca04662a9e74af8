import FrameFlow.Proofs.Reachable
import Mathlib.Logic.Relation

/-!
# Methods that have a graph

The graph of a method is built from its code before it is known to be sound, and
what can be reached is found by searching that graph, with the edges that would
lead off the end of the code left out.  Said without the graph: a method has one
if all targets and handler ranges lie inside its code and control, going from
instruction to instruction, never gets to one that falls off the end.

A graph that has been built leads nowhere outside the code, so whatever is looked
up by the position of an instruction is found: marks of a search, places in the
order, frames of a run.
-/

namespace FrameFlow

namespace Method

/-! ## The flow of control -/

inductive Flows (m : Method) (i : Nat) : Nat → Prop
  | jump {insn : Insn Nat} {t : Nat} (hinsn : m.code[i]? = some insn) (ht : t ∈ insn.targets) :
      Flows m i t
  | next {insn : Insn Nat} (hinsn : m.code[i]? = some insn)
      (hflow : insn.flow = .sequential ∨ insn.flow = .conditional) (hlt : i + 1 < m.code.size) :
      Flows m i (i + 1)
  | thrown {handler : Handler Nat} (hi : i < m.code.size) (hmem : handler ∈ m.handlers)
      (hstart : handler.start ≤ i) (hstop : i < handler.stop) : Flows m i handler.entry

def Reached (m : Method) (i : Nat) : Prop :=
  Relation.ReflTransGen m.Flows FlowGraph.entry i

/-- What has to hold of the code of a method, so that it has a graph. -/
structure Coherent (m : Method) : Prop extends Enclosed m where
  stays : ∀ (i : Nat) (insn : Insn Nat), m.Reached i → m.code[i]? = some insn →
    insn.flow = .sequential ∨ insn.flow = .conditional → i + 1 < m.code.size

variable {m : Method} {i j : Nat} {insn : Insn Nat}

private theorem normalEdges_target (m : Method) (i : Nat) (insn : Insn Nat) :
    (m.normalEdges i insn).map Edge.target =
      insn.targets ++ if (insn.flow = .sequential ∨ insn.flow = .conditional) ∧
        i + 1 < m.code.size then [i + 1] else [] := by
  unfold normalEdges
  simp only [Bool.and_eq_true, decide_eq_true_eq, Insn.fallsThrough_iff]
  split <;> simp [Insn.jumpEdges_target]

private theorem flows_iff : m.Flows i j ↔ ∃ e ∈ m.edgeGraph.edges i, e.target = j := by
  constructor
  · intro h
    have hi : i < m.code.size := by
      cases h with
      | jump hinsn _ => exact (Array.getElem?_eq_some_iff.1 hinsn).1
      | next _ _ hlt => omega
      | thrown hi _ _ _ => exact hi
    have hinsn : m.code[i]? = some m.code[i] := Array.getElem?_eq_getElem hi
    obtain ⟨hnormal, hthrown⟩ := edgeGraph_edges hinsn
    have htargets := normalEdges_target m i m.code[i]
    rw [FlowGraph.edges, hnormal, hthrown, ← List.mem_map, List.map_append, htargets]
    cases h with
    | jump hinsn' ht =>
        cases hinsn.symm.trans hinsn'
        simp [ht]
    | next hinsn' hflow hlt =>
        cases hinsn.symm.trans hinsn'
        simp [hflow, hlt]
    | @thrown handler _ hmem hstart hstop =>
        refine List.mem_append_right _ ?_
        simp only [thrownEdges, List.map_map, List.mem_map, List.mem_filter, Handler.covers_iff]
        exact ⟨handler, ⟨hmem, hstart, hstop⟩, rfl⟩
  · rintro ⟨e, he, rfl⟩
    rcases edges_edgeGraph m i with ⟨hnormal, hthrown⟩ | ⟨insn, hinsn, hnormal, hthrown⟩
    · simp [FlowGraph.edges, hnormal, hthrown] at he
    · rw [FlowGraph.edges, hnormal, hthrown, List.mem_append] at he
      rcases he with hnormal | hthrown
      · rcases mem_normalEdges.1 hnormal with hjump | ⟨hfalls, hlt, rfl⟩
        · exact .jump hinsn (Insn.jumpEdge hjump).1
        · exact .next hinsn (Insn.fallsThrough_iff.1 hfalls) hlt
      · obtain ⟨handler, hmem, rfl⟩ := List.mem_map.1 hthrown
        obtain ⟨hhandler, hcovers⟩ := List.mem_filter.1 hmem
        obtain ⟨hstart, hstop⟩ := Handler.covers_iff.1 hcovers
        exact .thrown (Array.getElem?_eq_some_iff.1 hinsn).1 hhandler hstart hstop

private theorem Enclosed.flows_lt (h : m.Enclosed) (hflows : m.Flows i j) : j < m.code.size := by
  cases hflows with
  | jump hinsn ht => exact h.targets i _ hinsn _ ht
  | next _ _ hlt => exact hlt
  | thrown _ hmem _ _ => exact (h.handlers _ hmem).2.2

theorem Enclosed.reachable_iff (h : m.Enclosed) : m.edgeGraph.Reachable i ↔ m.Reached i := by
  constructor
  · intro hreach
    unfold FlowGraph.Reachable at hreach
    induction hreach with
    | refl => exact .refl
    | tail _ hnext _ ih => exact ih.tail (flows_iff.2 (List.mem_map.1 hnext))
  · intro hreach
    induction hreach with
    | refl => exact .refl _
    | tail _ hflows ih =>
        obtain ⟨e, he, rfl⟩ := flows_iff.1 hflows
        refine ih.edge he ?_
        simpa [FlowGraph.size, edgeGraph] using h.flows_lt hflows

theorem graph_ok_iff {g : FlowGraph} : m.graph = .ok g ↔ m.Coherent ∧ g = m.edgeGraph := by
  have hsize (h : m.Enclosed) : 0 < m.edgeGraph.size := by
    simpa [FlowGraph.size, edgeGraph] using h.code
  constructor
  · intro h
    have hinside := graph_enclosed h
    have hend := fallOff?_eq_none_iff.1 (graph_fallOff? h)
    refine ⟨⟨hinside, fun i insn hreach hinsn hflow => ?_⟩, (graph_ok h).1⟩
    exact hend i insn hinsn (Insn.fallsThrough_iff.2 hflow)
      ((FlowGraph.isReachable_iff (hsize hinside)).2 (hinside.reachable_iff.2 hreach))
  · rintro ⟨h, rfl⟩
    have hend : m.fallOff? = none := by
      refine fallOff?_eq_none_iff.2 fun i insn hinsn hfalls hfound => ?_
      have hreach := (FlowGraph.isReachable_iff (hsize h.toEnclosed)).1 hfound
      exact h.stays i insn (h.toEnclosed.reachable_iff.1 hreach) hinsn
        (Insn.fallsThrough_iff.1 hfalls)
    simp only [graph, structureFault?_eq_none_iff.2 h.toEnclosed, hend]

/-! ## Tables -/

/--
Whatever is looked up by position is there: the targets of edges, the starts of
blocks, the marks of both searches and what they list, the frames of any run.
-/
structure TablesFit (m : Method) (g : FlowGraph) : Prop where
  edges : ∀ (i : Nat), ∀ e ∈ g.edges i, e.target < g.size
  starts : ∀ handler ∈ m.handlers, handler.start < g.size ∧ handler.entry < g.size
  searching : ∀ (marks : Digraph.Marks) (v : Nat) (stack : List Nat),
    g.digraph.Searching FlowGraph.entry marks (v :: stack) →
      v < g.size ∧ ∀ w ∈ g.digraph.next v, w < marks.size
  finishing : ∀ (marks : Digraph.Marks) (v : Nat) (tasks : List Digraph.Task),
    g.digraph.Finishing FlowGraph.entry marks (.enter v :: tasks) →
      v < marks.size ∧ ∀ w ∈ g.digraph.next v, w < marks.size
  found : ∀ i ∈ g.preorder, i < g.size
  ordered : ∀ i ∈ g.order, i < g.size
  running : ∀ (σ : Type) (cfg : Config σ) (seed : Frame) (start : σ) (T : Run σ),
    m.entryFrame = .ok seed →
    Run.Leads (cfg.problem m g) (Config.begin (cfg.problem m g) seed start) T →
    T.frames.size = g.size ∧ ∀ i ∈ T.pending, i < T.frames.size ∧ i < m.code.size ∧
      ∀ e ∈ g.edges i, e.target < T.frames.size

theorem graph_tablesFit {g : FlowGraph} (h : m.graph = .ok g) : m.TablesFit g := by
  have hsize := graph_size h
  have hentry : FlowGraph.entry < g.digraph.size := graph_size_pos h
  have hedges : ∀ (i : Nat), ∀ e ∈ g.edges i, e.target < g.size := fun _ _ =>
    edge_target_lt_size h
  have hnext : ∀ v, ∀ w ∈ g.digraph.next v, w < g.digraph.size := by
    intro v w hw
    obtain ⟨e, he, rfl⟩ := List.mem_map.1 hw
    exact hedges v e he
  constructor
  · exact hedges
  · intro handler hmem
    have hrange := (graph_enclosed h).handlers handler hmem
    omega
  · intro marks v stack hstate
    obtain ⟨hmarks, hstack⟩ := hstate.inside hentry
    exact ⟨hstack v List.mem_cons_self, fun w hw => hmarks ▸ hnext v w hw⟩
  · intro marks v tasks hstate
    obtain ⟨hmarks, htasks⟩ := hstate.inside hentry hnext
    exact ⟨hmarks ▸ htasks (.enter v) List.mem_cons_self, fun w hw => hmarks ▸ hnext v w hw⟩
  · intro i hi
    rw [FlowGraph.preorder, Digraph.preorder, if_pos hentry] at hi
    obtain ⟨marks, stack, hstate⟩ := Digraph.Searching.start.exists_top hi
    exact (hstate.inside hentry).2 i List.mem_cons_self
  · intro i hi
    obtain ⟨marks, tasks, hstate⟩ := Digraph.Finishing.start.exists_left (List.mem_reverse.1 hi)
    exact (hstate.inside hentry hnext).2 (.leave i) List.mem_cons_self
  · intro σ cfg seed start T hseed hleads
    have hframes := (hleads.frames_size h hseed).trans hsize.symm
    refine ⟨hframes, fun i hi => ?_⟩
    have hlt : i < g.size := ((hleads.confined h).pending i hi).lt_size hentry
    exact ⟨hframes ▸ hlt, hsize ▸ hlt, fun e he => hframes ▸ hedges i e he⟩

/--
A method has a graph exactly when it has code, its handlers cover something and
lie inside the code, all jump targets do, and no instruction that control may get
to falls off the end.  The normal edges of an instruction then lead to its jump
targets in order and to the next instruction if it falls through to one, its other
edges to the handlers that cover it in the order of the table, and no look-up by
position, from the search on the graph to the runs of an analysis, is out of range.
-/
theorem graph_accepts_iff (m : Method) :
    ((∃ g, m.graph = .ok g) ↔ m.Coherent) ∧
    ∀ g, m.graph = .ok g → g.size = m.code.size ∧
      (∀ (i : Nat) (insn : Insn Nat), m.code[i]? = some insn →
        (g.normalEdges i).map Edge.target = insn.targets ++
          (if (insn.flow = .sequential ∨ insn.flow = .conditional) ∧ i + 1 < m.code.size
            then [i + 1] else []) ∧
        g.thrownEdges i =
          (m.handlers.filter fun handler => handler.start ≤ i && i < handler.stop).map
            fun handler => ⟨handler.entry, .thrown handler.catchClass⟩) ∧
      m.TablesFit g := by
  constructor
  · simp only [graph_ok_iff, exists_and_left, exists_eq, and_true]
  · intro g hgraph
    refine ⟨graph_size hgraph, fun i insn hinsn => ?_, graph_tablesFit hgraph⟩
    obtain ⟨hnormal, hthrown⟩ := edgeGraph_edges hinsn
    rw [(graph_ok hgraph).1, hnormal, hthrown]
    exact ⟨normalEdges_target m i insn, rfl⟩

end Method

/-- The last instruction would fall off the end of the code; a handler may lead to it. -/
def hoist (handlers : List (Handler Nat)) : Method where
  owner := "Crane"
  name := "hoist"
  type := ⟨[.base .int], none⟩
  access := .publicStatic
  maxLocals := 1
  maxStack := none
  code := #[.load .int 0, .switch 3 [(1, 2), (2, 0)], .increment 0 1, .ret none, .stack .pop]
  handlers := handlers

theorem hoist_accepted :
    (hoist [⟨2, 3, 3, none⟩]).Coherent ∧
    ¬(hoist [⟨2, 3, 4, none⟩]).Coherent ∧
    ∃ g, (hoist [⟨2, 3, 3, none⟩]).graph = .ok g ∧
      (g.normalEdges 1).map Edge.target = [3, 2, 0] ∧
      (g.normalEdges 4).map Edge.target = [] ∧ g.thrownEdges 2 = [⟨3, .thrown none⟩] ∧
      (hoist [⟨2, 3, 3, none⟩]).TablesFit g := by
  have hgraph : (hoist [⟨2, 3, 3, none⟩]).graph =
      .ok (hoist [⟨2, 3, 3, none⟩]).edgeGraph := by decide +kernel
  have hrefused : (hoist [⟨2, 3, 4, none⟩]).graph = .error (.graph 4 .fallsOff) := by decide +kernel
  obtain ⟨haccepts, hedges⟩ := Method.graph_accepts_iff (hoist [⟨2, 3, 3, none⟩])
  obtain ⟨hrefuses, _⟩ := Method.graph_accepts_iff (hoist [⟨2, 3, 4, none⟩])
  obtain ⟨_, hentries, hfit⟩ := hedges _ hgraph
  refine ⟨haccepts.1 ⟨_, hgraph⟩, fun hcoherent => ?_, _, hgraph, (hentries 1 _ rfl).1,
    (hentries 4 _ rfl).1, (hentries 2 _ rfl).2, hfit⟩
  obtain ⟨g, hg⟩ := hrefuses.2 hcoherent
  rw [hrefused] at hg
  cases hg

end FrameFlow
