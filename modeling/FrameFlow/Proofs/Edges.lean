import FrameFlow.Graph.Flow

/-!
# The edges of a graph

A method with a graph has at least one instruction, and every edge of its graph
leads to one: jump targets and handlers have been looked at before the graph was
built, and the edge to the next instruction is left out at the end of the code.
The kind of an edge tells whether it is normal or leads to a handler.
-/

namespace FrameFlow

theorem Insn.jumpEdges_target (insn : Insn Nat) :
    insn.jumpEdges.map Edge.target = insn.targets := by
  cases insn with
  | switch fallback cases => simp [jumpEdges, targets, Function.comp_def]
  | _ => rfl

theorem Insn.jumpEdge {insn : Insn Nat} {e : Edge} (h : e ∈ insn.jumpEdges) :
    e.target ∈ insn.targets ∧ e.kind.isThrown = false := by
  refine ⟨insn.jumpEdges_target ▸ List.mem_map_of_mem h, ?_⟩
  cases insn with
  | branch c t | branchCompare k c t | jump t =>
      cases List.mem_singleton.1 h
      rfl
  | switch fallback cases =>
      simp only [jumpEdges, List.mem_cons, List.mem_map] at h
      rcases h with rfl | ⟨_, _, rfl⟩ <;> rfl
  | _ => simp [jumpEdges] at h

theorem Insn.fallsThrough_iff {insn : Insn Nat} :
    insn.fallsThrough = true ↔ insn.flow = .sequential ∨ insn.flow = .conditional := by
  unfold fallsThrough
  cases insn.flow <;> simp

theorem Handler.covers_iff {handler : Handler Nat} {i : Nat} :
    handler.covers i = true ↔ handler.start ≤ i ∧ i < handler.stop := by
  simp [covers]

private theorem Insn.targetFault?_eq_none_iff {length position : Nat} {insn : Insn Nat} :
    insn.targetFault? length position = none ↔ ∀ t ∈ insn.targets, t < length := by
  simp [targetFault?]

private theorem Handler.fault?_eq_none_iff {length : Nat} {handler : Handler Nat} :
    handler.fault? length = none ↔
      handler.start < handler.stop ∧ handler.stop ≤ length ∧ handler.entry < length := by
  unfold fault?
  split
  · rename_i hempty
    simp only [reduceCtorEq, false_iff, not_and]
    omega
  · split
    · rename_i houtside
      simp only [Bool.or_eq_true, decide_eq_true_eq] at houtside
      simp only [reduceCtorEq, false_iff, not_and]
      omega
    · rename_i hempty hinside
      simp only [Bool.or_eq_true, decide_eq_true_eq] at hinside
      simp only [true_iff]
      omega

namespace Method

theorem graph_ok {m : Method} {g : FlowGraph} (h : m.graph = .ok g) :
    g = m.edgeGraph ∧ m.structureFault? = none := by
  unfold graph at h
  split at h
  · cases h
  · rename_i hfault
    split at h
    · cases h
    · cases h
      exact ⟨rfl, hfault⟩

theorem graph_fallOff? {m : Method} {g : FlowGraph} (h : m.graph = .ok g) :
    m.fallOff? = none := by
  unfold graph at h
  split at h
  · cases h
  · split at h
    · cases h
    · assumption

theorem graph_error {m : Method} {e : Error} (h : m.graph = .error e) :
    ∃ position fault, e = .graph position fault := by
  unfold graph at h
  split at h
  · cases h
    exact ⟨_, _, rfl⟩
  · split at h
    · cases h
      exact ⟨_, _, rfl⟩
    · cases h

/-- All that can be seen of the structure of code without following edges. -/
structure Enclosed (m : Method) : Prop where
  code : 0 < m.code.size
  handlers : ∀ handler ∈ m.handlers,
    handler.start < handler.stop ∧ handler.stop ≤ m.code.size ∧ handler.entry < m.code.size
  targets : ∀ (i : Nat) (insn : Insn Nat), m.code[i]? = some insn →
    ∀ t ∈ insn.targets, t < m.code.size

private theorem mem_zipIdx_code {m : Method} {i : Nat} {insn : Insn Nat} :
    (insn, i) ∈ m.code.toList.zipIdx ↔ m.code[i]? = some insn := by
  rw [List.mk_mem_zipIdx_iff_getElem?, Array.getElem?_toList]

theorem structureFault?_eq_none_iff {m : Method} : m.structureFault? = none ↔ m.Enclosed := by
  unfold structureFault?
  split
  · rename_i hsize
    exact ⟨nofun, fun h => absurd hsize (Nat.ne_of_gt h.code)⟩
  · rename_i hsize
    split
    · rename_i fault hfault
      refine ⟨nofun, fun h => ?_⟩
      obtain ⟨handler, hmem, hsome⟩ := List.exists_of_findSome?_eq_some hfault
      rw [Handler.fault?_eq_none_iff.2 (h.handlers handler hmem)] at hsome
      cases hsome
    · rename_i hhandlers
      rw [List.findSome?_eq_none_iff]
      constructor
      · intro htargets
        refine ⟨Nat.pos_of_ne_zero hsize, fun handler hmem => ?_, fun i insn hinsn => ?_⟩
        · exact Handler.fault?_eq_none_iff.1 (List.findSome?_eq_none_iff.1 hhandlers handler hmem)
        · exact Insn.targetFault?_eq_none_iff.1 (htargets (insn, i) (mem_zipIdx_code.2 hinsn))
      · intro h x hx
        exact Insn.targetFault?_eq_none_iff.2 (h.targets x.2 x.1 (mem_zipIdx_code.1 hx))

theorem fallOff?_eq_none_iff {m : Method} :
    m.fallOff? = none ↔ ∀ (i : Nat) (insn : Insn Nat), m.code[i]? = some insn →
      insn.fallsThrough = true → m.edgeGraph.isReachable i = true → i + 1 < m.code.size := by
  simp only [fallOff?, Option.map_eq_none_iff, List.find?_eq_none, fallsOff, Bool.and_eq_true,
    decide_eq_true_eq, FlowGraph.isReachable]
  constructor
  · intro h i insn hinsn hfalls hfound
    have hnot := h (insn, i) (mem_zipIdx_code.2 hinsn)
    simp only [hfalls, hfound, true_and, and_true] at hnot
    omega
  · rintro h ⟨insn, i⟩ hmem ⟨⟨hfalls, hend⟩, hfound⟩
    have hlt := h i insn (mem_zipIdx_code.1 hmem) hfalls hfound
    simp only at hend
    omega

theorem graph_enclosed {m : Method} {g : FlowGraph} (h : m.graph = .ok g) : m.Enclosed :=
  structureFault?_eq_none_iff.1 (graph_ok h).2

theorem code_size_pos {m : Method} {g : FlowGraph} (h : m.graph = .ok g) : 0 < m.code.size :=
  (graph_enclosed h).code

theorem graph_size {m : Method} {g : FlowGraph} (h : m.graph = .ok g) :
    g.size = m.code.size := by
  obtain ⟨rfl, _⟩ := graph_ok h
  simp [FlowGraph.size, edgeGraph]

theorem graph_size_pos {m : Method} {g : FlowGraph} (h : m.graph = .ok g) : 0 < g.size :=
  Nat.lt_of_lt_of_eq (code_size_pos h) (graph_size h).symm

theorem edgeGraph_edges {m : Method} {i : Nat} {insn : Insn Nat} (hinsn : m.code[i]? = some insn) :
    m.edgeGraph.normalEdges i = m.normalEdges i insn ∧
      m.edgeGraph.thrownEdges i = m.thrownEdges i := by
  simp [FlowGraph.normalEdges, FlowGraph.thrownEdges, edgeGraph, hinsn]

theorem edges_edgeGraph (m : Method) (i : Nat) :
    (m.edgeGraph.normalEdges i = [] ∧ m.edgeGraph.thrownEdges i = []) ∨
      ∃ insn, m.code[i]? = some insn ∧ m.edgeGraph.normalEdges i = m.normalEdges i insn ∧
        m.edgeGraph.thrownEdges i = m.thrownEdges i := by
  simp only [FlowGraph.normalEdges, FlowGraph.thrownEdges, edgeGraph, Array.getElem?_mapIdx]
  cases m.code[i]? with
  | none => exact .inl ⟨rfl, rfl⟩
  | some insn => exact .inr ⟨insn, rfl, rfl, rfl⟩

theorem mem_normalEdges {m : Method} {i : Nat} {insn : Insn Nat} {e : Edge} :
    e ∈ m.normalEdges i insn ↔ e ∈ insn.jumpEdges ∨
      (insn.fallsThrough = true ∧ i + 1 < m.code.size ∧ e = ⟨i + 1, insn.nextEdgeKind⟩) := by
  unfold normalEdges
  by_cases hnext : insn.fallsThrough && decide (i + 1 < m.code.size)
  · rw [if_pos hnext]
    simp only [Bool.and_eq_true, decide_eq_true_eq] at hnext
    simp [hnext]
  · rw [if_neg hnext]
    simp only [Bool.and_eq_true, decide_eq_true_eq, not_and] at hnext
    constructor
    · exact .inl
    · rintro (h | ⟨hfalls, hlt, _⟩)
      · exact h
      · exact absurd hlt (hnext hfalls)

theorem edge_target_lt {m : Method} {g : FlowGraph} (h : m.graph = .ok g) {i : Nat} {e : Edge}
    (he : e ∈ g.edges i) : e.target < m.code.size := by
  have hinside := graph_enclosed h
  obtain ⟨rfl, _⟩ := graph_ok h
  rcases edges_edgeGraph m i with ⟨hnormal, hthrown⟩ | ⟨insn, hinsn, hnormal, hthrown⟩
  · simp [FlowGraph.edges, hnormal, hthrown] at he
  · rw [FlowGraph.edges, hnormal, hthrown, List.mem_append] at he
    rcases he with he | he
    · rcases mem_normalEdges.1 he with hjump | ⟨_, hlt, rfl⟩
      · exact hinside.targets i insn hinsn _ (Insn.jumpEdge hjump).1
      · exact hlt
    · obtain ⟨handler, hmem, rfl⟩ := List.mem_map.1 he
      exact (hinside.handlers handler (List.mem_filter.1 hmem).1).2.2

theorem edge_target_lt_size {m : Method} {g : FlowGraph} (h : m.graph = .ok g) {i : Nat}
    {e : Edge} (he : e ∈ g.edges i) : e.target < g.size :=
  Nat.lt_of_lt_of_eq (edge_target_lt h he) (graph_size h).symm

theorem edge_cases {m : Method} {g : FlowGraph} (h : m.graph = .ok g) {i : Nat} {e : Edge}
    (he : e ∈ g.edges i) :
    ∃ insn, m.code[i]? = some insn ∧
      ((e ∈ g.normalEdges i ∧ e.kind.isThrown = false) ∨
        ∃ catchClass, e ∈ g.thrownEdges i ∧ e.kind = .thrown catchClass) := by
  obtain ⟨rfl, _⟩ := graph_ok h
  rcases edges_edgeGraph m i with ⟨hnormal, hthrown⟩ | ⟨insn, hinsn, hnormal, hthrown⟩
  · simp [FlowGraph.edges, hnormal, hthrown] at he
  · refine ⟨insn, hinsn, ?_⟩
    rw [FlowGraph.edges, List.mem_append] at he
    rcases he with he | he
    · refine .inl ⟨he, ?_⟩
      rw [hnormal] at he
      rcases mem_normalEdges.1 he with hjump | ⟨_, _, rfl⟩
      · exact (Insn.jumpEdge hjump).2
      · simp only [Insn.nextEdgeKind]
        split <;> rfl
    · rw [hthrown] at he
      obtain ⟨handler, hmem, rfl⟩ := List.mem_map.1 he
      refine .inr ⟨handler.catchClass, ?_, rfl⟩
      rw [hthrown]
      exact he

end Method

end FrameFlow
