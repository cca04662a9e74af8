import FrameFlow.Proofs.Layout
import FrameFlow.Proofs.Search
import Mathlib.Data.Nat.Basic

/-!
# Basic blocks

An instruction that none of the four rules marks is entered in one way only: from the
instruction before it, which does nothing but go on.  So control enters a block at its
start alone, and handlers cover it, and the search from the entry reaches it, as a whole
or not at all.
-/

namespace FrameFlow

namespace Method

variable {m : Method} {g : FlowGraph} {i j : Nat} {b : Block}

/-! ## Inside a block -/

theorem startsBlock_inside (hcode : 0 < m.code.size) (hb : b ∈ m.blocks) (hstart : b.start < i)
    (hstop : i < b.stop) : ¬m.StartsBlock i := by
  intro hstarts
  have htiled := blocks_tiled hcode
  obtain ⟨c, hc, rfl⟩ := (startsBlock_iff_exists hcode).1 hstarts
  have hinside := htiled.bounds.2 c hc
  obtain ⟨k, hk⟩ := List.mem_iff_getElem?.1 hb
  obtain ⟨n, hn⟩ := List.mem_iff_getElem?.1 hc
  have hsame : k = n := htiled.eq_of_mem_positions hk hn
    (Block.mem_positions.2 ⟨Nat.le_of_lt hstart, hstop⟩)
    (Block.mem_positions.2 ⟨Nat.le_refl _, hinside.2.1⟩)
  cases hsame
  cases hk.symm.trans hn
  exact Nat.lt_irrefl _ hstart

/-- What holds at the start of a block and is handed on inside it holds in the whole block. -/
theorem eq_of_mem_positions (hcode : 0 < m.code.size) {α : Type} {f : Nat → α}
    (hstep : ∀ i, i + 1 < m.code.size → ¬m.StartsBlock (i + 1) → f (i + 1) = f i)
    (hb : b ∈ m.blocks) (hi : i ∈ b.positions) : f i = f b.start := by
  have hbound := (blocks_tiled hcode).bounds.2 b hb
  obtain ⟨hstart, hstop⟩ := Block.mem_positions.1 hi
  induction i, hstart using Nat.le_induction with
  | base => rfl
  | succ i hle ih =>
      have hinside := startsBlock_inside hcode hb (by omega) hstop
      rw [hstep i (by omega) hinside]
      exact ih (Block.mem_positions.2 ⟨hle, by omega⟩) (by omega)

end Method

private theorem Insn.of_sequential {insn : Insn Nat} (h : insn.flow = .sequential) :
    insn.jumpEdges = [] ∧ insn.fallsThrough = true ∧ insn.nextEdgeKind = .always := by
  refine ⟨?_, by simp [fallsThrough, h], by simp [nextEdgeKind, h]⟩
  cases insn <;> simp_all [flow, jumpEdges]

namespace Method

variable {m : Method} {g : FlowGraph} {i j : Nat} {b : Block}

/-! ## Edges into a block -/

section

variable (hgraph : m.graph = .ok g)

include hgraph

private theorem startsBlock_of_edge {e : Edge} (he : e ∈ g.edges i) :
    m.StartsBlock e.target ∨ (e ∈ g.normalEdges i ∧ e.target = i + 1) := by
  have hlt := edge_target_lt hgraph he
  obtain ⟨rfl, _⟩ := graph_ok hgraph
  rcases edges_edgeGraph m i with ⟨hnormal, hthrown⟩ | ⟨insn, hinsn, hnormal, hthrown⟩
  · simp [FlowGraph.edges, hnormal, hthrown] at he
  · rcases List.mem_append.1 he with he | he
    · rcases mem_normalEdges.1 (hnormal ▸ he) with hjump | ⟨_, _, rfl⟩
      · exact .inl (startsBlock_iff.2
          ⟨hlt, .inr (.inl ⟨i, insn, hinsn, (Insn.jumpEdge hjump).1⟩)⟩)
      · exact .inr ⟨he, rfl⟩
    · obtain ⟨handler, hmem, rfl⟩ := List.mem_map.1 (hthrown ▸ he)
      have hhandler := (List.mem_filter.1 hmem).1
      exact .inl (startsBlock_iff.2 ⟨hlt, .inr (.inr (.inl ⟨handler, hhandler, .inl rfl⟩))⟩)

section

variable (hlt : i + 1 < m.code.size) (hinside : ¬m.StartsBlock (i + 1))

include hlt hinside

theorem normalEdges_of_inside : g.normalEdges i = [⟨i + 1, .always⟩] := by
  have hinsn : m.code[i]? = some m.code[i] := Array.getElem?_eq_getElem (by omega)
  have hsequential : m.code[i].flow = .sequential := by
    by_contra hflow
    exact hinside (startsBlock_iff.2 ⟨hlt, .inr (.inr (.inr ⟨i, _, rfl, hinsn, hflow⟩))⟩)
  obtain ⟨hjumps, hfalls, hkind⟩ := Insn.of_sequential hsequential
  rw [(graph_ok hgraph).1, (edgeGraph_edges hinsn).1]
  simp [normalEdges, hjumps, hfalls, hkind, hlt]

private theorem thrownEdges_of_inside : g.thrownEdges (i + 1) = g.thrownEdges i := by
  have hinsn : m.code[i]? = some m.code[i] := Array.getElem?_eq_getElem (by omega)
  have hnext : m.code[i + 1]? = some m.code[i + 1] := Array.getElem?_eq_getElem hlt
  rw [(graph_ok hgraph).1, (edgeGraph_edges hinsn).2, (edgeGraph_edges hnext).2]
  unfold thrownEdges
  congr 1
  refine List.filter_congr fun handler hmem => ?_
  have hbound : ¬(handler.start = i + 1 ∨ handler.stop = i + 1) := fun hbound =>
    hinside (startsBlock_iff.2 ⟨hlt, .inr (.inr (.inl ⟨handler, hmem, .inr hbound⟩))⟩)
  rw [Bool.eq_iff_iff, Handler.covers_iff, Handler.covers_iff]
  omega

private theorem reachable_of_inside : g.Reachable (i + 1) ↔ g.Reachable i := by
  constructor
  · intro hreach
    unfold FlowGraph.Reachable at hreach
    cases hreach with
    | @tail u _ hu hmem _ =>
        obtain ⟨e, he, htarget⟩ := List.mem_map.1 hmem
        rcases startsBlock_of_edge hgraph he with hstarts | ⟨_, hnext⟩
        · exact absurd (htarget ▸ hstarts) hinside
        · have hui : u = i := by omega
          exact hui ▸ hu
  · intro hreach
    have hedge : (⟨i + 1, .always⟩ : Edge) ∈ g.edges i := by
      rw [FlowGraph.edges, normalEdges_of_inside hgraph hlt hinside]
      exact List.mem_append_left _ List.mem_cons_self
    exact hreach.edge hedge (graph_size hgraph ▸ hlt)

theorem isReachable_of_inside : g.isReachable (i + 1) = g.isReachable i := by
  have hsize : 0 < g.size := graph_size_pos hgraph
  rw [Bool.eq_iff_iff, FlowGraph.isReachable_iff hsize, FlowGraph.isReachable_iff hsize]
  exact reachable_of_inside hgraph hlt hinside

end

end

/-! ## The partition -/

/--
How the blocks of a method lie in its code, how the edges of its graph lie in the
blocks, and that no two blocks could be one.
-/
structure Partitioned (m : Method) (g : FlowGraph) : Prop where
  nonempty : ∀ b ∈ m.blocks, b.start < b.stop
  numbered : m.blocks.map Block.index = List.range m.blocks.length
  consecutive : List.IsChain (fun b c => b.stop = c.start) m.blocks
  covering : m.blocks.flatMap Block.positions = List.range m.code.size
  located : ∀ (i k : Nat), m.blockIndex? i = some k ↔
    ∃ b, m.blocks[k]? = some b ∧ b.start ≤ i ∧ i < b.stop
  inner : ∀ b ∈ m.blocks, ∀ (i : Nat), b.start ≤ i → i + 1 < b.stop →
    g.normalEdges i = [⟨i + 1, .always⟩]
  entered : ∀ (i : Nat), ∀ e ∈ g.edges i,
    ¬(e ∈ g.normalEdges i ∧ ∃ b ∈ m.blocks, b.start ≤ i ∧ i + 1 < b.stop) →
      ∃ b ∈ m.blocks, b.start = e.target
  uniform : ∀ b ∈ m.blocks, ∀ (i j : Nat), b.start ≤ i → i < b.stop → b.start ≤ j → j < b.stop →
    g.thrownEdges i = g.thrownEdges j ∧ g.isReachable i = g.isReachable j
  maximal : ∀ b ∈ m.blocks, b.start ≠ 0 →
    (∃ (i : Nat) (insn : Insn Nat), m.code[i]? = some insn ∧ b.start ∈ insn.targets) ∨
      (∃ handler ∈ m.handlers, handler.entry = b.start ∨ handler.start = b.start ∨
        handler.stop = b.start) ∨
      ∃ (i : Nat) (insn : Insn Nat), i + 1 = b.start ∧ m.code[i]? = some insn ∧
        insn.flow ≠ .sequential

private theorem exists_block_of_edge (hgraph : m.graph = .ok g) {e : Edge} (he : e ∈ g.edges i)
    (houter : ¬(e ∈ g.normalEdges i ∧ ∃ b ∈ m.blocks, b.start ≤ i ∧ i + 1 < b.stop)) :
    ∃ b ∈ m.blocks, b.start = e.target := by
  have hcode := code_size_pos hgraph
  have hlt := edge_target_lt hgraph he
  rcases startsBlock_of_edge hgraph he with hstarts | ⟨hnormal, htarget⟩
  · exact (startsBlock_iff_exists hcode).1 hstarts
  · rw [htarget] at hlt ⊢
    obtain ⟨b, hb, hnext⟩ := exists_block hcode hlt
    obtain ⟨hstart, hstop⟩ := Block.mem_positions.1 hnext
    refine ⟨b, hb, ?_⟩
    by_contra hne
    exact houter ⟨hnormal, b, hb, by omega, hstop⟩

/--
The blocks of a method that has a graph are numbered in order and cover its code
without gaps and overlaps.  Inside a block control only goes on; every other edge
enters a block at its start.  A block is covered by handlers and reached as a whole,
and starts only where one of the four rules, or the entry, asks for it.
-/
theorem blocks_partitioned (hgraph : m.graph = .ok g) : m.Partitioned g := by
  have hcode := code_size_pos hgraph
  have htiled := blocks_tiled hcode
  constructor
  · exact fun b hb => (htiled.bounds.2 b hb).2.1
  · rw [htiled.map_index, List.range_eq_range']
  · exact htiled.isChain
  · rw [htiled.flatMap_positions, List.range_eq_range', Nat.sub_zero]
  · intro i k
    simp only [blockIndex?_eq_some_iff hcode, Block.mem_positions]
  · intro b hb i hstart hstop
    have hbound := htiled.bounds.2 b hb
    exact normalEdges_of_inside hgraph (by omega) (startsBlock_inside hcode hb (by omega) hstop)
  · exact fun i e he houter => exists_block_of_edge hgraph he houter
  · intro b hb i j hi hi' hj hj'
    have hi := Block.mem_positions.2 ⟨hi, hi'⟩
    have hj := Block.mem_positions.2 ⟨hj, hj'⟩
    have hthrown : ∀ k ∈ b.positions, g.thrownEdges k = g.thrownEdges b.start := fun k hk =>
      eq_of_mem_positions hcode (fun _ => thrownEdges_of_inside hgraph) hb hk
    have hreach : ∀ k ∈ b.positions, g.isReachable k = g.isReachable b.start := fun k hk =>
      eq_of_mem_positions hcode (fun _ => isReachable_of_inside hgraph) hb hk
    exact ⟨(hthrown i hi).trans (hthrown j hj).symm, (hreach i hi).trans (hreach j hj).symm⟩
  · intro b hb hzero
    have hstarts := (startsBlock_iff_exists hcode).2 ⟨b, hb, rfl⟩
    exact (startsBlock_iff.1 hstarts).2.resolve_left hzero

end Method

/-- Each rule starts a block here, and the last block cannot be reached. -/
def sift : Method where
  owner := "Sieve"
  name := "sift"
  type := ⟨[.base .int], none⟩
  access := .publicStatic
  maxLocals := 1
  maxStack := none
  code := #[.load .int 0, .branch .eq 5, .increment 0 (-1), .nop, .jump 0, .ret none,
    .stack .pop, .jump 5, .nop, .jump 8]
  handlers := [⟨2, 4, 6, none⟩]

theorem sift_partitioned :
    ∃ g, sift.graph = .ok g ∧ sift.Partitioned g ∧
      sift.blocks = [⟨0, 0, 2⟩, ⟨1, 2, 4⟩, ⟨2, 4, 5⟩, ⟨3, 5, 6⟩, ⟨4, 6, 8⟩, ⟨5, 8, 10⟩] ∧
      g.normalEdges 2 = [⟨3, .always⟩] ∧ g.thrownEdges 3 = g.thrownEdges 2 ∧
      g.isReachable 9 = g.isReachable 8 ∧ sift.blockIndex? 7 = some 4 := by
  have hgraph : sift.graph = .ok sift.edgeGraph := by decide +kernel
  have hblocks : sift.blocks =
      [⟨0, 0, 2⟩, ⟨1, 2, 4⟩, ⟨2, 4, 5⟩, ⟨3, 5, 6⟩, ⟨4, 6, 8⟩, ⟨5, 8, 10⟩] := by decide +kernel
  have hpartitioned := Method.blocks_partitioned hgraph
  have hsecond : (⟨1, 2, 4⟩ : Block) ∈ sift.blocks := by simp [hblocks]
  have hlast : (⟨5, 8, 10⟩ : Block) ∈ sift.blocks := by simp [hblocks]
  refine ⟨_, hgraph, hpartitioned, hblocks, ?_, ?_, ?_, ?_⟩
  · exact hpartitioned.inner _ hsecond 2 (by decide) (by decide)
  · exact (hpartitioned.uniform _ hsecond 3 2 (by decide) (by decide) (by decide) (by decide)).1
  · exact (hpartitioned.uniform _ hlast 9 8 (by decide) (by decide) (by decide) (by decide)).2
  · exact (hpartitioned.located 7 4).2 ⟨⟨4, 6, 8⟩, by simp [hblocks], by decide, by decide⟩

end FrameFlow
