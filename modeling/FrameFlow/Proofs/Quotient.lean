import FrameFlow.Proofs.ListingText
import FrameFlow.Proofs.Partition
import Mathlib.Data.List.Permutation
import Mathlib.Data.List.Sort

/-!
# The graph of blocks

The listing looks at the normal edges of the last instruction of a block alone, and
asks only of its first one whether it can be reached.  That is enough: before its end a
block can only go on, and it is reached as a whole or not at all.  So the listing shows
the graph of the instructions with each block taken as one node.
-/

namespace FrameFlow

/-! ## Sorted lists without repetitions -/

private theorem eraseReps_loop (a : Nat) (as acc : List Nat) :
    List.eraseRepsBy.loop (· == ·) a as acc = acc.reverse ++ (a :: as).eraseReps := by
  induction as generalizing a acc with
  | nil => simp [List.eraseReps, List.eraseRepsBy, List.eraseRepsBy.loop]
  | cons b as ih =>
      simp only [List.eraseReps, List.eraseRepsBy, List.eraseRepsBy.loop]
      split
      · exact ih a acc
      · rw [ih b (a :: acc), ih b [a]]
        simp

private theorem eraseReps_cons_cons (a b : Nat) (as : List Nat) :
    (a :: b :: as).eraseReps = if a = b then (a :: as).eraseReps else a :: (b :: as).eraseReps := by
  by_cases hab : a = b
  · subst hab
    simp [List.eraseReps, List.eraseRepsBy, List.eraseRepsBy.loop]
  · have hne : (a == b) = false := by simpa using hab
    rw [if_neg hab]
    simp only [List.eraseReps, List.eraseRepsBy, List.eraseRepsBy.loop, hne]
    exact eraseReps_loop b as [a]

private theorem mem_eraseReps {x : Nat} {as : List Nat} : x ∈ as.eraseReps ↔ x ∈ as := by
  cases as with
  | nil => rfl
  | cons a as =>
      induction as generalizing a with
      | nil => rfl
      | cons b as ih =>
          rw [eraseReps_cons_cons]
          split
          · rename_i hab
            simp [ih, hab]
          · simp [ih]

private theorem pairwise_eraseReps {as : List Nat} (h : as.Pairwise (· ≤ ·)) :
    as.eraseReps.Pairwise (· < ·) := by
  cases as with
  | nil => exact .nil
  | cons a as =>
      induction as generalizing a with
      | nil => exact List.pairwise_singleton _ _
      | cons b as ih =>
          obtain ⟨hfirst, htail⟩ := List.pairwise_cons.1 h
          rw [eraseReps_cons_cons]
          split
          · rename_i hab
            exact ih a (hab ▸ htail)
          · rename_i hab
            refine List.pairwise_cons.2 ⟨fun x hx => ?_, ih b htail⟩
            have hb := hfirst b List.mem_cons_self
            rcases List.mem_cons.1 (mem_eraseReps.1 hx) with rfl | hmem
            · omega
            · have hx := (List.pairwise_cons.1 htail).1 x hmem
              omega

namespace Block

variable {numbers : Array Nat} {g : FlowGraph} {b : Block} {k : Nat}

private theorem mem_successors :
    k ∈ b.successors numbers g ↔ ∃ e ∈ b.edges g, numbers[e.target]? = some k := by
  rw [successors, mem_eraseReps, List.mem_mergeSort, List.mem_filterMap]

private theorem successors_pairwise (numbers : Array Nat) (g : FlowGraph) (b : Block) :
    (b.successors numbers g).Pairwise (· < ·) :=
  pairwise_eraseReps (List.pairwise_mergeSort' (· ≤ ·) _)

private theorem last_mem_positions (h : b.start < b.stop) : b.last ∈ b.positions := by
  rw [mem_positions, last]
  omega

private theorem mem_edges {e : Edge} :
    e ∈ b.edges g ↔ e ∈ g.normalEdges b.last ∨ ∃ i ∈ b.positions, e ∈ g.thrownEdges i := by
  simp [edges]

end Block

namespace Method

variable {m : Method} {g : FlowGraph} {b : Block}

/-! ## Edges between blocks -/

def GoesOn (m : Method) (b : Block) (i : Nat) (e : Edge) : Prop :=
  i + 1 ∈ b.positions ∧ ∃ insn, m.code[i]? = some insn ∧ insn.fallsThrough = true ∧
    e = ⟨i + 1, insn.nextEdgeKind⟩

/-- Some other edge leads from an instruction of the first block to one of the second. -/
def Links (m : Method) (g : FlowGraph) (b c : Block) : Prop :=
  ∃ i ∈ b.positions, ∃ e ∈ g.edges i, ¬m.GoesOn b i e ∧ e.target ∈ c.positions

private theorem GoesOn.not_isThrown {i : Nat} {e : Edge} (h : m.GoesOn b i e) :
    e.kind.isThrown = false := by
  obtain ⟨_, insn, _, _, rfl⟩ := h
  simp only [Insn.nextEdgeKind]
  split <;> rfl

private theorem isThrown_of_mem (hgraph : m.graph = .ok g) {i : Nat} {e : Edge}
    (he : e ∈ g.thrownEdges i) : e.kind.isThrown = true := by
  obtain ⟨rfl, _⟩ := graph_ok hgraph
  rcases edges_edgeGraph m i with ⟨_, hthrown⟩ | ⟨_, _, _, hthrown⟩
  · simp [hthrown] at he
  · rw [hthrown] at he
    obtain ⟨_, _, rfl⟩ := List.mem_map.1 he
    rfl

private theorem goesOn_of_inside (hgraph : m.graph = .ok g) (hb : b ∈ m.blocks) {i : Nat} {e : Edge}
    (hstart : b.start ≤ i) (hstop : i + 1 < b.stop) (he : e ∈ g.normalEdges i) :
    m.GoesOn b i e := by
  have hcode := code_size_pos hgraph
  have hbound := (blocks_tiled hcode).bounds.2 b hb
  have hinside := startsBlock_inside hcode hb (by omega) hstop
  obtain ⟨insn, hinsn⟩ : ∃ insn, m.code[i]? = some insn :=
    ⟨_, Array.getElem?_eq_getElem (by omega)⟩
  have hedge := he
  rw [(graph_ok hgraph).1, (edgeGraph_edges hinsn).1, mem_normalEdges] at hedge
  rcases hedge with hjump | ⟨hfalls, _, rfl⟩
  · -- A jump would start a block at its target, which is the next instruction.
    rw [normalEdges_of_inside hgraph (by omega) hinside, List.mem_singleton] at he
    have htarget := (Insn.jumpEdge hjump).1
    rw [he] at htarget
    have hnext : i + 1 < m.code.size := by omega
    exact absurd (startsBlock_iff.2 ⟨hnext, .inr (.inl ⟨i, insn, hinsn, htarget⟩)⟩) hinside
  · exact ⟨Block.mem_positions.2 ⟨by omega, hstop⟩, insn, hinsn, hfalls, rfl⟩

/-- The edges looked at for a block are those along which it does not just go on. -/
theorem mem_edges_iff (hgraph : m.graph = .ok g) (hb : b ∈ m.blocks) {e : Edge} :
    e ∈ b.edges g ↔ ∃ i ∈ b.positions, e ∈ g.edges i ∧ ¬m.GoesOn b i e := by
  have hbound := (blocks_tiled (code_size_pos hgraph)).bounds.2 b hb
  rw [Block.mem_edges]
  constructor
  · rintro (hnormal | ⟨i, hi, hthrown⟩)
    · refine ⟨b.last, Block.last_mem_positions hbound.2.1, List.mem_append_left _ hnormal, ?_⟩
      rintro ⟨hnext, _⟩
      have hstop := (Block.mem_positions.1 hnext).2
      rw [Block.last] at hstop
      omega
    · refine ⟨i, hi, List.mem_append_right _ hthrown, fun hgoes => ?_⟩
      have hnot := hgoes.not_isThrown
      rw [isThrown_of_mem hgraph hthrown] at hnot
      cases hnot
  · rintro ⟨i, hi, he, hgoes⟩
    obtain ⟨hstart, hstop⟩ := Block.mem_positions.1 hi
    rcases List.mem_append.1 he with hnormal | hthrown
    · by_cases hlast : i + 1 < b.stop
      · exact absurd (goesOn_of_inside hgraph hb hstart hlast hnormal) hgoes
      · have hi : i = b.last := by
          rw [Block.last]
          omega
        exact .inl (hi ▸ hnormal)
    · exact .inr ⟨i, hi, hthrown⟩

private theorem mem_successors_iff (hgraph : m.graph = .ok g) (hb : b ∈ m.blocks) {k : Nat} :
    k ∈ b.successors m.layout.numbers g ↔ ∃ c, m.blocks[k]? = some c ∧ m.Links g b c := by
  have hcode := code_size_pos hgraph
  have hnumber (i : Nat) : m.layout.numbers[i]? = some k ↔
      ∃ c, m.blocks[k]? = some c ∧ i ∈ c.positions := blockIndex?_eq_some_iff hcode
  simp only [Block.mem_successors, hnumber, mem_edges_iff hgraph hb, Links]
  constructor
  · rintro ⟨e, ⟨i, hi, he, hgoes⟩, c, hc, htarget⟩
    exact ⟨c, hc, i, hi, e, he, hgoes, htarget⟩
  · rintro ⟨c, hc, i, hi, e, he, hgoes, htarget⟩
    exact ⟨e, ⟨i, hi, he, hgoes⟩, c, hc, htarget⟩

/-! ## The listing -/

structure Describes (m : Method) (g : FlowGraph) (b : Block) (entry : BlockEntry) : Prop where
  block : entry.block = b
  exit : m.code[b.last]?.map Insn.flow = some entry.exit
  ascending : entry.successors.Pairwise (· < ·)
  successors : ∀ (k : Nat), k ∈ entry.successors ↔ ∃ c, m.blocks[k]? = some c ∧ m.Links g b c
  unreachable : entry.reachable = false ↔ ∀ i ∈ b.positions, ¬g.Reachable i

private theorem describes_rightUnique : Relator.RightUnique (m.Describes g) := by
  rintro b ⟨block, exit, reachable, successors⟩ ⟨block', exit', reachable', successors'⟩ h h'
  have hblock : block = block' := h.block.trans h'.block.symm
  have hexit : exit = exit' := Option.some_inj.1 (h.exit.symm.trans h'.exit)
  have hreachable : reachable = reachable' :=
    Bool.not_inj (Bool.coe_false_iff_false.1 (h.unreachable.trans h'.unreachable.symm))
  have hsuccessors : successors = successors' :=
    h.ascending.eq_of_mem_iff h'.ascending fun k => (h.successors k).trans (h'.successors k).symm
  rw [hblock, hexit, hreachable, hsuccessors]

private theorem unreachable_block_iff (hgraph : m.graph = .ok g) (hb : b ∈ m.blocks) :
    g.isReachable b.start = false ↔ ∀ i ∈ b.positions, ¬g.Reachable i := by
  have hcode := code_size_pos hgraph
  have hbound := (blocks_tiled hcode).bounds.2 b hb
  have hsize := graph_size_pos hgraph
  constructor
  · intro hstart i hi hreach
    rw [← FlowGraph.isReachable_iff hsize, eq_of_mem_positions hcode
      (fun _ => isReachable_of_inside hgraph) hb hi, hstart] at hreach
    cases hreach
  · intro h
    rw [← Bool.not_eq_true, FlowGraph.isReachable_iff hsize]
    exact h b.start (Block.mem_positions.2 ⟨Nat.le_refl _, hbound.2.1⟩)

private theorem blockEntries_describe (hgraph : m.graph = .ok g) :
    List.Forall₂ (m.Describes g) m.blocks (m.blockEntries g) := by
  rw [blockEntries, List.forall₂_map_right_iff, blocks, List.forall₂_same]
  intro b hb
  have hbound := (blocks_tiled (code_size_pos hgraph)).bounds.2 b hb
  have hlast : b.last < m.code.size := by
    rw [Block.last]
    omega
  constructor
  · rfl
  · simp [blockExit, hlast]
  · exact b.successors_pairwise m.layout.numbers g
  · exact fun k => mem_successors_iff hgraph hb
  · exact unreachable_block_iff hgraph hb

/--
The listing of a method with a graph is the graph of its blocks.  It can be read in
one way only: one line for each block, in order, with the numbers of those blocks, in
increasing order, to which some edge leads from an instruction of the block, other than
those along which the block just goes on, and with a mark if none of its instructions
can be reached.
-/
theorem blockListing_quotient (hgraph : m.graph = .ok g) (entries : List BlockEntry) :
    String.join (entries.map BlockEntry.text) = m.blockListing g ↔
      List.Forall₂ (m.Describes g) m.blocks entries := by
  have hdescribe := blockEntries_describe hgraph
  constructor
  · intro htext
    rw [BlockEntry.join_text_inj htext]
    exact hdescribe
  · intro h
    rw [describes_rightUnique.forall₂ h hdescribe, blockListing]

end Method

theorem sift_listing :
    ∃ g entries, sift.graph = .ok g ∧
      entries =
        [⟨⟨0, 0, 2⟩, .conditional, true, [1, 3]⟩, ⟨⟨1, 2, 4⟩, .sequential, true, [2, 4]⟩,
          ⟨⟨2, 4, 5⟩, .unconditional, true, [0]⟩, ⟨⟨3, 5, 6⟩, .ret, true, []⟩,
          ⟨⟨4, 6, 8⟩, .unconditional, true, [3]⟩, ⟨⟨5, 8, 10⟩, .unconditional, false, [5]⟩] ∧
      sift.blockListing g = String.join (entries.map BlockEntry.text) ∧
      List.Forall₂ (sift.Describes g) sift.blocks entries := by
  have hgraph : sift.graph = .ok sift.edgeGraph := rfl
  have hentries : sift.blockEntries sift.edgeGraph =
      [⟨⟨0, 0, 2⟩, .conditional, true, [1, 3]⟩, ⟨⟨1, 2, 4⟩, .sequential, true, [2, 4]⟩,
        ⟨⟨2, 4, 5⟩, .unconditional, true, [0]⟩, ⟨⟨3, 5, 6⟩, .ret, true, []⟩,
        ⟨⟨4, 6, 8⟩, .unconditional, true, [3]⟩, ⟨⟨5, 8, 10⟩, .unconditional, false, [5]⟩] := by cbv
  refine ⟨_, _, hgraph, hentries, rfl, ?_⟩
  exact (Method.blockListing_quotient hgraph _).1 rfl

end FrameFlow
