import FrameFlow.Graph.Blocks
import FrameFlow.Proofs.Edges
import Mathlib.Data.List.Induction
import Mathlib.Tactic.Tauto

/-!
# Laying out blocks

Two passes mark where blocks start: at the entry, and where the four rules say.  The
pass over the marks then keeps one block open, which reaches to the end of the code
until the next mark closes it.  Once all instructions have been passed, the blocks
follow one another through the whole code, each of them starts at a mark, and every
instruction has the number of the block around it.
-/

namespace FrameFlow

/-! ## Marking -/

namespace Leaders

variable {leaders : Leaders} {i : Nat}

private theorem mark_size (leaders : Leaders) (position : Nat) :
    (leaders.mark position).size = leaders.size := by
  simp [mark]

private theorem mark_iff {position : Nat} :
    (leaders.mark position)[i]? = some true ↔
      leaders[i]? = some true ∨ i < leaders.size ∧ i = position := by
  simp only [mark, Array.getElem?_setIfInBounds]
  by_cases hi : position = i
  · subst hi
    by_cases hlt : position < leaders.size <;> simp [hlt]
  · simp [hi, Ne.symm hi]

private theorem markAll_size (leaders : Leaders) (positions : List Nat) :
    (leaders.markAll positions).size = leaders.size := by
  induction positions generalizing leaders with
  | nil => rfl
  | cons position positions ih => exact (ih _).trans (mark_size leaders position)

private theorem markAll_iff {positions : List Nat} :
    (leaders.markAll positions)[i]? = some true ↔
      leaders[i]? = some true ∨ i < leaders.size ∧ i ∈ positions := by
  induction positions generalizing leaders with
  | nil => simp [markAll]
  | cons position positions ih =>
      have hnext : leaders.markAll (position :: positions) =
          (leaders.mark position).markAll positions := rfl
      rw [hnext, ih, mark_iff, mark_size, List.mem_cons]
      tauto

section Pass

variable {α : Type} (f : α → List Nat)

private theorem foldl_markAll_size (l : List α) (leaders : Leaders) :
    (l.foldl (fun leaders a => leaders.markAll (f a)) leaders).size = leaders.size := by
  induction l generalizing leaders with
  | nil => rfl
  | cons a l ih => exact (ih _).trans (markAll_size leaders (f a))

private theorem foldl_markAll_iff (l : List α) :
    (l.foldl (fun leaders a => leaders.markAll (f a)) leaders)[i]? = some true ↔
      leaders[i]? = some true ∨ i < leaders.size ∧ ∃ a ∈ l, i ∈ f a := by
  induction l generalizing leaders with
  | nil => simp
  | cons a l ih =>
      rw [List.foldl_cons, ih, markAll_iff, markAll_size]
      simp only [List.mem_cons, or_and_right, exists_or, exists_eq_left]
      tauto

end Pass

end Leaders

private theorem Insn.mem_leaders {insn : Insn Nat} {i j : Nat} :
    i ∈ insn.leaders j ↔ i ∈ insn.targets ∨ j + 1 = i ∧ insn.flow ≠ .sequential := by
  by_cases hflow : insn.flow = .sequential
  · simp [leaders, endsBlock, hflow]
  · simp [leaders, endsBlock, hflow, eq_comm (a := i)]

private theorem Handler.mem_leaders {handler : Handler Nat} {i : Nat} :
    i ∈ handler.leaders ↔ handler.entry = i ∨ handler.start = i ∨ handler.stop = i := by
  simp [leaders, eq_comm (a := i)]

namespace Method

variable {m : Method} {i : Nat}

def StartsBlock (m : Method) (i : Nat) : Prop :=
  m.leaders[i]? = some true

theorem leaders_size (m : Method) : m.leaders.size = m.code.size := by
  simp only [leaders]
  rw [Leaders.foldl_markAll_size Handler.leaders,
    Leaders.foldl_markAll_size fun x : Insn Nat × Nat => x.1.leaders x.2, Leaders.mark_size,
    Array.size_replicate]

/-- The four rules that start a block, and the entry. -/
theorem startsBlock_iff : m.StartsBlock i ↔ i < m.code.size ∧
    (i = 0 ∨ (∃ (j : Nat) (insn : Insn Nat), m.code[j]? = some insn ∧ i ∈ insn.targets) ∨
      (∃ handler ∈ m.handlers, handler.entry = i ∨ handler.start = i ∨ handler.stop = i) ∨
      ∃ (j : Nat) (insn : Insn Nat), j + 1 = i ∧ m.code[j]? = some insn ∧
        insn.flow ≠ .sequential) := by
  have hcode : (∃ x ∈ m.code.toList.zipIdx, i ∈ x.1.leaders x.2) ↔
      (∃ (j : Nat) (insn : Insn Nat), m.code[j]? = some insn ∧ i ∈ insn.targets) ∨
        ∃ (j : Nat) (insn : Insn Nat), j + 1 = i ∧ m.code[j]? = some insn ∧
          insn.flow ≠ .sequential := by
    simp only [Prod.exists, List.mk_mem_zipIdx_iff_getElem?, Array.getElem?_toList,
      Insn.mem_leaders]
    constructor
    · rintro ⟨insn, j, hinsn, htarget | ⟨hnext, hflow⟩⟩
      · exact .inl ⟨j, insn, hinsn, htarget⟩
      · exact .inr ⟨j, insn, hnext, hinsn, hflow⟩
    · rintro (⟨j, insn, hinsn, htarget⟩ | ⟨j, insn, hnext, hinsn, hflow⟩)
      · exact ⟨insn, j, hinsn, .inl htarget⟩
      · exact ⟨insn, j, hinsn, .inr ⟨hnext, hflow⟩⟩
  simp only [StartsBlock, leaders]
  rw [Leaders.foldl_markAll_iff Handler.leaders,
    Leaders.foldl_markAll_iff fun x : Insn Nat × Nat => x.1.leaders x.2, hcode, Leaders.mark_iff,
    Leaders.foldl_markAll_size fun x : Insn Nat × Nat => x.1.leaders x.2, Leaders.mark_size,
    Array.size_replicate]
  simp only [Array.getElem?_replicate, Handler.mem_leaders]
  by_cases hi : i < m.code.size
  · simp only [hi, if_true, Option.some.injEq, Bool.false_eq_true, true_and, false_or]
    rw [or_assoc, or_assoc]
    exact or_congr_right (or_congr_right or_comm)
  · simp [hi]

end Method

/-! ## Consecutive blocks -/

/-- Blocks from `start` to `stop`, one after another, none empty, numbered from `index` on. -/
def Tiled (index start stop : Nat) : List Block → Prop
  | [] => start = stop
  | b :: bs =>
      b.index = index ∧ b.start = start ∧ b.start < b.stop ∧ Tiled (index + 1) b.stop stop bs

theorem Block.mem_positions {b : Block} {i : Nat} :
    i ∈ b.positions ↔ b.start ≤ i ∧ i < b.stop := by
  simp only [positions, size, List.mem_range'_1]
  omega

namespace Tiled

variable {index start stop : Nat} {bs : List Block}

theorem bounds (h : Tiled index start stop bs) :
    start ≤ stop ∧ ∀ b ∈ bs, start ≤ b.start ∧ b.start < b.stop ∧ b.stop ≤ stop := by
  induction bs generalizing index start with
  | nil => exact ⟨Nat.le_of_eq h, by simp⟩
  | cons b bs ih =>
      obtain ⟨_, rfl, hlt, htail⟩ := h
      obtain ⟨hle, hrest⟩ := ih htail
      refine ⟨by omega, fun c hc => ?_⟩
      rcases List.mem_cons.1 hc with rfl | hc
      · omega
      · have := hrest c hc
        omega

theorem map_index (h : Tiled index start stop bs) :
    bs.map Block.index = List.range' index bs.length := by
  induction bs generalizing index start with
  | nil => rfl
  | cons b bs ih =>
      obtain ⟨hindex, _, _, htail⟩ := h
      simp [List.range'_succ, hindex, ih htail]

theorem isChain (h : Tiled index start stop bs) :
    List.IsChain (fun b c => b.stop = c.start) bs := by
  induction bs generalizing index start with
  | nil => exact .nil
  | cons b bs ih =>
      obtain ⟨_, _, _, htail⟩ := h
      cases bs with
      | nil => exact .singleton b
      | cons c bs => exact .cons_cons htail.2.1.symm (ih htail)

theorem flatMap_positions (h : Tiled index start stop bs) :
    bs.flatMap Block.positions = List.range' start (stop - start) := by
  induction bs generalizing index start with
  | nil =>
      cases h
      simp
  | cons b bs ih =>
      obtain ⟨_, rfl, hlt, htail⟩ := h
      have hle := htail.bounds.1
      have hsplit :=
        List.range'_append_1 (s := b.start) (m := b.stop - b.start) (n := stop - b.stop)
      rw [show b.start + (b.stop - b.start) = b.stop by omega,
        show b.stop - b.start + (stop - b.stop) = stop - b.start by omega] at hsplit
      rw [List.flatMap_cons, ih htail, ← hsplit]
      rfl

private theorem pairwise (h : Tiled index start stop bs) :
    bs.Pairwise fun b c => b.stop ≤ c.start := by
  induction bs generalizing index start with
  | nil => exact .nil
  | cons b bs ih =>
      obtain ⟨_, _, _, htail⟩ := h
      exact List.pairwise_cons.2 ⟨fun c hc => (htail.bounds.2 c hc).1, ih htail⟩

theorem eq_of_mem_positions (h : Tiled index start stop bs) {k n i : Nat} {b c : Block}
    (hb : bs[k]? = some b) (hc : bs[n]? = some c) (hi : i ∈ b.positions) (hi' : i ∈ c.positions) :
    k = n := by
  have hapart := List.pairwise_iff_getElem.1 h.pairwise
  obtain ⟨hk, rfl⟩ := List.getElem?_eq_some_iff.1 hb
  obtain ⟨hn, rfl⟩ := List.getElem?_eq_some_iff.1 hc
  rw [Block.mem_positions] at hi hi'
  rcases Nat.lt_trichotomy k n with hlt | heq | hlt
  · have := hapart k n hk hn hlt
    omega
  · exact heq
  · have := hapart n k hn hk hlt
    omega

private theorem concat {next : Nat} (h : Tiled index start stop bs) (hlt : stop < next) :
    Tiled index start next (bs ++ [⟨index + bs.length, stop, next⟩]) := by
  induction bs generalizing index start with
  | nil =>
      cases h
      exact ⟨rfl, rfl, hlt, rfl⟩
  | cons b bs ih =>
      obtain ⟨hindex, hstart, hblock, htail⟩ := h
      refine ⟨hindex, hstart, hblock, ?_⟩
      have hnumber : index + (b :: bs).length = index + 1 + bs.length := by
        rw [List.length_cons]
        omega
      rw [hnumber]
      exact ih htail

end Tiled

/-! ## The layout -/

namespace Layout

variable {length : Nat} {leaders : List Bool} {layout : Layout}

private theorem closeLast_push (blocks : Array Block) (b : Block) (stop : Nat) :
    closeLast (blocks.push b) stop = blocks.push { b with stop := stop } := by
  apply Array.ext_getElem?
  intro i
  rw [closeLast, Array.getElem?_modify, Array.getElem?_push, Array.getElem?_push, Array.size_push,
    Nat.add_sub_cancel]
  by_cases hi : i = blocks.size
  · simp [hi]
  · simp [hi, Ne.symm hi]

/-- The last block is open; the ones before it are closed, and hold all before its start. -/
structure Laid (length : Nat) (leaders : List Bool) (layout : Layout) : Prop where
  size : layout.numbers.size = leaders.length
  last : ∃ (earlier : Array Block) (start : Nat),
    layout.blocks = earlier.push ⟨earlier.size, start, length⟩ ∧ Tiled 0 0 start earlier.toList ∧
    start < leaders.length
  starts : ∀ (i : Nat), leaders[i]? = some true ↔ ∃ b ∈ layout.blocks, b.start = i
  numbered : ∀ (i k : Nat), layout.numbers[i]? = some k →
    ∃ b : Block, layout.blocks[k]? = some b ∧ b.start ≤ i ∧ i < b.stop

private theorem getElem?_concat_true {leader : Bool} {i : Nat} :
    (leaders ++ [leader])[i]? = some true ↔
      leaders[i]? = some true ∨ i = leaders.length ∧ leader = true := by
  rcases Nat.lt_trichotomy i leaders.length with hlt | rfl | hlt
  · simp [List.getElem?_append_left hlt, Nat.ne_of_lt hlt]
  · simp
  · have hpast : (leaders ++ [leader]).length ≤ i := by
      rw [List.length_append]
      exact hlt
    rw [List.getElem?_eq_none hpast, List.getElem?_eq_none (Nat.le_of_lt hlt)]
    simp [Nat.ne_of_gt hlt]

private theorem Laid.pass (h : Laid length leaders layout) (hlt : leaders.length < length) :
    Laid length (leaders ++ [false]) (layout.place length false leaders.length) := by
  obtain ⟨earlier, start, hblocks, htiled, hstart⟩ := h.last
  constructor
  · simp [place, h.size]
  · refine ⟨earlier, start, hblocks, htiled, ?_⟩
    rw [List.length_append]
    omega
  · intro i
    simpa [getElem?_concat_true, place] using h.starts i
  · intro i k hk
    simp only [place, Bool.false_eq_true, if_false, Array.getElem?_push, h.size] at hk ⊢
    split at hk
    · rename_i hi
      cases hk
      refine ⟨⟨earlier.size, start, length⟩, ?_, ?_, ?_⟩
      · simp [hblocks]
      · exact hi ▸ Nat.le_of_lt hstart
      · exact hi ▸ hlt
    · exact h.numbered i k hk

private theorem exists_of_closed {earlier : Array Block} {b : Block} {start stop i k : Nat}
    (hb : (earlier.push ⟨earlier.size, start, length⟩)[k]? = some b) (hle : b.start ≤ i)
    (hlt : i < b.stop) (hi : i < stop) :
    ∃ c : Block, (earlier.push ⟨earlier.size, start, stop⟩)[k]? = some c ∧
      c.start ≤ i ∧ i < c.stop := by
  rw [Array.getElem?_push] at hb ⊢
  split at hb
  · rename_i hlast
    cases hb
    exact ⟨_, if_pos hlast, hle, hi⟩
  · rename_i hlast
    exact ⟨b, (if_neg hlast).trans hb, hle, hlt⟩

private theorem Laid.start (h : Laid length leaders layout) (hlt : leaders.length < length) :
    Laid length (leaders ++ [true]) (layout.place length true leaders.length) := by
  obtain ⟨earlier, start, hblocks, htiled, hstart⟩ := h.last
  have hnext : startBlock length layout.blocks leaders.length =
      (earlier.push ⟨earlier.size, start, leaders.length⟩).push
        ⟨earlier.size + 1, leaders.length, length⟩ := by
    rw [startBlock, hblocks, closeLast_push, Array.size_push]
  constructor
  · simp [place, h.size]
  · refine ⟨earlier.push ⟨earlier.size, start, leaders.length⟩, leaders.length, ?_, ?_, ?_⟩
    · simp [place, hnext]
    · simpa using htiled.concat hstart
    · simp
  · intro i
    have hstarts := h.starts i
    simp only [hblocks, Array.mem_push] at hstarts
    simp only [place, if_true, hnext, getElem?_concat_true, hstarts, Array.mem_push, and_true]
    constructor
    · rintro (⟨b, hb | rfl, rfl⟩ | rfl)
      · exact ⟨b, .inl (.inl hb), rfl⟩
      · exact ⟨_, .inl (.inr rfl), rfl⟩
      · exact ⟨_, .inr rfl, rfl⟩
    · rintro ⟨b, (hb | rfl) | rfl, rfl⟩
      · exact .inl ⟨b, .inl hb, rfl⟩
      · exact .inl ⟨_, .inr rfl, rfl⟩
      · exact .inr rfl
  · intro i k hk
    simp only [place, if_true, hnext, Array.getElem?_push, Array.size_push, h.size] at hk ⊢
    split at hk
    · rename_i hi
      cases hk
      exact ⟨⟨earlier.size + 1, leaders.length, length⟩, by simp, Nat.le_of_eq hi.symm, hi ▸ hlt⟩
    · obtain ⟨b, hb, hle, hstop⟩ := h.numbered i k hk
      have hi : i < leaders.length := h.size ▸ (Array.getElem?_eq_some_iff.1 hk).1
      rw [hblocks] at hb
      obtain ⟨c, hc, hinside⟩ := exists_of_closed hb hle hstop hi
      have hk : k < earlier.size + 1 := by
        simpa using (Array.getElem?_eq_some_iff.1 hc).1
      exact ⟨c, by rwa [if_neg (Nat.ne_of_lt hk), ← Array.getElem?_push], hinside⟩

private theorem ofLeaders_concat (leader : Bool) :
    ofLeaders length (leaders ++ [leader]) =
      (ofLeaders length leaders).place length leader leaders.length := by
  simp [ofLeaders, List.zipIdx_append]

private theorem ofLeaders_laid (rest : List Bool) (hle : rest.length < length) :
    Laid length (true :: rest) (ofLeaders length (true :: rest)) := by
  induction rest using List.reverseRecOn with
  | nil =>
      refine ⟨rfl, ⟨#[], 0, rfl, rfl, Nat.one_pos⟩, fun i => ?_, fun i k hk => ?_⟩
      · cases i <;> simp [ofLeaders, place, startBlock, closeLast]
      · cases i with
        | zero =>
            cases hk
            exact ⟨⟨0, 0, length⟩, rfl, Nat.le_refl 0, hle⟩
        | succ i => simp [ofLeaders, place] at hk
  | append_singleton rest leader ih =>
      rw [List.length_append, List.length_singleton] at hle
      have hlaid := ih (by omega)
      have hlt : (true :: rest).length < length := by
        rw [List.length_cons]
        omega
      rw [← List.cons_append, ofLeaders_concat]
      cases leader with
      | false => exact hlaid.pass hlt
      | true => exact hlaid.start hlt

end Layout

namespace Method

variable {m : Method} {i : Nat} {b : Block}

section

variable (hcode : 0 < m.code.size)

include hcode

theorem layout_laid : Layout.Laid m.code.size m.leaders.toList m.layout := by
  have hentry : m.StartsBlock 0 := startsBlock_iff.2 ⟨hcode, .inl rfl⟩
  have hsize := leaders_size m
  unfold StartsBlock at hentry
  unfold layout
  rw [← Array.getElem?_toList] at hentry
  rw [← Array.length_toList] at hsize
  cases hleaders : m.leaders.toList with
  | nil => simp [hleaders] at hentry
  | cons leader rest =>
      rw [hleaders] at hentry hsize
      cases hentry
      refine Layout.ofLeaders_laid rest ?_
      rw [← hsize, List.length_cons]
      omega

theorem blocks_tiled : Tiled 0 0 m.code.size m.blocks := by
  obtain ⟨earlier, start, hblocks, htiled, hlt⟩ := (layout_laid hcode).last
  rw [Array.length_toList, leaders_size] at hlt
  simpa [blocks, hblocks] using htiled.concat hlt

theorem startsBlock_iff_exists : m.StartsBlock i ↔ ∃ b ∈ m.blocks, b.start = i := by
  simpa [StartsBlock, blocks] using (layout_laid hcode).starts i

theorem exists_block (hi : i < m.code.size) : ∃ b ∈ m.blocks, i ∈ b.positions := by
  rw [← List.mem_flatMap, (blocks_tiled hcode).flatMap_positions]
  simpa using hi

theorem blockIndex?_eq_some_iff {k : Nat} :
    m.blockIndex? i = some k ↔ ∃ b, m.blocks[k]? = some b ∧ i ∈ b.positions := by
  have hlaid := layout_laid hcode
  have htiled := blocks_tiled hcode
  simp only [Block.mem_positions]
  constructor
  · intro hk
    simpa [blocks] using hlaid.numbered i k hk
  · rintro ⟨b, hb, hi⟩
    have hbound := htiled.bounds.2 b (List.mem_of_getElem? hb)
    have hlt : i < m.layout.numbers.size := by
      rw [hlaid.size, Array.length_toList, leaders_size]
      omega
    obtain ⟨n, hn⟩ : ∃ n, m.blockIndex? i = some n := ⟨_, Array.getElem?_eq_getElem hlt⟩
    obtain ⟨c, hc, hi'⟩ := hlaid.numbered i n hn
    have hc' : m.blocks[n]? = some c := by simpa [blocks] using hc
    rw [hn, htiled.eq_of_mem_positions hb hc' (Block.mem_positions.2 hi)
      (Block.mem_positions.2 hi')]

end

end Method

end FrameFlow
