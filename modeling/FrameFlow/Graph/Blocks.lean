import FrameFlow.Graph.Flow

/-!
# Basic blocks

A block starts at the first instruction, at a jump target, at a handler or a
bound of its range, or after an instruction that may go elsewhere than to the
next one, and extends up to the next start.  The starts are marked first, in one
pass over the code and one over the handlers; a third pass lays out the blocks.
-/

namespace FrameFlow

structure Block where
  index : Nat
  start : Nat
  stop : Nat
  deriving DecidableEq, Repr

namespace Block

def size (b : Block) : Nat :=
  b.stop - b.start

def last (b : Block) : Nat :=
  b.stop - 1

def positions (b : Block) : List Nat :=
  List.range' b.start b.size

end Block

/-! ## Leaders -/

/-- One flag per instruction: a block starts there.  There is no flag past the last one. -/
abbrev Leaders := Array Bool

namespace Leaders

def mark (leaders : Leaders) (position : Nat) : Leaders :=
  leaders.setIfInBounds position true

def markAll (leaders : Leaders) (positions : List Nat) : Leaders :=
  positions.foldl mark leaders

end Leaders

def Insn.leaders (insn : Insn Nat) (position : Nat) : List Nat :=
  insn.targets ++ if insn.endsBlock then [position + 1] else []

def Handler.leaders (h : Handler Nat) : List Nat :=
  [h.entry, h.start, h.stop]

def Method.leaders (m : Method) : Leaders :=
  let entry := Leaders.mark (Array.replicate m.code.size false) 0
  let code := m.code.toList.zipIdx.foldl
    (fun leaders x => leaders.markAll (x.1.leaders x.2)) entry
  m.handlers.foldl (fun leaders h => leaders.markAll h.leaders) code

/-! ## Blocks between leaders -/

structure Layout where
  blocks : Array Block
  numbers : Array Nat
  deriving DecidableEq, Repr

namespace Layout

def closeLast (blocks : Array Block) (stop : Nat) : Array Block :=
  blocks.modify (blocks.size - 1) fun b => { b with stop := stop }

/-- A block that starts extends to the end of the code until another one starts. -/
def startBlock (length : Nat) (blocks : Array Block) (position : Nat) : Array Block :=
  (closeLast blocks position).push ⟨blocks.size, position, length⟩

def place (length : Nat) (layout : Layout) (leader : Bool) (position : Nat) : Layout :=
  let blocks := if leader then startBlock length layout.blocks position else layout.blocks
  ⟨blocks, layout.numbers.push (blocks.size - 1)⟩

def ofLeaders (length : Nat) (leaders : List Bool) : Layout :=
  leaders.zipIdx.foldl (fun layout x => layout.place length x.1 x.2) ⟨#[], #[]⟩

end Layout

namespace Method

def layout (m : Method) : Layout :=
  .ofLeaders m.code.size m.leaders.toList

def blocks (m : Method) : List Block :=
  m.layout.blocks.toList

def blockIndex? (m : Method) (position : Nat) : Option Nat :=
  m.layout.numbers[position]?

def blockExit (m : Method) (b : Block) : Flow :=
  match m.code[b.last]? with
  | some insn => insn.flow
  | none => .sequential

end Method

/-- The edges that leave a block: normal ones at its end, exceptional ones anywhere. -/
def Block.edges (g : FlowGraph) (b : Block) : List Edge :=
  g.normalEdges b.last ++ b.positions.flatMap g.thrownEdges

def Block.successors (numbers : Array Nat) (g : FlowGraph) (b : Block) : List Nat :=
  ((b.edges g).filterMap fun e => numbers[e.target]?).mergeSort.eraseReps

/-! ## The listing -/

structure BlockEntry where
  block : Block
  exit : Flow
  reachable : Bool
  successors : List Nat
  deriving DecidableEq, Repr

def blockText (index : Nat) : String :=
  s!"B{index}"

def BlockEntry.text (entry : BlockEntry) : String :=
  let b := entry.block
  let range := s!"{blockText b.index} [{positionText b.start}..{positionText b.stop})"
  let mark := if entry.reachable then "" else " unreachable"
  let targets := Text.listed (entry.successors.map blockText)
  let arrow := if entry.successors.isEmpty then "" else s!" -> {targets}"
  s!"{range} {entry.exit.text}{mark}{arrow}\n"

namespace Method

/-- One entry for each block.  Its first instruction tells whether it can be reached. -/
def blockEntries (m : Method) (g : FlowGraph) : List BlockEntry :=
  let layout := m.layout
  let found := g.preorder
  layout.blocks.toList.map fun b =>
    ⟨b, m.blockExit b, found.contains b.start, b.successors layout.numbers g⟩

def blockListing (m : Method) (g : FlowGraph) : String :=
  String.join ((m.blockEntries g).map BlockEntry.text)

end Method

end FrameFlow
