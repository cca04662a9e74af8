import FrameFlow.Error
import FrameFlow.Graph.Digraph

/-!
# Control flow graphs

Every instruction is a node.  Its normal edges lead to its jump targets and to
the next instruction when it can fall through; its exceptional edges lead to
the handlers that cover it, in table order.  A method has a graph if all
targets and handler ranges lie inside the code and no instruction that can be
reached falls off its end.
-/

namespace FrameFlow

inductive EdgeKind where
  | always
  | taken
  | notTaken
  | case (key : Option Int32)
  | thrown (catchClass : Option String)
  deriving DecidableEq, Repr

namespace EdgeKind

def isConditional : EdgeKind → Bool
  | taken | notTaken => true
  | always | case _ | thrown _ => false

def isCase : EdgeKind → Bool
  | case _ => true
  | always | taken | notTaken | thrown _ => false

def isThrown : EdgeKind → Bool
  | thrown _ => true
  | always | taken | notTaken | case _ => false

end EdgeKind

structure Edge where
  target : Nat
  kind : EdgeKind
  deriving DecidableEq, Repr

/-! ## The edges of a method -/

def Insn.jumpEdges : Insn Nat → List Edge
  | branch _ t | branchCompare _ _ t => [⟨t, .taken⟩]
  | jump t => [⟨t, .always⟩]
  | switch fallback cases =>
      ⟨fallback, .case none⟩ :: cases.map fun (key, t) => ⟨t, .case (some key)⟩
  | _ => []

def Insn.nextEdgeKind (insn : Insn Nat) : EdgeKind :=
  if insn.flow = .conditional then .notTaken else .always

namespace Method

def fallsOff (m : Method) (position : Nat) (insn : Insn Nat) : Bool :=
  insn.fallsThrough && m.code.size ≤ position + 1

def normalEdges (m : Method) (position : Nat) (insn : Insn Nat) : List Edge :=
  if insn.fallsThrough && position + 1 < m.code.size then
    insn.jumpEdges ++ [⟨position + 1, insn.nextEdgeKind⟩]
  else insn.jumpEdges

def thrownEdges (m : Method) (position : Nat) : List Edge :=
  (m.handlers.filter fun h => h.covers position).map fun h => ⟨h.entry, .thrown h.catchClass⟩

end Method

/-! ## Graphs -/

structure FlowGraph where
  normal : Array (List Edge)
  thrown : Array (List Edge)
  deriving DecidableEq, Repr

namespace FlowGraph

def size (g : FlowGraph) : Nat :=
  g.normal.size

def entry : Nat := 0

def normalEdges (g : FlowGraph) (position : Nat) : List Edge :=
  g.normal[position]?.getD []

def thrownEdges (g : FlowGraph) (position : Nat) : List Edge :=
  g.thrown[position]?.getD []

def edges (g : FlowGraph) (position : Nat) : List Edge :=
  g.normalEdges position ++ g.thrownEdges position

def digraph (g : FlowGraph) : Digraph :=
  ⟨g.size, fun position => (g.edges position).map Edge.target⟩

def preorder (g : FlowGraph) : List Nat :=
  g.digraph.preorder entry

/-- Reachable instructions, each before its successors unless these lead back to it. -/
def order (g : FlowGraph) : List Nat :=
  g.digraph.reversePostorder entry

def isReachable (g : FlowGraph) (position : Nat) : Bool :=
  g.preorder.contains position

def unreachable (g : FlowGraph) : List Nat :=
  let found := g.preorder
  (List.range g.size).filter fun position => !found.contains position

def rank? (g : FlowGraph) (position : Nat) : Option Nat :=
  g.order.idxOf? position

def outgoing (g : FlowGraph) : List (List Edge) :=
  (g.normal ++ g.thrown).toList

/-- The edges with their sources.  The lists of outgoing edges go through the code twice. -/
def arrows (g : FlowGraph) : List (Nat × Edge) :=
  g.outgoing.zipIdx.flatMap fun x => x.1.map fun e => (x.2 % g.size, e)

def noteArrow (table : Array (List Nat)) (arrow : Nat × Edge) : Array (List Nat) :=
  table.modify arrow.2.target fun sources =>
    if sources.contains arrow.1 then sources else sources ++ [arrow.1]

def predecessorTable (g : FlowGraph) : Array (List Nat) :=
  g.arrows.foldl noteArrow (Array.replicate g.size [])

/-- The sources of normal edges come first, and no source comes twice. -/
def predecessors (g : FlowGraph) (position : Nat) : List Nat :=
  g.predecessorTable[position]?.getD []

end FlowGraph

/-! ## Building the graph -/

def Handler.fault? (length : Nat) (h : Handler Nat) : Option (Nat × GraphFault) :=
  if h.stop ≤ h.start then some (h.start, .emptyRange h.start h.stop)
  else if length < h.stop || length ≤ h.entry then
    some (h.start, .rangeOutside h.start h.stop h.entry length)
  else none

def Insn.targetFault? (length position : Nat) (insn : Insn Nat) : Option (Nat × GraphFault) :=
  (insn.targets.find? fun t => length ≤ t).map fun t => (position, .jumpOutside t length)

namespace Method

def structureFault? (m : Method) : Option (Nat × GraphFault) :=
  if m.code.size = 0 then some (0, .noCode)
  else
    match m.handlers.findSome? (Handler.fault? m.code.size) with
    | some fault => some fault
    | none =>
        m.code.toList.zipIdx.findSome? fun (insn, position) =>
          insn.targetFault? m.code.size position

/-- The edges of all instructions, whether or not they make a sound graph. -/
def edgeGraph (m : Method) : FlowGraph where
  normal := m.code.mapIdx fun position insn => m.normalEdges position insn
  thrown := m.code.mapIdx fun position _ => m.thrownEdges position

def fallOff? (m : Method) : Option Nat :=
  let found := m.edgeGraph.preorder
  (m.code.toList.zipIdx.find? fun (insn, position) =>
    m.fallsOff position insn && found.contains position).map fun x => x.2

def graph (m : Method) : Except Error FlowGraph :=
  match m.structureFault? with
  | some (position, fault) => .error (.graph position fault)
  | none =>
      match m.fallOff? with
      | some position => .error (.graph position .fallsOff)
      | none => .ok m.edgeGraph

end Method

end FrameFlow
