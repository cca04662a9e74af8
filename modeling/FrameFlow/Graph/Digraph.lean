/-!
# Directed graphs and their traversals

A graph on the nodes below `size`, with the successors of a node in order.
Successors outside the graph are passed over.

`preorder` keeps a stack of discovered nodes and marks a node when it is put
there.  `postorder` keeps a stack of tasks and marks a node when it is entered,
so a successor that is not marked can wait there more than once; a node is listed
when everything reached through it has been listed.  Both end because a node is
marked once.
-/

namespace FrameFlow

structure Digraph where
  size : Nat
  next : Nat → List Nat

namespace Digraph

/-- The nodes that can be reached along edges inside the graph. -/
inductive Reaches (g : Digraph) : Nat → Nat → Prop
  | refl (v : Nat) : Reaches g v v
  | tail {u v w : Nat} : Reaches g u v → w ∈ g.next v → w < g.size → Reaches g u w

/-! ## Marks -/

abbrev Marks := Array Bool

def isFresh (marks : Marks) (v : Nat) : Bool :=
  marks[v]? == some false

def mark (marks : Marks) (v : Nat) : Marks :=
  marks.setIfInBounds v true

def freshCount (marks : Marks) : Nat :=
  marks.count false

theorem freshCount_mark {marks : Marks} {v : Nat} (h : isFresh marks v = true) :
    freshCount (mark marks v) + 1 = freshCount marks := by
  have hv : marks[v]? = some false := by simpa [isFresh] using h
  obtain ⟨hlt, hget⟩ := Array.getElem?_eq_some_iff.1 hv
  have hpos : 0 < marks.count false :=
    Array.count_pos_iff.2 (hget ▸ Array.getElem_mem hlt)
  simp only [freshCount, mark, Array.setIfInBounds, hlt, dif_pos]
  rw [Array.count_set hlt]
  simp [hget]
  omega

/-! ## Depth first -/

/--
Puts the fresh ones among the successors on the stack, from the last to the
first, so that the first is on top.
-/
def discover : List Nat → Marks → List Nat → Marks × List Nat
  | [], marks, stack => (marks, stack)
  | v :: vs, marks, stack =>
      let (marks, stack) := discover vs marks stack
      if isFresh marks v then (mark marks v, v :: stack) else (marks, stack)

private theorem discover_count (vs : List Nat) (marks : Marks) (stack : List Nat) :
    freshCount (discover vs marks stack).1 + (discover vs marks stack).2.length =
      freshCount marks + stack.length := by
  induction vs with
  | nil => rfl
  | cons v vs ih =>
      simp only [discover]
      split
      · rename_i hfresh
        have := freshCount_mark hfresh
        simp only [List.length_cons]
        omega
      · exact ih

def preorderLoop (g : Digraph) (marks : Marks) : List Nat → List Nat
  | [] => []
  | v :: stack =>
      v :: preorderLoop g (discover (g.next v) marks stack).1
        (discover (g.next v) marks stack).2
termination_by stack => freshCount marks + stack.length
decreasing_by
  rw [discover_count]
  simp

def preorder (g : Digraph) (start : Nat) : List Nat :=
  if start < g.size then
    preorderLoop g (mark (Array.replicate g.size false) start) [start]
  else []

/-! ## Finishing order -/

inductive Task where
  | enter (node : Nat)
  | leave (node : Nat)
  deriving DecidableEq, Repr

def freshNext (g : Digraph) (marks : Marks) (v : Nat) : List Nat :=
  (g.next v).filter fun w => isFresh marks w

def postorderLoop (g : Digraph) (marks : Marks) : List Task → List Nat
  | [] => []
  | .leave v :: tasks => v :: postorderLoop g marks tasks
  | .enter v :: tasks =>
      if isFresh marks v then
        postorderLoop g (mark marks v)
          ((g.freshNext (mark marks v) v).map .enter ++ .leave v :: tasks)
      else postorderLoop g marks tasks
termination_by tasks => (freshCount marks, tasks.length)
decreasing_by
  · exact Prod.Lex.right _ (by simp)
  · rename_i hfresh
    refine Prod.Lex.left _ _ ?_
    have := freshCount_mark hfresh
    omega
  · exact Prod.Lex.right _ (by simp)

def postorder (g : Digraph) (start : Nat) : List Nat :=
  postorderLoop g (Array.replicate g.size false) [.enter start]

def reversePostorder (g : Digraph) (start : Nat) : List Nat :=
  (g.postorder start).reverse

end Digraph

end FrameFlow
