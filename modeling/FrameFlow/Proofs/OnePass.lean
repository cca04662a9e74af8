import FrameFlow.Proofs.Bound
import FrameFlow.Proofs.ForwardEdges
import FrameFlow.Proofs.Paths

/-!
# One pass over code without loops

Pending instructions are kept in the order in which they are to be taken, and the
first of them is taken.  Where no path leads back, its successors come after it in
that order, so nothing that has been taken becomes pending again: the instructions
taken make an ascending list, and a successful run takes all that can be reached,
in the order of the graph.
-/

namespace FrameFlow

variable {σ : Type}

/-! ## Graphs without loops -/

namespace FlowGraph

/-- No path leads from an instruction that can be reached back to it. -/
def Acyclic (g : FlowGraph) : Prop :=
  ∀ i edges, g.Reachable i → g.Path i edges i → edges = []

variable {g : FlowGraph} {i j : Nat}

private theorem Path.snoc {edges : List Edge} {e : Edge} (h : g.Path i edges j)
    (he : e ∈ g.edges j) :
    g.Path i (edges ++ [e]) e.target := by
  induction edges generalizing i with
  | nil =>
      cases h
      exact ⟨he, rfl⟩
  | cons first edges ih => exact ⟨h.1, ih h.2⟩

private theorem exists_path (h : g.digraph.Reaches i j) : ∃ edges, g.Path i edges j := by
  induction h with
  | refl => exact ⟨[], rfl⟩
  | tail _ hnext _ ih =>
      obtain ⟨edges, hpath⟩ := ih
      obtain ⟨e, he, rfl⟩ := List.mem_map.1 hnext
      exact ⟨edges ++ [e], hpath.snoc he⟩

private theorem Acyclic.not_reaches (h : g.Acyclic) (hi : g.Reachable i) {e : Edge}
    (he : e ∈ g.edges i) : ¬g.digraph.Reaches e.target i := by
  intro hback
  obtain ⟨edges, hpath⟩ := exists_path hback
  cases h i (e :: edges) hi ⟨he, hpath⟩

private theorem acyclic_of_grows (height : Nat → Nat)
    (h : ∀ i, ∀ e ∈ g.edges i, height i < height e.target) : g.Acyclic := by
  have hpath (edges : List Edge) (i j : Nat) (hij : g.Path i edges j) :
      height i + edges.length ≤ height j := by
    induction edges generalizing i with
    | nil =>
        cases hij
        exact Nat.le_refl _
    | cons e edges ih =>
        have hfirst := h i e hij.1
        have hrest := ih e.target hij.2
        rw [List.length_cons]
        omega
  intro i edges _ hloop
  have hlength := hpath edges i i hloop
  exact List.eq_nil_of_length_eq_zero (by omega)

private theorem order_pairwise (g : FlowGraph) :
    g.order.Pairwise fun i j => g.order.idxOf i < g.order.idxOf j := by
  rw [List.pairwise_iff_getElem]
  intro j k hj hk hlt
  rw [g.order_nodup.idxOf_getElem, g.order_nodup.idxOf_getElem]
  exact hlt

private theorem Acyclic.rank_lt (h : g.Acyclic) (hi : g.Reachable i) {e : Edge} (he : e ∈ g.edges i)
    (hlt : e.target < g.size) : g.order.idxOf i < g.order.idxOf e.target := by
  have hsize : 0 < g.size := by omega
  have hnext : e.target ∈ g.digraph.next i := List.mem_map.2 ⟨e, he, rfl⟩
  obtain ⟨hi', htarget, hplaces⟩ :=
    Digraph.precedes_of_forward hsize hi hnext hlt (h.not_reaches hi he)
  exact hplaces _ _ (List.getElem?_idxOf hi') (List.getElem?_idxOf htarget)

private theorem order_length (hsize : 0 < g.size) :
    g.order.length = ((List.range g.size).filter g.isReachable).length := by
  apply List.Perm.length_eq
  rw [List.perm_ext_iff_of_nodup g.order_nodup (List.nodup_range.filter _)]
  intro i
  rw [mem_order_iff hsize, List.mem_filter, List.mem_range, isReachable_iff hsize]
  exact ⟨fun h => ⟨h.lt_size hsize, h⟩, fun h => h.2⟩

end FlowGraph

/-! ## The queue -/

namespace Problem

variable {p : Problem σ} {i j k : Nat}

theorem comesBefore_iff :
    p.comesBefore i j = true ↔ p.rank i < p.rank j ∨ (p.rank i = p.rank j ∧ i < j) := by
  simp [comesBefore]

theorem comesBefore_trans (hij : p.comesBefore i j = true) (hjk : p.comesBefore j k = true) :
    p.comesBefore i k = true := by
  rw [comesBefore_iff] at hij hjk ⊢
  omega

private theorem ne_of_comesBefore (h : p.comesBefore i j = true) : i ≠ j := by
  rintro rfl
  rw [comesBefore_iff] at h
  omega

private theorem comesBefore_total (hne : i ≠ j) (h : ¬p.comesBefore i j = true) :
    p.comesBefore j i = true := by
  rw [comesBefore_iff] at h ⊢
  omega

private theorem enqueue_pairwise {pending : List Nat}
    (h : pending.Pairwise fun i j => p.comesBefore i j = true) (i : Nat) :
    (p.enqueue i pending).Pairwise fun i j => p.comesBefore i j = true := by
  induction pending with
  | nil => exact List.pairwise_singleton _ i
  | cons j rest ih =>
      obtain ⟨hj, hrest⟩ := List.pairwise_cons.1 h
      unfold enqueue
      split
      · exact h
      · rename_i hne
        split
        · rename_i hbefore
          refine List.pairwise_cons.2 ⟨fun k hk => ?_, h⟩
          rcases List.mem_cons.1 hk with rfl | hk
          · exact hbefore
          · exact comesBefore_trans hbefore (hj k hk)
        · rename_i hbefore
          refine List.pairwise_cons.2 ⟨fun k hk => ?_, ih hrest⟩
          rcases Run.mem_enqueue.1 hk with rfl | hk
          · exact comesBefore_total hne hbefore
          · exact hj k hk

end Problem

namespace Run

variable {p : Problem σ}

/-! ## What is taken -/

def schedule (p : Problem σ) (S : Run σ) : List Nat :=
  if _h : S.isRunning then S.pending.take 1 ++ schedule p (S.step p) else []
termination_by S.measure
decreasing_by exact measure_step p (isRunning_iff.1 _h).2

theorem step_of_running {S : Run σ} (h : S.isRunning = true) :
    ∃ i rest, S.pending = i :: rest ∧ S.step p = S.pick p i ∧
      S.schedule p = i :: (S.pick p i).schedule p := by
  obtain ⟨i, hi, hstep⟩ := step_eq_pick (p := p) h
  obtain ⟨rest, hpending⟩ := List.head?_eq_some_iff.1 hi
  refine ⟨i, rest, hpending, hstep, ?_⟩
  rw [schedule, dif_pos h, hstep, hpending]
  rfl

theorem solve_steps_eq (p : Problem σ) (S : Run σ) :
    (S.solve p).steps = S.steps + (S.schedule p).length := by
  induction S using Run.solve.induct p with
  | case1 S hrunning ih =>
      obtain ⟨i, _, _, hstep, hschedule⟩ := step_of_running (p := p) hrunning
      rw [solve, dif_pos hrunning, ih, step_steps hrunning, hschedule, hstep, List.length_cons]
      omega
  | case2 S hended =>
      rw [solve, dif_neg hended, schedule, dif_neg hended]
      rfl

/-- What has been taken and what is pending make one ascending list. -/
def Ascending (p : Problem σ) (done : List Nat) (S : Run σ) : Prop :=
  (done ++ S.pending).Pairwise fun i j => p.comesBefore i j = true

def LeadsOn (p : Problem σ) (i : Nat) : Prop :=
  ∀ e ∈ p.graph.edges i, p.comesBefore i e.target = true

private theorem Ascending.install {done : List Nat} {S : Run σ} (h : Ascending p done S)
    {target : Nat} (htarget : ∀ i ∈ done, p.comesBefore i target = true) (H : Frame) :
    Ascending p done (S.install p target H) := by
  obtain ⟨hdone, hpending, hacross⟩ := List.pairwise_append.1 h
  refine List.pairwise_append.2 ⟨hdone, p.enqueue_pairwise hpending target, fun i hi j hj => ?_⟩
  rcases mem_install_pending.1 hj with rfl | hj
  · exact htarget i hi
  · exact hacross i hi j hj

private theorem Ascending.pick {done : List Nat} {S : Run σ} (h : Ascending p done S) {i : Nat}
    {rest : List Nat} (hpending : S.pending = i :: rest) (hon : LeadsOn p i) :
    Ascending p (done ++ [i]) (S.pick p i) := by
  have htaken : Ascending p (done ++ [i]) (S.taken i) := by
    simpa [Ascending, taken, hpending] using h
  have hlast : ∀ j ∈ done ++ [i], j = i ∨ p.comesBefore j i = true := by
    intro j hj
    rcases List.mem_append.1 hj with hj | hj
    · exact .inr ((List.pairwise_append.1 h).2.2 j hj i (by simp [hpending]))
    · exact .inl (List.mem_singleton.1 hj)
  apply visit_induction (P := Ascending p (done ++ [i])) (S := S.taken i)
  · intro T U hquiet hT
    rw [Ascending, hquiet.pending]
    exact hT
  · intro T insn F target H _ _ hoffers hT
    obtain ⟨e, he, rfl⟩ := hoffers.exists_edge
    refine offer_induction hT (fun _ _ _ _ => hT) fun H' _ => hT.install (fun j hj => ?_) H'
    rcases hlast j hj with rfl | hbefore
    · exact hon e he
    · exact Problem.comesBefore_trans hbefore (hon e he)
  · intro T insn F e _ _ _ hT
    exact hT
  · exact htaken

private theorem exists_pending_of_mem_schedule {S T : Run σ} (h : Leads p S T) {i : Nat}
    (hi : i ∈ T.schedule p) : ∃ U, Leads p S U ∧ i ∈ U.pending := by
  induction T using Run.solve.induct p with
  | case1 T hrunning ih =>
      obtain ⟨j, rest, hpending, hstep, hschedule⟩ := step_of_running (p := p) hrunning
      rw [hschedule, List.mem_cons] at hi
      rcases hi with rfl | hi
      · exact ⟨T, h, by simp [hpending]⟩
      · rw [hstep] at ih
        exact ih (.pick h (isRunning_iff.1 hrunning).1 (by simp [hpending])) hi
  | case2 T hended =>
      rw [schedule, dif_neg hended] at hi
      cases hi

private theorem schedule_ascending {S T : Run σ} (h : Leads p S T)
    (hon : ∀ U, Leads p S U → ∀ i ∈ U.pending, LeadsOn p i) {done : List Nat}
    (hT : Ascending p done T) :
    (done ++ T.schedule p).Pairwise fun i j => p.comesBefore i j = true := by
  induction T using Run.solve.induct p generalizing done with
  | case1 T hrunning ih =>
      obtain ⟨i, rest, hpending, hstep, hschedule⟩ := step_of_running (p := p) hrunning
      have hi : i ∈ T.pending := by simp [hpending]
      rw [hstep] at ih
      have hlater := ih (.pick h (isRunning_iff.1 hrunning).1 hi) (hT.pick hpending (hon T h i hi))
      simpa [hschedule] using hlater
  | case2 T hended =>
      rw [schedule, dif_neg hended, List.append_nil]
      exact (List.pairwise_append.1 hT).1

end Run

namespace Config

def scheduled (cfg : Config σ) (m : Method) (g : FlowGraph) (seed : Frame) (start : σ) :
    List Nat :=
  (begin (cfg.problem m g) seed start).schedule (cfg.problem m g)

theorem solved_steps_eq (cfg : Config σ) (m : Method) (g : FlowGraph) (seed : Frame)
    (start : σ) :
    (cfg.solved m g seed start).steps = (cfg.scheduled m g seed start).length := by
  rw [solved, Run.solve_steps_eq]
  exact Nat.zero_add _

section

variable {m : Method} {g : FlowGraph} {seed : Frame} (hgraph : m.graph = .ok g)
  (hseed : m.entryFrame = .ok seed) (cfg : Config σ) (start : σ)

include hgraph

private theorem scheduled_reachable {i : Nat} (hi : i ∈ cfg.scheduled m g seed start) :
    g.Reachable i := by
  obtain ⟨U, hU, hpending⟩ := Run.exists_pending_of_mem_schedule .refl hi
  exact (hU.confined hgraph).pending i hpending

private theorem scheduled_pairwise (hacyclic : g.Acyclic) :
    (cfg.scheduled m g seed start).Pairwise
      fun i j => (cfg.problem m g).comesBefore i j = true := by
  have hbegin : Run.Ascending (cfg.problem m g) [] (begin (cfg.problem m g) seed start) :=
    List.pairwise_singleton _ _
  refine Run.schedule_ascending .refl (fun U hU i hi e he => ?_) hbegin
  have hlt : e.target < g.size := Method.edge_target_lt_size hgraph he
  exact Problem.comesBefore_iff.2
    (.inl (hacyclic.rank_lt ((hU.confined hgraph).pending i hi) he hlt))

include hseed

private theorem scheduled_eq_order (hacyclic : g.Acyclic)
    (hstopped : (cfg.solved m g seed start).stopped = none) :
    cfg.scheduled m g seed start = g.order := by
  have hsize := Method.graph_size_pos hgraph
  have hascending : (cfg.scheduled m g seed start).Pairwise _ :=
    scheduled_pairwise hgraph cfg start hacyclic
  have hnodup : (cfg.scheduled m g seed start).Nodup := hascending.imp Problem.ne_of_comesBefore
  have hperm : (cfg.scheduled m g seed start).Perm g.order := by
    refine (List.subperm_of_subset hnodup fun i hi => ?_).perm_of_length_le ?_
    · exact (FlowGraph.mem_order_iff hsize).2 (scheduled_reachable hgraph cfg start hi)
    · rw [FlowGraph.order_length hsize, ← solved_steps_eq]
      exact solved_steps_ge hgraph hseed cfg start hstopped
  refine hperm.eq_of_pairwise (fun i j _ _ hij hji => ?_) hascending ?_
  · exact absurd rfl (Problem.ne_of_comesBefore (Problem.comesBefore_trans hij hji))
  · exact g.order_pairwise.imp fun hlt => Problem.comesBefore_iff.2 (.inl hlt)

end

/--
Code without loops is analyzed in one pass: a successful analysis takes the
instructions that can be reached in the order of the graph, each of them once.
-/
theorem analyze_acyclic {cfg : Config σ} {m : Method} {start : σ} {a : Analysis}
    (h : (cfg.analyze m start).1 = .ok a) {g : FlowGraph} (hgraph : m.graph = .ok g)
    (hacyclic : g.Acyclic) :
    ∃ seed, m.entryFrame = .ok seed ∧ cfg.scheduled m g seed start = g.order ∧
      g.order.Nodup ∧ (∀ i, i ∈ g.order ↔ g.Reachable i) ∧
      a.steps = ((List.range g.size).filter g.isReachable).length := by
  obtain ⟨g', seed, _, hgraph', hseed, houtcome⟩ := analyze_outcome h
  cases hgraph.symm.trans hgraph'
  obtain ⟨hstopped, result, _, rfl⟩ := outcome_ok houtcome
  have hsize := Method.graph_size_pos hgraph
  have hscheduled := scheduled_eq_order hgraph hseed cfg start hacyclic hstopped
  refine ⟨seed, hseed, hscheduled, g.order_nodup, fun i => FlowGraph.mem_order_iff hsize, ?_⟩
  rw [solved_steps_eq, hscheduled, FlowGraph.order_length hsize]

end Config

def dispatch : Method where
  owner := "Depot"
  name := "dispatch"
  type := ⟨[.base .int], some (.base .int)⟩
  access := .publicStatic
  maxLocals := 1
  maxStack := some 1
  code := #[.load .int 0, .switch 5 [(1, 3), (2, 5)], .jump 3, .const (.int 1), .jump 6,
    .load .int 0, .store .int 0, .load .int 0, .ret (some .int), .stack .pop, .jump 7]
  handlers := [⟨6, 7, 9, none⟩]

theorem dispatch_one_pass :
    ∃ a seed, (({} : Config Unit).analyze dispatch ()).1 = .ok a ∧
      dispatch.edgeGraph.Acyclic ∧ dispatch.entryFrame = .ok seed ∧
      ({} : Config Unit).scheduled dispatch dispatch.edgeGraph seed () =
        [0, 1, 3, 4, 5, 6, 9, 10, 7, 8] ∧ a.steps = 10 := by
  have hok : (({} : Config Unit).analyze dispatch ()).1.map Analysis.unreachable =
      .ok [2] := by cbv
  have hgraph : dispatch.graph = .ok dispatch.edgeGraph := by cbv
  have horder : dispatch.edgeGraph.order = [0, 1, 3, 4, 5, 6, 9, 10, 7, 8] := by cbv
  have hcount : ((List.range dispatch.edgeGraph.size).filter
      dispatch.edgeGraph.isReachable).length = 10 := by cbv
  have hacyclic : dispatch.edgeGraph.Acyclic := by
    have hgrows : ∀ i < 11, ∀ e ∈ dispatch.edgeGraph.edges i,
        (if i = 7 ∨ i = 8 then i + 4 else i) <
          if e.target = 7 ∨ e.target = 8 then e.target + 4 else e.target := by decide
    refine FlowGraph.acyclic_of_grows (fun i => if i = 7 ∨ i = 8 then i + 4 else i)
      fun i e he => hgrows i ?_ e he
    obtain ⟨insn, hinsn, _⟩ := Method.edge_cases hgraph he
    exact (Array.getElem?_eq_some_iff.1 hinsn).1
  obtain ⟨a, ha, _⟩ := Analysis.exists_of_map hok
  obtain ⟨seed, hseed, hscheduled, _, _, hsteps⟩ := Config.analyze_acyclic ha hgraph hacyclic
  exact ⟨a, seed, ha, hacyclic, hseed, hscheduled.trans horder, hsteps.trans hcount⟩

end FrameFlow
