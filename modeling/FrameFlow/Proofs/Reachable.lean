import FrameFlow.Proofs.Outcomes
import FrameFlow.Proofs.Search

/-!
# Frames on reachable code

Frames are offered along edges, so no run gives a frame to an instruction that
the graph does not reach, and none is ever pending.  At the end of a successful
run every edge from an instruction with a frame leads to another one, so all
reachable instructions have frames.

An instruction without a frame is not pending, so its first frame makes the list
of pending instructions longer, and it takes a step to get it shorter again.
-/

namespace FrameFlow

variable {σ : Type}

namespace Run

variable {p : Problem σ}

/-! ## Nothing but reachable code -/

structure Confined (p : Problem σ) (S : Run σ) : Prop where
  frames : ∀ (i : Nat) (F : Frame), S.frames[i]? = some (some F) → p.graph.Reachable i
  pending : ∀ i ∈ S.pending, p.graph.Reachable i

private theorem Confined.install {S : Run σ} (h : Confined p S) {target : Nat}
    (htarget : p.graph.Reachable target) (H : Frame) : Confined p (S.install p target H) := by
  constructor
  · intro i F hF
    rcases install_frames_cases hF with ⟨rfl, _⟩ | hold
    · exact htarget
    · exact h.frames i F hold
  · intro i hi
    rcases mem_install_pending.1 hi with rfl | hold
    · exact htarget
    · exact h.pending i hold

theorem Offers.exists_edge {position target : Nat} {insn : Insn Nat} {F H : Frame} {world : σ}
    (h : Offers p position insn F world target H) :
    ∃ e ∈ p.graph.edges position, e.target = target := by
  cases h with
  | thrown he _ _ => exact ⟨_, List.mem_append_right _ he, rfl⟩
  | normal he _ => exact ⟨_, List.mem_append_left _ he, rfl⟩

private theorem Confined.pick (hgraph : p.method.graph = .ok p.graph) {S : Run σ} (h : Confined p S)
    (i : Nat) : Confined p (S.pick p i) := by
  apply visit_induction (P := Confined p) (S := S.taken i)
  · intro T U hquiet hT
    constructor
    · rw [hquiet.frames]
      exact hT.frames
    · rw [hquiet.pending]
      exact hT.pending
  · intro T insn F target H hF _ hoffers hT
    obtain ⟨e, he, rfl⟩ := hoffers.exists_edge
    have htarget := (h.frames i F hF).edge he (Method.edge_target_lt_size hgraph he)
    exact offer_induction hT (fun _ _ _ _ => ⟨hT.frames, hT.pending⟩)
      fun H' _ => hT.install htarget H'
  · intro T insn F e _ _ _ hT
    exact ⟨hT.frames, hT.pending⟩
  · exact ⟨h.frames, fun j hj => h.pending j (List.mem_of_mem_erase hj)⟩

theorem Leads.confined {seed : Frame} {start : σ} {T : Run σ}
    (h : Leads p (Config.begin p seed start) T) (hgraph : p.method.graph = .ok p.graph) :
    Confined p T := by
  apply h.invariant
  · have hblank : Confined p (blank p start) :=
      ⟨fun _ _ hF => absurd hF blank_frames, fun _ hi => by simp [blank] at hi⟩
    exact hblank.install (.refl _) seed
  · intro U i _ hU _ _
    exact hU.pick hgraph i

end Run

/-! ## All of it -/

private theorem Closed.exists_frame {cfg : Config σ} {I : σ → Prop} {m : Method} {g : FlowGraph}
    {seed : Frame} {X : Nat → Option Frame} (hX : Closed cfg I m g seed X)
    (hgraph : m.graph = .ok g) {i : Nat} (h : g.Reachable i) : ∃ F, X i = some F := by
  unfold FlowGraph.Reachable at h
  induction h with
  | refl =>
      obtain ⟨F, hF, _⟩ := hX.entry
      exact ⟨F, hF⟩
  | @tail j k _ hnext _ ih =>
      obtain ⟨F, hF⟩ := ih
      obtain ⟨e, he, rfl⟩ := List.mem_map.1 hnext
      obtain ⟨insn, hinsn, ⟨hnormal, _⟩ | ⟨catchClass, hthrown, hkind⟩⟩ :=
        Method.edge_cases hgraph he
      · obtain ⟨_, _, _, _, hedges⟩ := hX.normal j insn F hinsn hF
        obtain ⟨G, hG, _⟩ := hedges e hnormal
        exact ⟨G, hG⟩
      · obtain ⟨G, hG, _⟩ := hX.thrown j F hF e hthrown catchClass hkind
        exact ⟨G, hG⟩

/-! ## Counting steps -/

namespace Run

variable {p : Problem σ}

/-- Whatever is pending has a frame, and what is not has been taken at least once. -/
structure Served (S : Run σ) : Prop where
  pending : ∀ i ∈ S.pending, ∃ F, S.frames[i]? = some (some F)
  count : S.frames.size ≤ S.steps + S.pending.length + S.unframed

private theorem Served.install {S : Run σ} (h : Served S) {target : Nat} {F H : Frame}
    (hraise : S.Raises target F H) : Served (S.install p target H) := by
  constructor
  · intro i hi
    by_cases hi' : i = target
    · subst hi'
      exact ⟨H, install_self hraise.lt_size⟩
    · rw [install_ne hi']
      exact h.pending i ((mem_install_pending.1 hi).resolve_left hi')
  · have hcount := h.count
    have hlength := enqueue_length (p := p) target S.pending
    have hpending : (S.install p target H).pending = p.enqueue target S.pending := rfl
    have hsteps : (S.install p target H).steps = S.steps := rfl
    rw [install_size, hpending, hsteps]
    rcases hraise with ⟨hnone, _⟩ | ⟨G, hG, _⟩
    · -- What has no frame is not pending, so the list of pending instructions grows.
      have hnot : target ∉ S.pending := by
        intro hmem
        obtain ⟨G, hG⟩ := h.pending target hmem
        rw [hnone] at hG
        cases hG
      have hunframed := install_unframed (p := p) (H := H) hnone
      simp only [Option.isNone_none, if_true] at hunframed
      have hlonger := hlength.resolve_right fun hold => hnot hold.1
      omega
    · have hunframed := install_unframed (p := p) (H := H) hG
      simp only [Option.isNone_some, Bool.false_eq_true, if_false] at hunframed
      omega

private theorem Served.taken {S : Run σ} (h : Served S) {i : Nat} (hi : i ∈ S.pending) :
    Served (S.taken i) := by
  constructor
  · intro j hj
    exact h.pending j (List.mem_of_mem_erase hj)
  · have hcount := h.count
    have hlength := List.length_erase_of_mem hi
    have hpos := List.length_pos_of_mem hi
    simp only [Run.taken, unframed] at hcount ⊢
    omega

private theorem Served.pick {S : Run σ} (h : Served S) {i : Nat} (hi : i ∈ S.pending) :
    Served (S.pick p i) := by
  apply visit_induction (P := Served) (S := S.taken i)
  · intro T U hquiet hT
    constructor
    · rw [hquiet.frames, hquiet.pending]
      exact hT.pending
    · rw [hquiet.frames, hquiet.pending, hquiet.steps, unframed_eq hquiet.frames]
      exact hT.count
  · intro T insn F target H _ _ _ hT
    exact offer_induction hT (fun _ _ _ _ => ⟨hT.pending, hT.count⟩)
      fun H' hraise => hT.install hraise
  · intro T insn F e _ _ _ hT
    exact ⟨hT.pending, hT.count⟩
  · exact h.taken hi

theorem Leads.served {seed : Frame} {start : σ} {T : Run σ}
    (h : Leads p (Config.begin p seed start) T) (hsize : 0 < p.method.code.size) :
    Served T := by
  apply h.invariant
  · have hblank : Served (blank p start) := by
      constructor
      · intro i hi
        simp [blank] at hi
      · simp [blank, unframed, List.countP_replicate]
    exact hblank.install (.inl ⟨blank_entry hsize, rfl⟩)
  · intro U i _ hU _ hi
    exact hU.pick hi

private theorem framed_add_unframed (S : Run σ) :
    ((List.range S.frames.size).filter fun i => (S.frame? i).isSome).length + S.unframed =
      S.frames.size := by
  have hslots : S.frames.toList = (List.range S.frames.size).map S.frame? := by
    apply List.ext_getElem
    · simp
    · intro i hi _
      simp only [Array.length_toList] at hi
      simp [frame?, hi]
  have hnone : (List.range S.frames.size).countP (Option.isNone ∘ S.frame?) =
      (List.range S.frames.size).countP fun i => !(S.frame? i).isSome := by
    apply List.countP_congr
    intro i _
    simp
  have hlength := List.length_eq_countP_add_countP (fun i => (S.frame? i).isSome)
    (l := List.range S.frames.size)
  simp only [Bool.not_eq_true, Bool.decide_eq_false, List.length_range] at hlength
  rw [unframed, hslots, List.countP_map, hnone, ← List.countP_eq_length_filter]
  exact hlength.symm

end Run

namespace Config

section

variable {m : Method} {g : FlowGraph} {seed : Frame} (hgraph : m.graph = .ok g)
  (hseed : m.entryFrame = .ok seed) (cfg : Config σ) (start : σ)

include hgraph hseed

theorem solved_frames_size : (cfg.solved m g seed start).frames.size = g.size :=
  ((cfg.solved_leads m g seed start).frames_size hgraph hseed).trans
    (Method.graph_size hgraph).symm

variable (hstopped : (cfg.solved m g seed start).stopped = none)

include hstopped

theorem solved_framed_iff (i : Nat) :
    ((cfg.solved m g seed start).frame? i).isSome = true ↔ g.Reachable i := by
  constructor
  · intro h
    obtain ⟨F, hF⟩ := Option.isSome_iff_exists.1 h
    have hconfined := (cfg.solved_leads m g seed start).confined hgraph
    exact hconfined.frames i F (Run.frame?_eq_some.1 hF)
  · intro h
    have hclosed := solved_closed hgraph hseed cfg start hstopped
    exact Option.isSome_iff_exists.2 (hclosed.exists_frame hgraph h)

theorem solved_framed_eq :
    (fun i => ((cfg.solved m g seed start).frame? i).isSome) = g.isReachable := by
  funext i
  rw [Bool.eq_iff_iff, solved_framed_iff hgraph hseed cfg start hstopped i,
    FlowGraph.isReachable_iff (Method.graph_size_pos hgraph)]

theorem solved_steps_ge :
    ((List.range g.size).filter g.isReachable).length ≤ (cfg.solved m g seed start).steps := by
  have hserved := (cfg.solved_leads m g seed start).served (Method.code_size_pos hgraph)
  have hpending := Run.pending_eq_nil hstopped (cfg.solved_ended m g seed start)
  have hframed := (cfg.solved m g seed start).framed_add_unframed
  have hcount := hserved.count
  rw [solved_framed_eq hgraph hseed cfg start hstopped,
    solved_frames_size hgraph hseed cfg start] at hframed
  rw [hpending, solved_frames_size hgraph hseed cfg start, List.length_nil] at hcount
  omega

end

/--
A successful analysis has frames for exactly the instructions that can be
reached, and has taken each of them at least once.  No run, in whatever order
and wherever it stops, has a frame for an instruction that cannot be reached or
has it pending.
-/
theorem analyze_reachable (cfg : Config σ) (m : Method) (start : σ) :
    (∀ a, (cfg.analyze m start).1 = .ok a → ∃ g, m.graph = .ok g ∧
      (∀ i, a.isReachable i = true ↔ g.Reachable i) ∧ a.unreachable = g.unreachable ∧
      ((List.range g.size).filter g.isReachable).length ≤ a.steps) ∧
    ∀ g seed, m.graph = .ok g → m.entryFrame = .ok seed →
      ∀ T, Run.Leads (cfg.problem m g) (begin (cfg.problem m g) seed start) T →
        ∀ i, (T.frame? i).isSome = true ∨ i ∈ T.pending → g.Reachable i := by
  constructor
  · intro a ha
    obtain ⟨g, seed, _, hgraph, hseed, houtcome⟩ := analyze_outcome ha
    obtain ⟨hstopped, result, _, rfl⟩ := outcome_ok houtcome
    refine ⟨g, hgraph, solved_framed_iff hgraph hseed cfg start hstopped, ?_,
      solved_steps_ge hgraph hseed cfg start hstopped⟩
    have hframed := congrFun (solved_framed_eq hgraph hseed cfg start hstopped)
    have hsize := solved_frames_size hgraph hseed cfg start
    simp only [Analysis.unreachable, FlowGraph.unreachable, hsize]
    apply List.filter_congr
    intro i _
    exact congrArg not (hframed i)
  · intro g seed hgraph hseed T hT i hi
    have hconfined := hT.confined hgraph
    rcases hi with hframed | hpending
    · obtain ⟨F, hF⟩ := Option.isSome_iff_exists.1 hframed
      exact hconfined.frames i F (Run.frame?_eq_some.1 hF)
    · exact hconfined.pending i hpending

end Config

/-- The jump before the return is never reached, though it leads into the loop. -/
def drain : Method where
  owner := "Tank"
  name := "drain"
  type := ⟨[.base .int], none⟩
  access := .publicStatic
  maxLocals := 1
  maxStack := some 1
  code := #[.load .int 0, .branch .eq 5, .increment 0 (-1), .jump 0, .jump 2, .ret none,
    .stack .pop, .jump 5]
  handlers := [⟨2, 3, 6, some "java/lang/Exception"⟩]

theorem drain_reachable :
    ∃ a g, (({} : Config Unit).analyze drain ()).1 = .ok a ∧ drain.graph = .ok g ∧
      a.unreachable = [4] ∧ g.unreachable = [4] ∧
      (∀ i, a.isReachable i = true ↔ g.Reachable i) ∧ 7 ≤ a.steps ∧
      ∀ T, Run.Leads (Config.problem {} drain g) (Config.begin (Config.problem {} drain g)
          ⟨[some (.unresolved .one)], [], some 1⟩ ()) T → T.frame? 4 = none ∧ 4 ∉ T.pending := by
  have hanalyze : (({} : Config Unit).analyze drain ()).1.map Analysis.unreachable =
      .ok [4] := by cbv
  have hgraph : drain.graph = .ok drain.edgeGraph := by cbv
  have hseed : drain.entryFrame = .ok ⟨[some (.unresolved .one)], [], some 1⟩ := by cbv
  have hcount : ((List.range drain.edgeGraph.size).filter
      drain.edgeGraph.isReachable).length = 7 := by cbv
  have hfour : drain.edgeGraph.isReachable 4 = false := by cbv
  obtain ⟨hframed, hruns⟩ := Config.analyze_reachable {} drain ()
  obtain ⟨a, ha, hunreachable⟩ := Analysis.exists_of_map hanalyze
  obtain ⟨g, hg, hiff, heq, hsteps⟩ := hframed a ha
  cases hgraph.symm.trans hg
  have hnot : ¬drain.edgeGraph.Reachable 4 := by
    rw [← FlowGraph.isReachable_iff (by decide), hfour]
    decide
  refine ⟨a, _, ha, hgraph, hunreachable, heq.symm.trans hunreachable, hiff,
    hcount ▸ hsteps, fun T hT => ⟨?_, fun hmem => ?_⟩⟩
  · cases hframe : T.frame? 4 with
    | none => rfl
    | some F => exact absurd (hruns _ _ hgraph hseed T hT 4 (.inl (by simp [hframe]))) hnot
  · exact hnot (hruns _ _ hgraph hseed T hT 4 (.inr hmem))

end FrameFlow
