import FrameFlow.Proofs.Least

/-!
# Paths

A path through the graph carries the entry frame along its edges without any
merging.  What it carries is at least as precise as the frames of the analysis:
no instruction fails on the way, and the frame at the end is below the one the
analysis gives to the last instruction.

On a path, calls are made and operations folded with operands that the analysis
has merged away.  The frames of a solution bound the outcome all the same, since
their values stand for all of these operands.
-/

namespace FrameFlow

variable {σ : Type}

namespace FlowGraph

/-- The edges lead from one instruction to the other, through loops any number of times. -/
def Path (g : FlowGraph) : Nat → List Edge → Nat → Prop
  | i, [], j => i = j
  | i, e :: edges, j => e ∈ g.edges i ∧ g.Path e.target edges j

instance decidablePath (g : FlowGraph) : ∀ i edges j, Decidable (g.Path i edges j)
  | i, [], j => inferInstanceAs (Decidable (i = j))
  | i, e :: edges, j =>
      have := g.decidablePath e.target edges j
      inferInstanceAs (Decidable (e ∈ g.edges i ∧ g.Path e.target edges j))

end FlowGraph

namespace Config

def cross (cfg : Config σ) (world : σ) (m : Method) (i : Nat) (F : Frame) (e : Edge) :
    Except FrameError Frame :=
  match e.kind with
  | .thrown catchClass => Run.handlerFrame F catchClass
  | .always | .taken | .notTaken | .case _ =>
      match m.code[i]? with
      | some insn => cfg.onward world i insn F
      | none => .ok F

def carry (cfg : Config σ) (world : σ) (m : Method) : Nat → Frame → List Edge →
    Except FrameError Frame
  | _, F, [] => .ok F
  | i, F, e :: edges =>
      match cfg.cross world m i F e with
      | .error cause => .error cause
      | .ok G => cfg.carry world m e.target G edges

private theorem cross_thrown (cfg : Config σ) (world : σ) (m : Method) (i : Nat) (F : Frame)
    {e : Edge} {catchClass : Option String} (h : e.kind = .thrown catchClass) :
    cfg.cross world m i F e = Run.handlerFrame F catchClass := by
  simp only [cross, h]

private theorem cross_normal (cfg : Config σ) (world : σ) {m : Method} {i : Nat} (F : Frame)
    {e : Edge} {insn : Insn Nat} (hinsn : m.code[i]? = some insn) (h : e.kind.isThrown = false) :
    cfg.cross world m i F e = cfg.onward world i insn F := by
  unfold cross
  split
  · rename_i hkind
    rw [hkind] at h
    cases h
  all_goals rw [hinsn]

end Config

namespace Solution

variable {cfg : Config σ} {world : σ} {m : Method} {g : FlowGraph} {X : Nat → Option Frame}

private theorem bounds_cross (hX : Solution cfg world m g X) (hcfg : cfg.Tabled) {I : σ → Prop}
    (hrepeat : cfg.Repeatable I) (hworld : I world) (hgraph : m.graph = .ok g) {i : Nat}
    {F G : Frame} (hG : X i = some G) (h : Frame.Rel Value.Refines F G) {e : Edge}
    (he : e ∈ g.edges i) :
    ∃ H K, cfg.cross world m i F e = .ok H ∧ X e.target = some K ∧
      Frame.Rel Value.Refines H K := by
  obtain ⟨insn, hinsn, hnormal | hthrown⟩ := Method.edge_cases hgraph he
  · rw [cfg.cross_normal world F hinsn hnormal.2]
    obtain ⟨H, hH, hedges⟩ := hX.bounds_onward hcfg hrepeat hworld hworld hinsn hG h
    obtain ⟨K, hK, hrel⟩ := hedges e hnormal.1
    exact ⟨H, K, hH, hK, hrel⟩
  · obtain ⟨catchClass, hmem, hkind⟩ := hthrown
    rw [cfg.cross_thrown world m i F hkind]
    exact hX.bounds_thrown hG h hmem hkind

private theorem bounds_carry (hX : Solution cfg world m g X) (hcfg : cfg.Tabled) {I : σ → Prop}
    (hrepeat : cfg.Repeatable I) (hworld : I world) (hgraph : m.graph = .ok g) {i j : Nat}
    {edges : List Edge} (hpath : g.Path i edges j) {F G : Frame} (hG : X i = some G)
    (h : Frame.Rel Value.Refines F G) :
    ∃ H K, cfg.carry world m i F edges = .ok H ∧ X j = some K ∧
      Frame.Rel Value.Refines H K := by
  induction edges generalizing i F G with
  | nil =>
      cases hpath
      exact ⟨F, G, rfl, hG, h⟩
  | cons e edges ih =>
      obtain ⟨he, hrest⟩ := hpath
      obtain ⟨H, K, hH, hK, hrel⟩ := hX.bounds_cross hcfg hrepeat hworld hgraph hG h he
      have hcarry : cfg.carry world m i F (e :: edges) = cfg.carry world m e.target H edges := by
        simp only [Config.carry, hH]
      rw [hcarry]
      exact ih hrest hK hrel

end Solution

/-- No path fails, and what it carries to its end is below the frame of the analysis. -/
theorem Config.analyze_bounds_path {cfg : Config σ} (hcfg : cfg.Tabled) {I : σ → Prop}
    (hrepeat : cfg.Repeatable I) {start world : σ} (hstart : I start) (hworld : I world)
    {m : Method} {a : Analysis} (h : (cfg.analyze m start).1 = .ok a) :
    ∃ g seed, m.graph = .ok g ∧ m.entryFrame = .ok seed ∧
      ∀ edges i, g.Path FlowGraph.entry edges i →
        ∃ F G, cfg.carry world m FlowGraph.entry seed edges = .ok F ∧
          a.frame? i = some G ∧ F ≤ G := by
  obtain ⟨g, seed, hgraph, hseed, hstopped, hframe?⟩ := analyze_ok h
  have hX := (cfg.solved_leads m g seed start).solution hrepeat hstart hworld hgraph hseed
    hstopped (cfg.solved_ended m g seed start)
  refine ⟨g, seed, hgraph, hseed, fun edges i hpath => ?_⟩
  obtain ⟨K, hK, hrel⟩ := hX.bounds_entry hseed
  obtain ⟨F, G, hF, hG, hFG⟩ := hX.bounds_carry hcfg hrepeat hworld hgraph hpath hK hrel
  rw [hframe?]
  exact ⟨F, G, hF, hG, hFG.le⟩

def retryPath : List Edge :=
  [⟨1, .always⟩, ⟨2, .always⟩, ⟨3, .always⟩, ⟨4, .always⟩, ⟨7, .taken⟩, ⟨8, .always⟩,
    ⟨1, .always⟩, ⟨6, .thrown none⟩, ⟨6, .thrown none⟩]

theorem retryPath_bounded :
    retry.edgeGraph.Path FlowGraph.entry retryPath 6 ∧
      ∃ seed a F G, retry.entryFrame = .ok seed ∧
        (unsupported.config.analyze retry (Memo.fresh ())).1 = .ok a ∧
        unsupported.config.carry (Memo.fresh ()) retry FlowGraph.entry seed retryPath = .ok F ∧
        a.frame? 6 = some G ∧ F ≤ G := by
  have hpath : retry.edgeGraph.Path FlowGraph.entry retryPath 6 := by decide
  have htabled : unsupported.config.Tabled := ⟨.inl rfl, .inl rfl⟩
  obtain ⟨g, seed, hgraph, hseed, hbounds⟩ := Config.analyze_bounds_path htabled
    (Setup.config_repeatable unsupported_repeatable) (Memo.fresh_faithful _ trivial)
    (Memo.fresh_faithful _ trivial) retry_analyze
  obtain ⟨rfl, _⟩ := Method.graph_ok hgraph
  obtain ⟨F, G, hF, hG, hFG⟩ := hbounds retryPath 6 hpath
  exact ⟨hpath, seed, _, F, G, hseed, retry_analyze, hF, hG, hFG⟩

end FrameFlow
