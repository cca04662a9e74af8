import FrameFlow.Proofs.Stopping
import FrameFlow.Proofs.Tracking

/-!
# The analysis finds the least solution

Frames below a solution stay below it: the instructions are monotone where the
sources are tables and the host always gives the same answers.  So no offer to
an instruction can fail to merge, and no instruction can fail, while a solution
bounds the run.  With every failed call tolerated nothing else stops a run, and
it ends in a solution itself, the same one whatever order it has taken.
-/

namespace FrameFlow

variable {σ : Type}

/-! ## Frames below a solution -/

theorem Frame.Rel.le {F G : Frame} (h : Frame.Rel Value.Refines F G) : F ≤ G :=
  ⟨h.toAlike, fun k b hb => (h.locals k b hb).imp fun _ ha => ⟨ha.1, ha.2.2⟩,
    h.stack.imp fun _ _ hab => hab.2⟩

private theorem Config.Tabled.tracks {cfg : Config σ} (hcfg : cfg.Tabled) {I : σ → Prop}
    (hrepeat : cfg.Repeatable I) {world : σ} (hworld : I world) :
    cfg.Tracks Value.Refines I cfg fun world' => world' = world := by
  intro world' _ hworld' hsame F G h position insn
  subst hsame
  exact hcfg.onward_refines hrepeat hworld' hworld h position insn

namespace Solution

variable {cfg : Config σ} {world : σ} {m : Method} {g : FlowGraph} {X : Nat → Option Frame}

private theorem exists_closed (hX : Solution cfg world m g X) :
    ∃ seed, Closed cfg (fun world' => world' = world) m g seed X := by
  obtain ⟨seed, _, hseed, _⟩ := hX.entry
  exact ⟨seed, hX.closed hseed⟩

theorem bounds_entry (hX : Solution cfg world m g X) {seed : Frame}
    (hseed : m.entryFrame = .ok seed) :
    ∃ K, X FlowGraph.entry = some K ∧ Frame.Rel Value.Refines seed K :=
  (hX.closed hseed).rel_entry Value.refines_respected.toJoinStable
    (Method.entryFrame_refines hseed)

theorem bounds_onward (hX : Solution cfg world m g X) (hcfg : cfg.Tabled) {I : σ → Prop}
    (hrepeat : cfg.Repeatable I) (hworld : I world) {world' : σ} (hworld' : I world')
    {i : Nat} {insn : Insn Nat} (hinsn : m.code[i]? = some insn) {F G : Frame}
    (hG : X i = some G) (h : Frame.Rel Value.Refines F G) :
    ∃ H, cfg.onward world' i insn F = .ok H ∧
      ∀ e ∈ g.normalEdges i, ∃ K, X e.target = some K ∧ Frame.Rel Value.Refines H K := by
  obtain ⟨seed, hclosed⟩ := hX.exists_closed
  exact hclosed.rel_onward Value.refines_respected.toJoinStable
    (hcfg.tracks hrepeat hworld) hworld' hinsn hG h

theorem bounds_thrown (hX : Solution cfg world m g X) {i : Nat} {F G : Frame}
    (hG : X i = some G) (h : Frame.Rel Value.Refines F G) {e : Edge}
    (he : e ∈ g.thrownEdges i) {catchClass : Option String}
    (hkind : e.kind = .thrown catchClass) :
    ∃ H K, Run.handlerFrame F catchClass = .ok H ∧ X e.target = some K ∧
      Frame.Rel Value.Refines H K := by
  obtain ⟨seed, hclosed⟩ := hX.exists_closed
  exact hclosed.rel_thrown Value.refines_respected hG h he hkind

end Solution

/-! ## Bounded runs -/

namespace Run

variable {p : Problem σ} {X : Nat → Option Frame}

/-- Nothing has stopped the run, and its frames refine those of `X`. -/
structure Bounded (X : Nat → Option Frame) (S : Run σ) : Prop where
  running : S.stopped = none
  frames : ∀ (i : Nat) (F : Frame), S.frames[i]? = some (some F) →
    ∃ G, X i = some G ∧ Frame.Rel Value.Refines F G

def StoppedByFrame (S : Run σ) : Prop :=
  ∀ e, S.stopped = some e → ∃ i cause, e = .frame i cause

theorem Leads.stoppedByFrame (hlenient : p.config.Lenient) {S T : Run σ}
    (hS : S.stopped = none) (h : Leads p S T) : T.StoppedByFrame :=
  fun e he => (h.halted hS e he).frame_of_lenient hlenient

theorem Leads.bounded {I : σ → Prop} {world : σ}
    (hX : Solution p.config world p.method p.graph X) (hcfg : p.config.Tabled)
    (hrepeat : p.config.Repeatable I) (hlenient : p.config.Lenient) (hworld : I world)
    {start : σ} (hstart : I start) {seed : Frame} {T : Run σ}
    (h : Leads p (Config.begin p seed start) T) (hseed : p.method.entryFrame = .ok seed) :
    Bounded X T := by
  have hwithin := h.within (hX.closed hseed) Value.refines_respected
    (hcfg.tracks hrepeat hworld) (fun _ hU => hU.world hrepeat hstart)
    (Method.entryFrame_refines hseed)
  refine ⟨?_, hwithin.frames⟩
  cases hstopped : T.stopped with
  | none => rfl
  | some e =>
      obtain ⟨f, rfl⟩ := hwithin.stopped e hstopped
      obtain ⟨i, cause, hframe⟩ := h.stoppedByFrame hlenient rfl _ hstopped
      cases hframe

private theorem frames_eq {S T : Run σ} (hsize : S.frames.size = T.frames.size)
    (h : ∀ i, S.frame? i = T.frame? i) : S.frames = T.frames := by
  refine Array.ext hsize fun i hS hT => ?_
  have hi := h i
  simp only [frame?, Array.getElem?_eq_getElem hS, Array.getElem?_eq_getElem hT,
    Option.getD_some] at hi
  exact hi

private theorem Bounded.le {S : Run σ} (h : Bounded X S) {i : Nat} {F : Frame}
    (hF : S.frame? i = some F) : ∃ G, X i = some G ∧ F ≤ G := by
  obtain ⟨G, hG, hFG⟩ := h.frames i F (frame?_eq_some.1 hF)
  exact ⟨G, hG, hFG.le⟩

/-! ## Ended runs -/

section

variable {I : σ → Prop} {start : σ} {seed : Frame} (hcfg : p.config.Tabled)
  (hrepeat : p.config.Repeatable I) (hlenient : p.config.Lenient) (hstart : I start)
  (hgraph : p.method.graph = .ok p.graph) (hseed : p.method.entryFrame = .ok seed)

include hcfg hrepeat hlenient hstart hgraph hseed

theorem Leads.stopped_none_iff {T : Run σ} (h : Leads p (Config.begin p seed start) T)
    (hended : T.isRunning = false) :
    T.stopped = none ↔ ∃ X, Solution p.config start p.method p.graph X := by
  constructor
  · intro hstopped
    exact ⟨T.frame?, h.solution hrepeat hstart hstart hgraph hseed hstopped hended⟩
  · rintro ⟨X, hX⟩
    exact (Leads.bounded hX hcfg hrepeat hlenient hstart hstart h hseed).running

theorem Leads.frames_unique {S T : Run σ} (hS : Leads p (Config.begin p seed start) S)
    (hT : Leads p (Config.begin p seed start) T) (hSended : S.isRunning = false)
    (hTended : T.isRunning = false) (hSstopped : S.stopped = none)
    (hTstopped : T.stopped = none) : S.frames = T.frames := by
  have hXS := hS.solution hrepeat hstart hstart hgraph hseed hSstopped hSended
  have hXT := hT.solution hrepeat hstart hstart hgraph hseed hTstopped hTended
  -- Each run is bounded by the frames of the other.
  have hSbelow := Leads.bounded hXT hcfg hrepeat hlenient hstart hstart hS hseed
  have hTbelow := Leads.bounded hXS hcfg hrepeat hlenient hstart hstart hT hseed
  have hsize : S.frames.size = T.frames.size :=
    (hS.frames_size hgraph hseed).trans (hT.frames_size hgraph hseed).symm
  refine frames_eq hsize fun i => ?_
  cases hF : S.frame? i with
  | none =>
      cases hG : T.frame? i with
      | none => rfl
      | some G =>
          obtain ⟨F, hF', _⟩ := hTbelow.le hG
          rw [hF] at hF'
          cases hF'
  | some F =>
      obtain ⟨G, hG, hFG⟩ := hSbelow.le hF
      obtain ⟨F', hF', hGF⟩ := hTbelow.le hG
      cases hF.symm.trans hF'
      rw [hG, le_antisymm hFG hGF]

end

end Run

/-! ## The least solution -/

namespace Config

/--
A run in any order succeeds exactly when there is a solution, and its frames are
then the least one.
-/
theorem solved_least {cfg : Config σ} (hcfg : cfg.Tabled) {I : σ → Prop}
    (hrepeat : cfg.Repeatable I) (hlenient : cfg.Lenient) {start : σ} (hstart : I start)
    {m : Method} {g : FlowGraph} (hlocals : m.checkLocals = .ok ()) (hgraph : m.graph = .ok g) :
    ∃ seed, m.entryFrame = .ok seed ∧
      ((cfg.solved m g seed start).stopped = none ↔ ∃ X, Solution cfg start m g X) ∧
      ((cfg.solved m g seed start).stopped = none →
        Solution cfg start m g (cfg.solved m g seed start).frame? ∧
        ∀ X, Solution cfg start m g X → ∀ i F, (cfg.solved m g seed start).frame? i = some F →
          ∃ G, X i = some G ∧ F ≤ G) ∧
      ((¬∃ X, Solution cfg start m g X) →
        ∃ i cause, (cfg.solved m g seed start).stopped = some (.frame i cause)) ∧
      ∀ T, Run.Leads (cfg.problem m g) (begin (cfg.problem m g) seed start) T →
        T.isRunning = false →
          (T.stopped = none ↔ (cfg.solved m g seed start).stopped = none) ∧
          (T.stopped = none → T.frames = (cfg.solved m g seed start).frames) := by
  obtain ⟨seed, hseed⟩ := Method.entryFrame_ok hlocals
  have hleads := cfg.solved_leads m g seed start
  have hended := cfg.solved_ended m g seed start
  have hiff := hleads.stopped_none_iff hcfg hrepeat hlenient hstart hgraph hseed hended
  refine ⟨seed, hseed, hiff, fun hstopped => ⟨?_, fun X hX i F hF => ?_⟩, fun hnone => ?_,
    fun T hT hTended => ?_⟩
  · exact hleads.solution hrepeat hstart hstart hgraph hseed hstopped hended
  · exact (Run.Leads.bounded hX hcfg hrepeat hlenient hstart hstart hleads hseed).le hF
  · cases hstopped : (cfg.solved m g seed start).stopped with
    | none => exact absurd (hiff.1 hstopped) hnone
    | some e =>
        obtain ⟨i, cause, rfl⟩ := hleads.stoppedByFrame hlenient rfl e hstopped
        exact ⟨i, cause, rfl⟩
  · have hTiff := hT.stopped_none_iff hcfg hrepeat hlenient hstart hgraph hseed hTended
    refine ⟨hTiff.trans hiff.symm, fun hTstopped => ?_⟩
    exact hT.frames_unique hcfg hrepeat hlenient hstart hgraph hseed hleads hTended hended
      hTstopped (hiff.2 (hTiff.1 hTstopped))

end Config

theorem retry_solved_least :
    unsupported.config.Lenient ∧ retry.checkLocals = .ok () ∧
      retry.graph = .ok retry.edgeGraph ∧
      ∃ seed, retry.entryFrame = .ok seed ∧
        (unsupported.config.solved retry retry.edgeGraph seed (Memo.fresh ())).stopped = none ∧
        ∀ X, Solution unsupported.config (Memo.fresh ()) retry retry.edgeGraph X → ∀ i F,
          (unsupported.config.solved retry retry.edgeGraph seed (Memo.fresh ())).frame? i =
            some F → ∃ G, X i = some G ∧ F ≤ G := by
  have hlenient : unsupported.config.Lenient := ⟨_, rfl, fun _ _ _ => rfl⟩
  have hlocals : retry.checkLocals = .ok () := by cbv
  have hgraph : retry.graph = .ok retry.edgeGraph := by cbv
  obtain ⟨seed, hseed, _, hleast, _⟩ := Config.solved_least ⟨.inl rfl, .inl rfl⟩
    (Setup.config_repeatable unsupported_repeatable) hlenient
    (Memo.fresh_faithful unsupported.host trivial) hlocals hgraph
  have hentry : retry.entryFrame = .ok ⟨[none], [], some 2⟩ := by cbv
  cases hseed.symm.trans hentry
  have hstopped : (unsupported.config.solved retry retry.edgeGraph ⟨[none], [], some 2⟩
      (Memo.fresh ())).stopped = none := by cbv
  exact ⟨hlenient, hlocals, hgraph, _, hseed, hstopped, (hleast hstopped).2⟩

end FrameFlow
