import FrameFlow.Proofs.Edges
import FrameFlow.Proofs.Entry
import FrameFlow.Tolerance
import Mathlib.Data.List.Permutation

/-!
# The analysis ends in a fixed point

A solution assigns frames to instructions so that the entry frame, what goes on
from every instruction, and what its handlers start with, can be merged into
the frames of their targets without changing them.  The frames of a successful
analysis are a solution.  If the answers of sources and hosts change from world to
world, there is no one world for a solution, but the frames are still closed:
above all that goes on from them, each in a world of its own.

The invariant of a run: every instruction with a frame is pending or settled.
Taking an instruction makes it neither for a moment.  Its visit settles the
frame it had, and if that frame rises during the visit it is pending again.
-/

namespace FrameFlow

variable {σ : Type}

/-! ## Solutions -/

def Frame.Absorbs (F G : Frame) : Prop :=
  F.merge G = .ok (F, false)

structure Solution (cfg : Config σ) (world : σ) (m : Method) (g : FlowGraph)
    (X : Nat → Option Frame) : Prop where
  frames : ∀ i F, X i = some F → F.Of m
  entry : ∃ seed F, m.entryFrame = .ok seed ∧ X FlowGraph.entry = some F ∧ F.Absorbs seed
  normal : ∀ (i : Nat) (insn : Insn Nat) (F : Frame), m.code[i]? = some insn → X i = some F →
    ∃ H, cfg.onward world i insn F = .ok H ∧
      ∀ e ∈ g.normalEdges i, ∃ G, X e.target = some G ∧ G.Absorbs H
  thrown : ∀ i F, X i = some F → ∀ e ∈ g.thrownEdges i, ∀ catchClass,
    e.kind = .thrown catchClass → ∃ G, X e.target = some G ∧
      G.Absorbs { F with stack := [.ref (Handler.thrownClass catchClass)] }

/--
Frames above the entry frame and above whatever goes on from them.  Questions
may be asked in a different world of `I` for every instruction.
-/
structure Closed (cfg : Config σ) (I : σ → Prop) (m : Method) (g : FlowGraph) (seed : Frame)
    (X : Nat → Option Frame) : Prop where
  frames : ∀ i F, X i = some F → F.Of m
  entry : ∃ F, X FlowGraph.entry = some F ∧ seed ≤ F
  normal : ∀ (i : Nat) (insn : Insn Nat) (F : Frame), m.code[i]? = some insn → X i = some F →
    ∃ world H, I world ∧ cfg.onward world i insn F = .ok H ∧
      ∀ e ∈ g.normalEdges i, ∃ G, X e.target = some G ∧ H ≤ G
  thrown : ∀ i F, X i = some F → ∀ e ∈ g.thrownEdges i, ∀ catchClass,
    e.kind = .thrown catchClass → ∃ G, X e.target = some G ∧
      { F with stack := [.ref (Handler.thrownClass catchClass)] } ≤ G

private theorem Run.handlerFrame_ok {F H : Frame} {catchClass : Option String}
    (h : Run.handlerFrame F catchClass = .ok H) :
    H = { F with stack := [.ref (Handler.thrownClass catchClass)] } := by
  obtain ⟨_, rfl⟩ := Frame.push_ok_iff.1 h
  rfl

section

variable {cfg : Config σ} {I : σ → Prop} {world : σ} {m : Method} {g : FlowGraph} {seed : Frame}
  {X : Nat → Option Frame}

private theorem Frame.Absorbs.le {F G : Frame} (hFG : Frame.Alike F G) (h : F.Absorbs G) : G ≤ F :=
  (Frame.merge_unchanged_iff hFG).1 h

private theorem Closed.solution (h : Closed cfg I m g seed X) (hcfg : cfg.Repeatable I)
    (hworld : I world) (hseed : m.entryFrame = .ok seed) : Solution cfg world m g X := by
  have habsorbs {target : Nat} {H : Frame} (hle : ∃ G, X target = some G ∧ H ≤ G) :
      ∃ G, X target = some G ∧ G.Absorbs H := by
    obtain ⟨G, hG, hle⟩ := hle
    exact ⟨G, hG, (Frame.merge_unchanged_iff hle.toAlike.symm).2 hle⟩
  constructor
  case frames => exact h.frames
  case entry =>
    obtain ⟨F, hF, habsorbed⟩ := habsorbs h.entry
    exact ⟨seed, F, hseed, hF, habsorbed⟩
  case normal =>
    intro i insn F hinsn hF
    obtain ⟨world', H, hworld', hH, hedges⟩ := h.normal i insn F hinsn hF
    rw [hcfg.onward_eq hworld' hworld] at hH
    exact ⟨H, hH, fun e he => habsorbs (hedges e he)⟩
  case thrown =>
    intro i F hF e he catchClass hkind
    exact habsorbs (h.thrown i F hF e he catchClass hkind)

theorem Solution.closed (h : Solution cfg world m g X) (hseed : m.entryFrame = .ok seed) :
    Closed cfg (fun world' => world' = world) m g seed X := by
  have hle {target : Nat} {F H : Frame} (hF : F.Of m) (hFH : Frame.Alike F H)
      (habsorbs : ∃ G, X target = some G ∧ G.Absorbs H) : ∃ G, X target = some G ∧ H ≤ G := by
    obtain ⟨G, hG, habsorbs⟩ := habsorbs
    exact ⟨G, hG, habsorbs.le (((h.frames target G hG).alike hF).trans hFH)⟩
  constructor
  case frames => exact h.frames
  case entry =>
    obtain ⟨seed', F, hseed', hF, habsorbs⟩ := h.entry
    cases hseed.symm.trans hseed'
    exact hle (Method.entryFrame_of hseed) (.refl _) ⟨F, hF, habsorbs⟩
  case normal =>
    intro i insn F hinsn hF
    obtain ⟨H, hH, hedges⟩ := h.normal i insn F hinsn hF
    have hHm : H.Of m :=
      Config.onward_kept (Frame.lasting_of m).toKept _ _ _ _ (h.frames i F hF) H hH
    exact ⟨world, H, rfl, hH, fun e he => hle hHm (.refl _) (hedges e he)⟩
  case thrown =>
    intro i F hF e he catchClass hkind
    exact hle (h.frames i F hF) ⟨rfl, rfl⟩ (h.thrown i F hF e he catchClass hkind)

end

/-! ## The invariant -/

namespace Run

variable {p : Problem σ}

/-- Every instruction with a frame is pending, or settled in one of the worlds of `I`. -/
structure Covered (p : Problem σ) (I : σ → Prop) (seed : Frame) (S : Run σ) : Prop where
  frames : AllFrames (Frame.Of p.method) S
  size : S.frames.size = p.method.code.size
  entry : S.Above FlowGraph.entry seed
  settled : S.stopped = none → ∀ (i : Nat) (insn : Insn Nat) (F : Frame),
    p.method.code[i]? = some insn → S.frames[i]? = some (some F) → i ∉ S.pending →
      ∃ world, I world ∧ Settled p world S i insn F

private theorem Covered.pick {I : σ → Prop} {seed : Frame} {S : Run σ} {i : Nat}
    (hworld : I S.world) (htargets : ∀ i, ∀ e ∈ p.graph.edges i, e.target < p.method.code.size)
    (h : Covered p I seed S) : Covered p I seed (S.pick p i) := by
  have hgrows : Grows (S.taken i) (S.pick p i) := visit_grows (S := S.taken i) h.frames i
  refine ⟨h.frames.pick (Frame.lasting_of p.method) i, hgrows.size.trans h.size,
    Above.grows hgrows h.entry, ?_⟩
  intro hrunning j insn F hinsn hF hj
  -- What is not pending after the visit has kept its frame, the visited instruction included.
  have hF' : S.frames[j]? = some (some F) := (hgrows.unchanged j hj).symm.trans hF
  by_cases hij : j = i
  · subst hij
    have hedges : ∀ e ∈ p.graph.edges j, e.target < S.frames.size := by
      rw [h.size]
      exact htargets j
    exact ⟨S.world, hworld,
      visit_settled (S := S.taken j) h.frames hF' hinsn hedges hrunning⟩
  · -- Any other instruction was settled before, and its successors have only risen since.
    have hnot : j ∉ S.pending := fun hmem =>
      hj (hgrows.pending j ((List.mem_erase_of_ne hij).2 hmem))
    obtain ⟨world, hI, hsettled⟩ :=
      h.settled (hgrows.running hrunning) j insn F hinsn hF' hnot
    exact ⟨world, hI, Settled.grows hgrows ⟨hsettled.thrown, hsettled.normal⟩⟩

def blank (p : Problem σ) (start : σ) : Run σ :=
  ⟨Array.replicate p.method.code.size none, [], [], 0, start, none⟩

theorem begin_eq (p : Problem σ) (seed : Frame) (start : σ) :
    Config.begin p seed start = (blank p start).install p FlowGraph.entry seed :=
  rfl

theorem blank_frames {start : σ} {i : Nat} {F : Frame} :
    (blank p start).frames[i]? ≠ some (some F) := by
  simp [blank, Array.getElem?_replicate]

theorem blank_entry {start : σ} (hsize : 0 < p.method.code.size) :
    (blank p start).frames[FlowGraph.entry]? = some none := by
  simp [blank, FlowGraph.entry, hsize]

theorem begin_allFrames {P : Frame → Prop} {seed : Frame} (hseed : P seed) (start : σ) :
    AllFrames P (Config.begin p seed start) :=
  AllFrames.install (fun _ _ hF => absurd hF blank_frames) hseed

private theorem begin_covered {I : σ → Prop} {start : σ} {seed : Frame} (hseed : seed.Of p.method)
    (hsize : 0 < p.method.code.size) : Covered p I seed (Config.begin p seed start) := by
  have hself : (Config.begin p seed start).frames[FlowGraph.entry]? = some (some seed) :=
    install_self (by simpa [FlowGraph.entry] using hsize)
  refine ⟨begin_allFrames hseed start, by simp [begin_eq, blank],
    ⟨seed, hself, le_refl seed⟩, ?_⟩
  intro _ i insn F _ hF hi
  have hne : i ≠ FlowGraph.entry := by
    simpa [begin_eq, blank] using hi
  rw [begin_eq, install_ne hne] at hF
  exact absurd hF blank_frames

theorem Leads.covered {I : σ → Prop} {start : σ} {seed : Frame} {T : Run σ}
    (h : Leads p (Config.begin p seed start) T)
    (hworlds : ∀ U, Leads p (Config.begin p seed start) U → I U.world)
    (hgraph : p.method.graph = .ok p.graph) (hseed : p.method.entryFrame = .ok seed) :
    Covered p I seed T :=
  h.invariant (begin_covered (Method.entryFrame_of hseed) (Method.code_size_pos hgraph))
    fun U _ hU hcovered _ _ =>
      hcovered.pick (hworlds U hU) fun _ _ he => Method.edge_target_lt hgraph he

theorem Leads.frames_size {start : σ} {seed : Frame} {T : Run σ}
    (h : Leads p (Config.begin p seed start) T) (hgraph : p.method.graph = .ok p.graph)
    (hseed : p.method.entryFrame = .ok seed) : T.frames.size = p.method.code.size :=
  (h.covered (I := fun _ => True) (fun _ _ => trivial) hgraph hseed).size

/-! ## Ended runs -/

def frame? (S : Run σ) (i : Nat) : Option Frame :=
  S.frames[i]?.getD none

theorem frame?_eq_some {S : Run σ} {i : Nat} {F : Frame} :
    S.frame? i = some F ↔ S.frames[i]? = some (some F) := by
  simp [frame?, Option.getD_eq_iff]

theorem pending_eq_nil {S : Run σ} (hstopped : S.stopped = none)
    (hended : S.isRunning = false) : S.pending = [] := by
  by_contra hpending
  rw [isRunning_iff.2 ⟨hstopped, hpending⟩] at hended
  cases hended

private theorem Covered.closed {I : σ → Prop} {seed : Frame} {S : Run σ} (h : Covered p I seed S)
    (hstopped : S.stopped = none) (hended : S.isRunning = false) :
    Closed p.config I p.method p.graph seed S.frame? := by
  have habove {target : Nat} {H : Frame} (habove : S.Above target H) :
      ∃ G, S.frame? target = some G ∧ H ≤ G := by
    obtain ⟨G, hG, hle⟩ := habove
    exact ⟨G, frame?_eq_some.2 hG, hle⟩
  have hsettled {i : Nat} {insn : Insn Nat} {F : Frame} (hinsn : p.method.code[i]? = some insn)
      (hF : S.frames[i]? = some (some F)) : ∃ world, I world ∧ Settled p world S i insn F := by
    refine h.settled hstopped i insn F hinsn hF ?_
    rw [pending_eq_nil hstopped hended]
    exact List.not_mem_nil
  constructor
  case frames =>
    intro i F hF
    exact h.frames i F (frame?_eq_some.1 hF)
  case entry => exact habove h.entry
  case normal =>
    intro i insn F hinsn hF
    obtain ⟨world, hworld, hsettled⟩ := hsettled hinsn (frame?_eq_some.1 hF)
    obtain ⟨H, hH, hedges⟩ := hsettled.normal
    exact ⟨world, H, hworld, hH, fun e he => habove (hedges e he)⟩
  case thrown =>
    intro i F hF e he catchClass hkind
    rw [frame?_eq_some] at hF
    have hlt : i < p.method.code.size := h.size ▸ (Array.getElem?_eq_some_iff.1 hF).1
    obtain ⟨_, _, hsettled⟩ := hsettled (Array.getElem?_eq_getElem hlt) hF
    obtain ⟨H, hH, htarget⟩ := hsettled.thrown e he catchClass hkind
    obtain rfl := handlerFrame_ok hH
    exact habove htarget

theorem Leads.solution {I : σ → Prop} {start world : σ} {seed : Frame} {T : Run σ}
    (h : Leads p (Config.begin p seed start) T) (hcfg : p.config.Repeatable I)
    (hstart : I start) (hworld : I world) (hgraph : p.method.graph = .ok p.graph)
    (hseed : p.method.entryFrame = .ok seed) (hstopped : T.stopped = none)
    (hended : T.isRunning = false) :
    Solution p.config world p.method p.graph T.frame? := by
  have hcovered := h.covered (fun _ hU => hU.world hcfg hstart) hgraph hseed
  exact (hcovered.closed hstopped hended).solution hcfg hworld hseed

end Run

namespace Config

def problem (cfg : Config σ) (m : Method) (g : FlowGraph) : Problem σ :=
  ⟨cfg, m, g, g.order⟩

def solved (cfg : Config σ) (m : Method) (g : FlowGraph) (seed : Frame) (start : σ) : Run σ :=
  (begin (cfg.problem m g) seed start).solve (cfg.problem m g)

theorem solved_leads (cfg : Config σ) (m : Method) (g : FlowGraph) (seed : Frame) (start : σ) :
    Run.Leads (cfg.problem m g) (begin (cfg.problem m g) seed start)
      (cfg.solved m g seed start) :=
  Run.solve_leads _ _

theorem solved_ended (cfg : Config σ) (m : Method) (g : FlowGraph) (seed : Frame) (start : σ) :
    (cfg.solved m g seed start).isRunning = false :=
  Run.solve_ended _ _

theorem solved_closed {m : Method} {g : FlowGraph} {seed : Frame} (hgraph : m.graph = .ok g)
    (hseed : m.entryFrame = .ok seed) (cfg : Config σ) (start : σ)
    (h : (cfg.solved m g seed start).stopped = none) :
    Closed cfg (fun _ => True) m g seed (cfg.solved m g seed start).frame? := by
  have hcovered := (cfg.solved_leads m g seed start).covered (I := fun _ => True)
    (fun _ _ => trivial) hgraph hseed
  exact hcovered.closed h (cfg.solved_ended m g seed start)

theorem analyze_ok {cfg : Config σ} {m : Method} {start : σ} {a : Analysis}
    (h : (cfg.analyze m start).1 = .ok a) :
    ∃ g seed, m.graph = .ok g ∧ m.entryFrame = .ok seed ∧
      (cfg.solved m g seed start).stopped = none ∧
      a.frame? = (cfg.solved m g seed start).frame? := by
  unfold analyze at h
  split at h
  · cases h
  · split at h
    · cases h
    · rename_i g hgraph
      split at h
      · cases h
      · rename_i seed hseed
        refine ⟨g, seed, hgraph, hseed, ?_⟩
        simp only [outcome] at h
        split at h
        · cases h
        · rename_i hstopped
          split at h
          · cases h
          · cases h
            exact ⟨hstopped, rfl⟩

/-- The frames of a successful analysis are a solution, in every world of the analysis. -/
theorem analyze_solution {cfg : Config σ} {I : σ → Prop} (hcfg : cfg.Repeatable I)
    {m : Method} {start : σ} (hstart : I start) {a : Analysis}
    (h : (cfg.analyze m start).1 = .ok a) :
    ∃ g, m.graph = .ok g ∧ ∀ world, I world → Solution cfg world m g a.frame? := by
  obtain ⟨g, seed, hgraph, hseed, hstopped, hframe?⟩ := analyze_ok h
  refine ⟨g, hgraph, fun world hworld => ?_⟩
  rw [hframe?]
  exact (cfg.solved_leads m g seed start).solution hcfg hstart hworld hgraph hseed hstopped
    (cfg.solved_ended m g seed start)

end Config

/-! ## A loop -/

def attempt : MethodRef := ⟨"Task", "attempt", ⟨[.base .int], some (.base .int)⟩⟩

/-- Calls a method on its own results until one is zero.  The handler covers itself. -/
def retry : Method where
  owner := "Task"
  name := "retry"
  type := ⟨[], none⟩
  access := .publicStatic
  maxLocals := 1
  maxStack := some 2
  code := #[.const (.int 1), .invoke .static attempt, .stack .dup, .store .int 0,
    .branch .ne 7, .ret none, .throw, .load .int 0, .jump 1]
  handlers := [⟨1, 7, 6, none⟩]

def unsupported : Setup Unit where
  mode := .simulated
  host := some fun _ _ world => (.error ⟨.unsupported, "attempt"⟩, world)
  policy := some Tolerance.always.policy
  memo := true

theorem unsupported_repeatable : unsupported.toConfig.Repeatable fun _ => True where
  fields _ hsource := by cases hsource
  calls _ hsource := by cases hsource
  host _ hhost _ _ := by
    cases hhost
    exact .pure _
  policy _ _ _ _ _ _ := trivial

def retryFrames : Array (Option Frame) :=
  #[some ⟨[none], [], some 2⟩,
    some ⟨[none], [.unresolved .one], some 2⟩,
    some ⟨[none], [.unresolved .one], some 2⟩,
    some ⟨[none], [.unresolved .one, .unresolved .one], some 2⟩,
    some ⟨[some (.unresolved .one)], [.unresolved .one], some 2⟩,
    some ⟨[some (.unresolved .one)], [], some 2⟩,
    some ⟨[none], [.ref "java/lang/Throwable"], some 2⟩,
    some ⟨[some (.unresolved .one)], [], some 2⟩,
    some ⟨[some (.unresolved .one)], [.unresolved .one], some 2⟩]

theorem retry_analyze : (unsupported.config.analyze retry (Memo.fresh ())).1 =
    .ok ⟨retryFrames, [⟨1, attempt, .hostError, ⟨.unsupported, "attempt"⟩⟩], 10, none,
      [0, 1, 2, 3, 4, 5, 6, 7, 8]⟩ := by
  cbv

theorem retry_solution :
    ∃ a, (unsupported.config.analyze retry (Memo.fresh ())).1 = .ok a ∧
      a.frames = retryFrames ∧
      ∃ g, retry.graph = .ok g ∧ ∀ world, Memo.Faithful (fun _ => True) unsupported.host world →
        Solution unsupported.config world retry g a.frame? :=
  ⟨_, retry_analyze, rfl, Config.analyze_solution
    (Setup.config_repeatable unsupported_repeatable) (Memo.fresh_faithful _ trivial)
    retry_analyze⟩

end FrameFlow
