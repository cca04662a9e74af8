import FrameFlow.Proofs.Outcomes
import FrameFlow.Proofs.Stopping
import FrameFlow.Proofs.Tracking

/-!
# Shapes do not depend on the configuration

The shape of a frame is the height of its stack with the widths of the entries,
and the set of its occupied locals with their widths.  Sources, hosts and
policies decide about values only: whatever they answer is cut to the width that
the instruction announces.  So any two configurations track each other along
equality of widths, and the runs of both, which may visit instructions in
different orders and differently often, bound each other.
-/

namespace FrameFlow

variable {σ τ : Type}

/-! ## Widths -/

def Value.SameWidth (a b : Value) : Prop :=
  a.width = b.width

theorem Value.sameWidth_respected : Respected Value.SameWidth where
  toJoinStable := joinStable_width
  unresolved _ := rfl
  const _ := rfl
  ref _ := rfl
  fold₁ hf _ := (fold₁_width hf _).trans (fold₁_width hf _).symm
  fold₂ hf _ _ := (fold₂_width hf _ _).trans (fold₂_width hf _ _).symm
  instanceTest className _ :=
    (instanceTest_width _ className).trans (instanceTest_width _ className).symm

namespace Config

private theorem staticField_width (cfg : Config σ) (f : FieldRef) (world : σ) :
    (cfg.staticField f world).1.width = f.width := by
  unfold staticField
  split
  · rfl
  · exact Value.shapedTo_width _ _

private theorem callResult_sameWidth (low : Config σ) (high : Config τ) (world : σ) (world' : τ)
    (position : Nat) (m : MethodRef) (args args' : List Value) :
    Option.Rel Value.SameWidth (low.callResult world position m args)
      (high.callResult world' position m args') := by
  have hwidth := (low.callResult_width world position m args).trans
    (high.callResult_width world' position m args').symm
  cases hlow : low.callResult world position m args with
  | none =>
      cases hhigh : high.callResult world' position m args' with
      | none => exact .none
      | some b => simp [hlow, hhigh] at hwidth
  | some a =>
      cases hhigh : high.callResult world' position m args' with
      | none => simp [hlow, hhigh] at hwidth
      | some b =>
          simp only [hlow, hhigh, Option.map_some, Option.some.injEq] at hwidth
          exact .some hwidth

private theorem tracks_sameWidth (low : Config σ) (high : Config τ) :
    low.Tracks Value.SameWidth (fun _ => True) high fun _ => True := by
  intro world world' _ _ F G h position insn
  apply onward_follows Value.sameWidth_respected _ _ h
  · intro f
    exact (low.staticField_width f world).trans (high.staticField_width f world').symm
  · intro position m args args' _
    exact callResult_sameWidth low high world world' position m args args'

end Config

/-! ## Shapes -/

namespace Frame

structure SameShape (F G : Frame) : Prop where
  stack : F.stack.map Value.width = G.stack.map Value.width
  locals : F.locals.map (Option.map Value.width) = G.locals.map (Option.map Value.width)

private theorem rel_sameWidth_refl (F : Frame) : Rel Value.SameWidth F F :=
  ⟨.refl F, fun _ b hb => ⟨b, hb, rfl⟩, List.forall₂_same.2 fun _ _ => rfl⟩

private theorem sameShape_of_rel {F G : Frame} (hFG : Rel Value.SameWidth F G)
    (hGF : Rel Value.SameWidth G F) : SameShape F G := by
  constructor
  · exact widths_eq Value.sameWidth_respected.toJoinStable hFG.stack
  · apply List.ext_getElem?
    intro k
    rw [List.getElem?_map, List.getElem?_map]
    cases hF : F.locals[k]? with
    | none =>
        rw [List.getElem?_eq_none_iff, hFG.size] at hF
        rw [List.getElem?_eq_none hF]
    | some slot =>
        have hk : k < G.locals.length := by
          rw [← hFG.size]
          exact (List.getElem?_eq_some_iff.1 hF).1
        cases slot with
        | some a =>
            obtain ⟨b, hb, hba⟩ := hGF.locals k a hF
            simpa [hb] using Eq.symm hba
        | none =>
            cases hG : G.locals[k] with
            | none => simp [hk, hG]
            | some b =>
                have hb : G.locals[k]? = some (some b) := by simp [hk, hG]
                obtain ⟨a, ha, _⟩ := hFG.locals k b hb
                rw [hF] at ha
                cases ha

end Frame

/-! ## Two runs -/

namespace Config

section

variable {m : Method} {g : FlowGraph} {seed : Frame} (hgraph : m.graph = .ok g)
  (hseed : m.entryFrame = .ok seed)

include hgraph hseed

theorem solved_within (cfg : Config σ) (cfg' : Config τ) (start : σ) (start' : τ)
    (h : (cfg'.solved m g seed start').stopped = none) :
    Run.Within Value.SameWidth (cfg'.solved m g seed start').frame?
      (cfg.solved m g seed start) := by
  have hleads := cfg.solved_leads m g seed start
  have hclosed := solved_closed hgraph hseed cfg' start' h
  have htracks := tracks_sameWidth cfg cfg'
  exact hleads.within hclosed Value.sameWidth_respected htracks (fun _ _ => trivial)
    (Frame.rel_sameWidth_refl seed)

theorem solved_sameShape (cfg : Config σ) (cfg' : Config τ) (start : σ) (start' : τ)
    (h : (cfg.solved m g seed start).stopped = none)
    (h' : (cfg'.solved m g seed start').stopped = none) (i : Nat) :
    Option.Rel Frame.SameShape ((cfg.solved m g seed start).frame? i)
      ((cfg'.solved m g seed start').frame? i) := by
  have hbelow := solved_within hgraph hseed cfg cfg' start start' h'
  have habove := solved_within hgraph hseed cfg' cfg start' start h
  cases hF : (cfg.solved m g seed start).frame? i with
  | some F =>
      obtain ⟨G, hG, hFG⟩ := hbelow.frames i F (Run.frame?_eq_some.1 hF)
      obtain ⟨F', hF', hGF⟩ := habove.frames i G (Run.frame?_eq_some.1 hG)
      cases hF.symm.trans hF'
      rw [hG]
      exact .some (Frame.sameShape_of_rel hFG hGF)
  | none =>
      cases hG : (cfg'.solved m g seed start').frame? i with
      | none => exact .none
      | some G =>
          obtain ⟨F, hF', _⟩ := habove.frames i G (Run.frame?_eq_some.1 hG)
          rw [hF] at hF'
          cases hF'

end

theorem analyze_frame_error {cfg : Config σ} {m : Method} {start : σ} {i : Nat}
    {cause : FrameError} (h : (cfg.analyze m start).1 = .error (.frame i cause)) :
    ∃ g seed, m.checkLocals = .ok () ∧ m.graph = .ok g ∧ m.entryFrame = .ok seed ∧
      (cfg.solved m g seed start).stopped = some (.frame i cause) := by
  rcases analyze_cases cfg m start with ⟨_, _, heq⟩ | ⟨_, _, _, heq⟩ |
    ⟨g, seed, hlocals, hgraph, hseed, heq⟩
  · rw [heq] at h
    cases h
  · rw [heq] at h
    cases h
  · rw [heq] at h
    rcases outcome_error h with hstopped | ⟨_, hjoin⟩
    · exact ⟨g, seed, hlocals, hgraph, hseed, hstopped⟩
    · obtain ⟨_, _, _, _, _, hclash⟩ := Value.joinAll_error hjoin
      cases hclash

/--
Whatever two configurations consist of, two successful analyses have frames of
one shape at the same instructions.  If a frame does not fit in one of them, the
other one does not succeed either.
-/
theorem analyze_sameShape (cfg : Config σ) (cfg' : Config τ) (m : Method) (start : σ)
    (start' : τ) :
    (∀ a a', (cfg.analyze m start).1 = .ok a → (cfg'.analyze m start').1 = .ok a' →
      ∀ i, Option.Rel Frame.SameShape (a.frame? i) (a'.frame? i)) ∧
    ∀ i cause, (cfg.analyze m start).1 = .error (.frame i cause) →
      (∃ j cause', (cfg'.analyze m start').1 = .error (.frame j cause')) ∨
        ∃ f, (cfg'.analyze m start').1 = .error (.simulation f) := by
  constructor
  · intro a a' ha ha' i
    obtain ⟨g, seed, hgraph, hseed, hstopped, hframes⟩ := analyze_ok ha
    obtain ⟨g', seed', hgraph', hseed', hstopped', hframes'⟩ := analyze_ok ha'
    cases hgraph.symm.trans hgraph'
    cases hseed.symm.trans hseed'
    rw [hframes, hframes']
    exact solved_sameShape hgraph hseed cfg cfg' start start' hstopped hstopped' i
  · intro i cause h
    obtain ⟨g, seed, hlocals, hgraph, hseed, hstopped⟩ := analyze_frame_error h
    rw [cfg'.analyze_eq hlocals hgraph hseed start']
    cases hstopped' : (cfg'.solved m g seed start').stopped with
    | none =>
        have hwithin := solved_within hgraph hseed cfg cfg' start start' hstopped'
        obtain ⟨f, hf⟩ := hwithin.stopped _ hstopped
        cases hf
    | some e =>
        rw [outcome_stopped hstopped']
        cases (cfg'.solved_leads m g seed start').halted rfl e hstopped' with
        | frame j cause' => exact .inl ⟨j, cause', rfl⟩
        | refused _ _ => exact .inr ⟨_, rfl⟩

end Config

def steady : Config Unit where
  mode := .simulated
  host := some fun _ _ world => (.ok (some (.const (.int 1))), world)

def spill : Method where
  owner := "Task"
  name := "spill"
  type := ⟨[], none⟩
  access := .publicStatic
  maxLocals := 0
  maxStack := none
  code := #[.const (.int 1), .invoke .static attempt, .stack .pop2, .ret none]
  handlers := []

def retrySteadyFrames : Array (Option Frame) :=
  #[some ⟨[none], [], some 2⟩,
    some ⟨[none], [.const (.int 1)], some 2⟩,
    some ⟨[none], [.const (.int 1)], some 2⟩,
    some ⟨[none], [.const (.int 1), .const (.int 1)], some 2⟩,
    some ⟨[some (.const (.int 1))], [.const (.int 1)], some 2⟩,
    some ⟨[some (.const (.int 1))], [], some 2⟩,
    some ⟨[none], [.ref "java/lang/Throwable"], some 2⟩,
    some ⟨[some (.const (.int 1))], [], some 2⟩,
    some ⟨[some (.const (.int 1))], [.const (.int 1)], some 2⟩]

private theorem retry_analyze_steady : (steady.analyze retry ()).1 =
    .ok ⟨retrySteadyFrames, [], 9, none, [0, 1, 2, 3, 4, 5, 6, 7, 8]⟩ := by
  cbv

theorem retry_spill_sameShape :
    (∃ a a', (unsupported.config.analyze retry (Memo.fresh ())).1 = .ok a ∧
      (steady.analyze retry ()).1 = .ok a' ∧ a.frame? 8 ≠ a'.frame? 8 ∧
      ∀ i, Option.Rel Frame.SameShape (a.frame? i) (a'.frame? i)) ∧
    (unsupported.config.analyze spill (Memo.fresh ())).1 =
      .error (.frame 2 .stackUnderflow) ∧
    ((∃ j cause, ({ unsupported with policy := none }.config.analyze spill
        (Memo.fresh ())).1 = .error (.frame j cause)) ∨
      ∃ f, ({ unsupported with policy := none }.config.analyze spill (Memo.fresh ())).1 =
        .error (.simulation f)) := by
  have hspill : (unsupported.config.analyze spill (Memo.fresh ())).1 =
      .error (.frame 2 .stackUnderflow) := by cbv
  refine ⟨⟨_, _, retry_analyze, retry_analyze_steady, by decide, ?_⟩, hspill, ?_⟩
  · exact (Config.analyze_sameShape unsupported.config steady retry (Memo.fresh ()) ()).1 _ _
      retry_analyze retry_analyze_steady
  · exact (Config.analyze_sameShape unsupported.config { unsupported with policy := none }.config
      spill (Memo.fresh ()) (Memo.fresh ())).2 2 _ hspill

end FrameFlow
